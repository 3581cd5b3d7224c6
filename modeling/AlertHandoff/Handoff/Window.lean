import AlertHandoff.Notice

/-! # The time in which a move may be taken back

A clock counts whole microseconds, in which a window of whole milliseconds can be told exactly; a
clock that counts in finer steps differs from it only in what passes within a microsecond.  A
group's record holds the moment of its last forward move, and the alert of its summary if that waits
for the group to grow.  `GroupRecord.mayReturn` decides whether a move may still be taken back:
always when no window is set, otherwise only while less time than the window has passed since the
last forward move.  A moment in the future counts as now. -/

namespace AlertHandoff

/-- The settings of an arbiter: the window in milliseconds within which a move may be taken back
(no limit without one), and whether a row is asked for content when a move is put off. -/
structure Settings where
  window : Option UInt64 := none
  asksForContent : Bool := true
deriving DecidableEq, Repr

/-- A clock that reads microseconds.  One that is free cannot be advanced by hand. -/
structure Clock where
  now : Nat := 0
  isFree : Bool := false
deriving DecidableEq, Repr

def Clock.advance (c : Clock) (micros : Nat) : Clock :=
  if c.isFree then c else { c with now := c.now + micros }

/-- The alert of a summary that waits for the group to grow: its kind, and the child it was taken
from. -/
structure Schedule where
  kind : Kind
  source : String
deriving DecidableEq, Repr

/-- What is remembered of a group between events. -/
structure GroupRecord where
  lastForward : Option Nat := none
  schedule : Option Schedule := none
deriving DecidableEq, Repr

/-- A move of the group may be taken back now. -/
def GroupRecord.mayReturn (g : GroupRecord) (window : Option UInt64) (now : Nat) : Bool :=
  match window with
  | none => true
  | some w => g.lastForward.any fun t => now - t < 1000 * w.toNat

theorem GroupRecord.mayReturn_some_iff {g : GroupRecord} {w : UInt64} {now : Nat} :
    g.mayReturn (some w) now = true ↔ ∃ t, g.lastForward = some t ∧ now - t < 1000 * w.toNat := by
  simp [mayReturn, Option.any_eq_true]

end AlertHandoff
