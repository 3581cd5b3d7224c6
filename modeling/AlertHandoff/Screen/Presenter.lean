import AlertHandoff.Keyed
import AlertHandoff.Notice
import AlertHandoff.Screen.Row

/-! # Presenters

A presenter shows the transient alerts of one kind.  It knows which keys are alerting, reports
every change of that set in a feed that stays until it is read, and counts how often it alerted
again for a key that was up already.  Raising a key that is alerting and dismissing one that is
not change nothing, so the feed alone tells which keys are alerting. -/

namespace AlertHandoff

/-- A change of the alerting keys: the notice that came up, or the key that went down. -/
inductive Change where
  | raised (n : Notice)
  | dismissed (key : String)
deriving DecidableEq, Repr

/-- A presenter: the form of content it needs, the alerting keys, the changes nobody has read
yet (oldest first), and the number of repeated alerts. -/
structure Presenter where
  flag : Flag
  up : Keys := ∅
  feed : List Change := []
  updates : Nat := 0
deriving DecidableEq

/-- The form of content a kind of alert needs unless its presenter says otherwise. -/
def Kind.usualFlag : Kind → Flag
  | .headsUp => 4
  | .ambientPulse => 8

namespace Presenter

def isUp (p : Presenter) (key : String) : Bool := p.up.contains key

def raise (p : Presenter) (n : Notice) : Presenter :=
  if p.isUp n.key then p
  else { p with up := p.up.insert n.key, feed := p.feed ++ [.raised n] }

/-- A key that is up alerts once more, if the update asks for that. -/
def update (p : Presenter) (key : String) (alert : Bool) : Presenter :=
  if alert && p.isUp key then { p with updates := p.updates + 1 } else p

def dismiss (p : Presenter) (key : String) : Presenter :=
  if p.isUp key then
    { p with up := p.up.erase key, feed := p.feed ++ [.dismissed key] }
  else p

/-- The presenter once its feed has been read. -/
def read (p : Presenter) : Presenter := { p with feed := [] }

@[simp] theorem isUp_raise (p : Presenter) (n : Notice) (k : String) :
    (p.raise n).isUp k = (k == n.key || p.isUp k) := by
  grind [isUp, raise]

@[simp] theorem isUp_update (p : Presenter) (key k : String) (alert : Bool) :
    (p.update key alert).isUp k = p.isUp k := by
  unfold update
  split <;> rfl

@[simp] theorem isUp_dismiss (p : Presenter) (key k : String) :
    (p.dismiss key).isUp k = (k != key && p.isUp k) := by
  grind [isUp, dismiss]

@[simp] theorem isUp_read (p : Presenter) (k : String) :
    p.read.isUp k = p.isUp k := rfl

@[simp] theorem flag_raise (p : Presenter) (n : Notice) : (p.raise n).flag = p.flag := by
  unfold raise
  split <;> rfl

@[simp] theorem flag_update (p : Presenter) (key : String) (alert : Bool) :
    (p.update key alert).flag = p.flag := by
  unfold update
  split <;> rfl

@[simp] theorem flag_dismiss (p : Presenter) (key : String) : (p.dismiss key).flag = p.flag := by
  unfold dismiss
  split <;> rfl

end Presenter

end AlertHandoff
