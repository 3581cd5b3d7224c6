import Std.Data.ExtTreeSet

/-! # Rows

A row draws a notice.  It holds prepared content for some flags, one flag for every form in which
the notice can be shown, and keeps count of what was asked of it: a request is only noted, a
release is noted and takes the prepared content away. -/

namespace AlertHandoff

/-- Names one form of prepared content. -/
abbrev Flag := UInt32

/-- A row: the flags whose content is ready, and the requests and releases so far, oldest
first. -/
structure Row where
  ready : Std.ExtTreeSet Flag compare := ∅
  requested : List Flag := []
  released : List Flag := []
deriving DecidableEq

namespace Row

def ofReady (flags : List Flag) : Row := { ready := Std.ExtTreeSet.ofList flags compare }

def isReady (r : Row) (flag : Flag) : Bool := r.ready.contains flag

/-- Content for the flag becomes ready, or stops being so. -/
def prepare (r : Row) (flag : Flag) (on : Bool) : Row :=
  { r with ready := if on then r.ready.insert flag else r.ready.erase flag }

/-- Content for the flag is asked for. -/
def request (r : Row) (flag : Flag) : Row := { r with requested := r.requested ++ [flag] }

/-- Content for the flag is taken down. -/
def release (r : Row) (flag : Flag) : Row :=
  { r with ready := r.ready.erase flag, released := r.released ++ [flag] }

@[simp] theorem isReady_ofReady (flags : List Flag) (f : Flag) :
    (ofReady flags).isReady f = flags.contains f := by
  simp [isReady, ofReady]

@[simp] theorem isReady_prepare (r : Row) (flag f : Flag) (on : Bool) :
    (r.prepare flag on).isReady f = if f = flag then on else r.isReady f := by
  grind [isReady, prepare]

@[simp] theorem isReady_request (r : Row) (flag f : Flag) :
    (r.request flag).isReady f = r.isReady f := rfl

@[simp] theorem isReady_release (r : Row) (flag f : Flag) :
    (r.release flag).isReady f = (f != flag && r.isReady f) := by
  grind [isReady, release]

end Row

end AlertHandoff
