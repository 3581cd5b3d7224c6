import AlertHandoff.Screen.Presenter

/-! # The screen

The screen is everything an alert can be seen on: at most one presenter for each kind, and the
rows by name.  Whoever calls a presenter or asks something of a row, the call is written down in
`calls` before it takes effect, also when it changes nothing; questions are not written down.

`isUp_raise` and its neighbours say what a call does to the alerting keys of every kind,
`isReady_request` and its neighbours what it does to the prepared content of every row.  A call on
a kind without a presenter does not happen. -/

namespace AlertHandoff

/-- A call on a presenter or a row. -/
inductive Call where
  | raise (kind : Kind) (key : String)
  | update (kind : Kind) (key : String) (alert : Bool)
  | dismiss (kind : Kind) (key : String)
  | request (row : String) (flag : Flag)
  | release (row : String) (flag : Flag)
deriving DecidableEq, Repr

/-- The presenters, the rows by name, and the calls made so far, oldest first. -/
structure Screen where
  headsUp : Option Presenter := none
  ambientPulse : Option Presenter := none
  rows : String → Row := fun _ => {}
  calls : List Call := []

namespace Screen

/-- The presenter registered for a kind. -/
def presenter (s : Screen) : Kind → Option Presenter
  | .headsUp => s.headsUp
  | .ambientPulse => s.ambientPulse

def setPresenter (s : Screen) : Kind → Presenter → Screen
  | .headsUp, p => { s with headsUp := some p }
  | .ambientPulse, p => { s with ambientPulse := some p }

def setRow (s : Screen) (name : String) (r : Row) : Screen :=
  { s with rows := fun x => if x = name then r else s.rows x }

@[simp] theorem presenter_setPresenter (s : Screen) (kind k : Kind) (p : Presenter) :
    (s.setPresenter kind p).presenter k = if k = kind then some p else s.presenter k := by
  cases kind <;> cases k <;> rfl

@[simp] theorem rows_setPresenter (s : Screen) (kind : Kind) (p : Presenter) :
    (s.setPresenter kind p).rows = s.rows := by
  cases kind <;> rfl

@[simp] theorem presenter_setRow (s : Screen) (name : String) (r : Row) (k : Kind) :
    (s.setRow name r).presenter k = s.presenter k := by
  cases k <;> rfl

@[simp] theorem rows_setRow (s : Screen) (name : String) (r : Row) (x : String) :
    (s.setRow name r).rows x = if x = name then r else s.rows x := rfl

/-! ### Questions -/

/-- The key is alerting on the presenter of a kind. -/
def isUp (s : Screen) (kind : Kind) (key : String) : Bool :=
  (s.presenter kind).any (·.isUp key)

/-- The first kind on which the key is alerting. -/
def kindUp? (s : Screen) (key : String) : Option Kind :=
  Kind.all.find? (s.isUp · key)

/-- The key is alerting on some kind. -/
def isUpSomewhere (s : Screen) (key : String) : Bool := (s.kindUp? key).isSome

def isReady (s : Screen) (row : String) (flag : Flag) : Bool := (s.rows row).isReady flag

theorem isUp_of_kindUp? {s : Screen} {key : String} {kind : Kind}
    (h : s.kindUp? key = some kind) : s.isUp kind key = true := by
  simpa using List.find?_some h

theorem isUpSomewhere_iff {s : Screen} {key : String} :
    s.isUpSomewhere key = true ↔ ∃ kind, s.isUp kind key = true := by
  simp [isUpSomewhere, kindUp?, Kind.mem_all]

/-! ### Calls -/

/-- A call on the presenter of a kind; without one nothing is called. -/
def callPresenter (s : Screen) (kind : Kind) (call : Call) (effect : Presenter → Presenter) :
    Screen :=
  match s.presenter kind with
  | none => s
  | some p => { s.setPresenter kind (effect p) with calls := s.calls ++ [call] }

/-- The alert of a notice comes up on a kind. -/
def raise (s : Screen) (kind : Kind) (n : Notice) : Screen :=
  s.callPresenter kind (.raise kind n.key) (·.raise n)

/-- A key that is up on a kind is updated. -/
def update (s : Screen) (kind : Kind) (key : String) (alert : Bool) : Screen :=
  s.callPresenter kind (.update kind key alert) (·.update key alert)

def dismiss (s : Screen) (kind : Kind) (key : String) : Screen :=
  s.callPresenter kind (.dismiss kind key) (·.dismiss key)

/-- Alerts for a notice: it is updated if it is up already, and comes up otherwise. -/
def alert (s : Screen) (kind : Kind) (n : Notice) : Screen :=
  if s.isUp kind n.key then s.update kind n.key true else s.raise kind n

/-- Content of the named row is asked for. -/
def request (s : Screen) (row : String) (flag : Flag) : Screen :=
  { s.setRow row ((s.rows row).request flag) with calls := s.calls ++ [.request row flag] }

/-- Content of the named row is taken down. -/
def release (s : Screen) (row : String) (flag : Flag) : Screen :=
  { s.setRow row ((s.rows row).release flag) with calls := s.calls ++ [.release row flag] }

/-- Content of the named row becomes ready, or stops being so; nobody called for it. -/
def prepare (s : Screen) (row : String) (flag : Flag) (on : Bool) : Screen :=
  s.setRow row ((s.rows row).prepare flag on)

theorem presenter_callPresenter (s : Screen) (kind k : Kind) (call : Call)
    (effect : Presenter → Presenter) :
    (s.callPresenter kind call effect).presenter k =
      if k = kind then (s.presenter k).map effect else s.presenter k := by
  unfold callPresenter
  split
  · next h => split <;> simp_all
  · next p h => cases kind <;> cases k <;> simp_all [setPresenter, presenter]

@[simp] theorem rows_callPresenter (s : Screen) (kind : Kind) (call : Call)
    (effect : Presenter → Presenter) : (s.callPresenter kind call effect).rows = s.rows := by
  unfold callPresenter
  split <;> simp

theorem calls_callPresenter (s : Screen) (kind : Kind) (call : Call)
    (effect : Presenter → Presenter) :
    (s.callPresenter kind call effect).calls =
      s.calls ++ if (s.presenter kind).isSome then [call] else [] := by
  unfold callPresenter
  split <;> simp_all

/-- **Raising an alert**: the key comes up on the kind if that has a presenter, and nothing else
changes. -/
@[simp] theorem isUp_raise (s : Screen) (kind k : Kind) (n : Notice) (key : String) :
    (s.raise kind n).isUp k key =
      (s.isUp k key || (k == kind && key == n.key && (s.presenter k).isSome)) := by
  by_cases hk : k = kind
  · subst hk
    cases h : s.presenter k <;> simp [isUp, raise, presenter_callPresenter, h, Bool.or_comm]
  · simp [isUp, raise, presenter_callPresenter, hk]

@[simp] theorem isUp_update (s : Screen) (kind k : Kind) (key : String) (alert : Bool)
    (x : String) : (s.update kind key alert).isUp k x = s.isUp k x := by
  by_cases hk : k = kind
  · subst hk
    cases h : s.presenter k <;> simp [isUp, update, presenter_callPresenter, h]
  · simp [isUp, update, presenter_callPresenter, hk]

/-- **Dismissing an alert**: the key is down on the kind afterwards, and nothing else changes. -/
@[simp] theorem isUp_dismiss (s : Screen) (kind k : Kind) (key x : String) :
    (s.dismiss kind key).isUp k x = (!(k == kind && x == key) && s.isUp k x) := by
  by_cases hk : k = kind
  · subst hk
    cases h : s.presenter k <;> simp [isUp, dismiss, presenter_callPresenter, h, bne]
  · simp [isUp, dismiss, presenter_callPresenter, hk]

/-- **Alerting for a notice**: its key is up on the kind if that has a presenter. -/
@[simp] theorem isUp_alert (s : Screen) (kind k : Kind) (n : Notice) (key : String) :
    (s.alert kind n).isUp k key =
      (s.isUp k key || (k == kind && key == n.key && (s.presenter k).isSome)) := by
  unfold Screen.alert
  split
  · next h =>
    have hp : (s.presenter kind).isSome = true := by
      unfold isUp at h
      cases hp : s.presenter kind <;> simp_all
    by_cases hk : k = kind <;> by_cases hx : key = n.key <;> simp_all
  · simp

@[simp] theorem isReady_request (s : Screen) (row x : String) (flag f : Flag) :
    (s.request row flag).isReady x f = s.isReady x f := by
  by_cases h : x = row <;> simp [isReady, request, setRow, h]

@[simp] theorem isReady_release (s : Screen) (row x : String) (flag f : Flag) :
    (s.release row flag).isReady x f = (!(x == row && f == flag) && s.isReady x f) := by
  by_cases h : x = row <;> simp [isReady, release, setRow, h, bne]

@[simp] theorem isReady_prepare (s : Screen) (row x : String) (flag f : Flag) (on : Bool) :
    (s.prepare row flag on).isReady x f =
      if x = row ∧ f = flag then on else s.isReady x f := by
  by_cases h : x = row <;> simp [isReady, prepare, h]

end Screen

end AlertHandoff
