import AlertHandoff.Arbiter
import AlertHandoff.Grouping
import AlertHandoff.Screen.Basic

/-! # Scenes: handing an alert over

A scene is the arbiter's books together with the screen.  `Scene.deliver` is the one door through
which the arbiter alerts: the destination is shown if its content is ready, otherwise the move is
put off and the content is asked for.  Without a presenter nothing happens.  `Scene.outcome` says
which of the three it is, and `Scene.move` writes it into the journal. -/

namespace AlertHandoff

/-- The books of the arbiter and the screen. -/
structure Scene where
  arbiter : Arbiter := {}
  screen : Screen := {}

/-- What comes of handing over an alert. -/
inductive Outcome where
  | shown
  | deferred
  | unavailable
deriving DecidableEq, Repr

/-- The journal entry of a move with the given outcome. -/
def Outcome.actions (o : Outcome) (source target : String) (kind : Kind) : List Action :=
  match o with
  | .shown => [.moved source target kind]
  | .deferred => [.deferred source target kind]
  | .unavailable => []

namespace Scene

def write (s : Scene) (actions : List Action) : Scene :=
  { s with arbiter := s.arbiter.write actions }

def modifyRecord (s : Scene) (group : String) (f : GroupRecord → GroupRecord) : Scene :=
  { s with arbiter := s.arbiter.modifyRecord group f }

/-- Takes the alert of a key down on a kind. -/
def dismiss (s : Scene) (kind : Kind) (key : String) : Scene :=
  { s with screen := s.screen.dismiss kind key }

def clearDeferral (s : Scene) (key : String) : Scene :=
  { s with arbiter := { s.arbiter with pending := s.arbiter.pending.erase key } }

/-- What comes of handing an alert over to a notice now. -/
def outcome (s : Scene) (n : Notice) (kind : Kind) : Outcome :=
  match s.screen.presenter kind with
  | none => .unavailable
  | some p => if s.screen.isReady n.row p.flag then .shown else .deferred

/-- Puts a move off: the deferral takes the place of an earlier one to the same key, and the row
is asked for content if the settings say so. -/
def defer (s : Scene) (n : Notice) (source : String) (kind : Kind) (flag : Flag) : Scene where
  arbiter :=
    { s.arbiter with pending := s.arbiter.pending.insert n.key (Deferral.fresh n source kind) }
  screen := if s.arbiter.settings.asksForContent then s.screen.request n.row flag else s.screen

/-- Hands the alert of `source` over to a notice: it alerts if its content is ready, which settles
every earlier deferral to it, and otherwise the move is put off. -/
def deliver (s : Scene) (n : Notice) (source : String) (kind : Kind) : Scene :=
  match s.screen.presenter kind with
  | none => s
  | some p =>
    if s.screen.isReady n.row p.flag then
      { s.clearDeferral n.key with screen := s.screen.alert kind n }
    else s.defer n source kind p.flag

/-- Hands an alert over and writes down what came of it. -/
def move (s : Scene) (n : Notice) (source : String) (kind : Kind) : Scene :=
  (s.deliver n source kind).write ((s.outcome n kind).actions source n.key kind)

theorem deliver_of_shown {s : Scene} {n : Notice} {kind : Kind} (h : s.outcome n kind = .shown)
    (source : String) :
    s.deliver n source kind = { s.clearDeferral n.key with screen := s.screen.alert kind n } := by
  unfold outcome at h
  unfold deliver
  split at h
  · cases h
  · split at h <;> simp_all

theorem deliver_of_unavailable {s : Scene} {n : Notice} {kind : Kind}
    (h : s.outcome n kind = .unavailable) (source : String) : s.deliver n source kind = s := by
  unfold outcome at h
  unfold deliver
  split at h
  · simp_all
  · split at h <;> cases h

theorem outcome_eq_unavailable_iff {s : Scene} {n : Notice} {kind : Kind} :
    s.outcome n kind = .unavailable ↔ s.screen.presenter kind = none := by
  unfold outcome
  split
  · simp_all
  · split <;> simp_all

end Scene

end AlertHandoff
