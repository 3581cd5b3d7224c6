import AlertHandoff.Notice

/-! # Groupings

A grouping says, for every group, whether the group is suppressed (its only child is shown in
the place of the summary), which notice is its summary, and which are its children, in order.
`Grouping.assign` and `Grouping.forget` change the answers for one group; `Grouping.empty` knows
no group.  `GroupEvent` lists what can happen to a group. -/

namespace AlertHandoff

/-- The answers about groups on which the handling of alerts rests. -/
structure Grouping where
  suppressed : String → Bool
  summary : String → Option Notice
  children : String → List Notice

namespace Grouping

def empty : Grouping := ⟨fun _ => false, fun _ => none, fun _ => []⟩

/-- The grouping with the given answers for one group. -/
def assign (g : Grouping) (group : String) (suppressed : Bool) (summary : Option Notice)
    (children : List Notice) : Grouping where
  suppressed x := if x = group then suppressed else g.suppressed x
  summary x := if x = group then summary else g.summary x
  children x := if x = group then children else g.children x

/-- The grouping that no longer knows one group. -/
def forget (g : Grouping) (group : String) : Grouping := g.assign group false none []

@[simp] theorem assign_same (g : Grouping) (group : String) (suppressed : Bool)
    (summary : Option Notice) (children : List Notice) :
    (g.assign group suppressed summary children).suppressed group = suppressed ∧
      (g.assign group suppressed summary children).summary group = summary ∧
      (g.assign group suppressed summary children).children group = children := by
  simp [assign]

theorem assign_ne (g : Grouping) {group x : String} (h : x ≠ group) (suppressed : Bool)
    (summary : Option Notice) (children : List Notice) :
    (g.assign group suppressed summary children).suppressed x = g.suppressed x ∧
      (g.assign group suppressed summary children).summary x = g.summary x ∧
      (g.assign group suppressed summary children).children x = g.children x := by
  simp [assign, h]

end Grouping

/-- What happens to a group: it comes into being, its suppression changes, or it ceases to
exist. -/
inductive GroupEvent where
  | formed (group : String)
  | suppression (group : String) (on : Bool)
  | dissolved (group : String)
deriving DecidableEq, Repr

def GroupEvent.group : GroupEvent → String
  | .formed g | .suppression g _ | .dissolved g => g

end AlertHandoff
