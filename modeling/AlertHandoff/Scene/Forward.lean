import AlertHandoff.Scene.Basic

/-! # Moving an alert from the summary to the child

While a group is suppressed its only child is shown in the place of the summary, so an alert of
the summary belongs on the child.  `Scene.forward` moves it, unless quiet mode is on or a child
is about to join the group, which would end the suppression.  The moment of the move is kept for
a summary that alone alerts for its group: such a move may be taken back. -/

namespace AlertHandoff
namespace Scene

/-- The child that takes the alert of a summary: the first that routes through the summary. -/
def heir? (g : Grouping) (group : String) : Option Notice :=
  (g.children group).find? (·.policy.viaSummary)

/-- The alert of the summary may be moved now. -/
def mayForward (s : Scene) (g : Grouping) (summary : Notice) (kind : Kind) : Bool :=
  !s.arbiter.quiet && g.suppressed summary.group && s.screen.isUp kind summary.key &&
    (s.arbiter.joining summary.group (g.children summary.group)).isEmpty

/-- Keeps the moment of a move from the summary that may be taken back. -/
def markForward (s : Scene) (summary child : Notice) (kind : Kind) (now : Nat) : Scene :=
  if summary.policy.summaryOnly && !s.screen.isUp kind child.key then
    s.modifyRecord summary.group fun r => { r with lastForward := some now }
  else s

/-- Moves the alert of a summary to the child that takes it, if it may be moved and there is such
a child.  The summary is released before the child is touched. -/
def forward (s : Scene) (g : Grouping) (now : Nat) (summary : Notice) (kind : Kind) : Scene :=
  if s.mayForward g summary kind then
    match heir? g summary.group with
    | none => s
    | some child =>
      ((s.markForward summary child kind now).dismiss kind summary.key).move child summary.key kind
  else s

theorem mem_children_of_heir? {g : Grouping} {group : String} {child : Notice}
    (h : heir? g group = some child) :
    child ∈ g.children group ∧ child.policy.viaSummary = true :=
  ⟨List.mem_of_find?_eq_some h, by simpa using List.find?_some h⟩

theorem forward_of_quiet {s : Scene} (h : s.arbiter.quiet = true) (g : Grouping) (now : Nat)
    (summary : Notice) (kind : Kind) : s.forward g now summary kind = s := by
  simp [forward, mayForward, h]

end Scene
end AlertHandoff
