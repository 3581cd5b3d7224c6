import AlertHandoff.Scene.Basic

/-! # Carrying out a move that was put off

When the content of a notice has been drawn, the move that waits for it is carried out, provided
that it was not taken back, that the notice is still what it was, that quiet mode is off and that
the source has not come up again.  Otherwise the move is given up, and the content prepared for it
is taken down; in quiet mode it stays. -/

namespace AlertHandoff
namespace Scene

/-- Takes down the content that the presenter of a kind needs to show a notice. -/
def release (s : Scene) (n : Notice) (kind : Kind) : Scene :=
  match s.screen.presenter kind with
  | none => s
  | some p => { s with screen := s.screen.release n.row p.flag }

/-- Carries out a move whose deferral has been taken off the books, and writes down whether it is
complete; one whose content is still missing waits again. -/
def complete (s : Scene) (n : Notice) (d : Deferral) : Scene :=
  (s.deliver n d.source d.kind).write
    (if s.outcome n d.kind = .shown then [.completed n.key d.kind] else [])

/-- The content of a notice has been drawn: the move that waits for it, if any, comes off the
books and is carried out or given up. -/
def rendered (s : Scene) (n : Notice) : Scene :=
  match s.arbiter.pending[n.key]? with
  | none => s
  | some d =>
    let s := s.clearDeferral n.key
    if d.isReversed then (s.release n d.kind).write [.reversed n.key]
    else if !d.fits n then (s.release n d.kind).write [.voided n.key .regrouped]
    else if s.arbiter.quiet then s.write [.voided n.key .quiet]
    else if s.screen.isUp d.kind d.source then
      (s.release n d.kind).write [.voided n.key .reclaimed]
    else s.complete n d

theorem rendered_of_none {s : Scene} {n : Notice} (h : s.arbiter.pending[n.key]? = none) :
    s.rendered n = s := by
  simp [rendered, h]

end Scene
end AlertHandoff
