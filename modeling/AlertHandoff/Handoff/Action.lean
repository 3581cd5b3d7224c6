import AlertHandoff.Notice

/-! # The journal of handoffs

Every step in the life of a handoff is written into a journal as an `Action`: an alert moved at
once, or its move was put off until the destination's content is ready, and what became of a
move that was put off. -/

namespace AlertHandoff

/-- Why a move that was put off was given up. -/
inductive Cause where
  | removed
  | regrouped
  | quiet
  | reclaimed
deriving DecidableEq, Repr

/-- A step of a handoff.

* `moved`: the alert went from `source` to `target` right away.
* `deferred`: `source` was released, `target` waits for its content.
* `completed`: a move that was put off was carried out.
* `scheduled`: a move was taken back, and the alert of the summary waits for the group to grow.
* `reversed`: the content arrived for a move that had been taken back.
* `voided`: a move that was put off was given up. -/
inductive Action where
  | moved (source target : String) (kind : Kind)
  | deferred (source target : String) (kind : Kind)
  | completed (key : String) (kind : Kind)
  | scheduled (group : String) (kind : Kind)
  | reversed (key : String)
  | voided (key : String) (cause : Cause)
deriving DecidableEq, Repr

end AlertHandoff
