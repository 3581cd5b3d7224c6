import AlertHandoff.Keyed
import AlertHandoff.Notice

/-! # Deferrals

A deferral is a move of an alert that waits for the content of its destination.  It remembers
where the alert came from, its kind, and the membership the destination had when the move was
decided.  A deferral that was taken back stays on record, marked as reversed, so that the content
prepared for it can be taken down when it arrives; one that was not is *live*.

`Deferrals` keeps at most one deferral for each destination.  `dropNaming` gives up all that
name a key as source or destination, `dropLive` all that are live; both return the
destinations they gave up, in increasing order. -/

namespace AlertHandoff

/-- A move that waits for the content of its destination. -/
structure Deferral where
  source : String
  kind : Kind
  membership : Membership
  isReversed : Bool := false
deriving DecidableEq, Repr

namespace Deferral

def fresh (target : Notice) (source : String) (kind : Kind) : Deferral :=
  { source, kind, membership := target.membership }

/-- The move has not been taken back. -/
def isLive (d : Deferral) : Bool := !d.isReversed

/-- The move is live, and the notice still has the membership it had when the move was
decided. -/
def fits (d : Deferral) (n : Notice) : Bool := d.isLive && d.membership.describes n

end Deferral

/-- The deferrals by destination. -/
abbrev Deferrals := Keyed Deferral

namespace Deferrals

/-- A live deferral waits for the key. -/
def awaits (ds : Deferrals) (key : String) : Bool := ds[key]?.any (·.isLive)

/-- Marks the deferral of a key as taken back, or as live again. -/
def mark (ds : Deferrals) (key : String) (isReversed : Bool) : Deferrals :=
  ds.modify key fun d => { d with isReversed }

/-- Gives up every deferral that names the key as its source or destination. -/
def dropNaming (ds : Deferrals) (key : String) : List String × Deferrals :=
  Keyed.extract ds fun target d => target == key || d.source == key

/-- Gives up every live deferral. -/
def dropLive (ds : Deferrals) : List String × Deferrals :=
  Keyed.extract ds fun _ d => d.isLive

theorem mem_dropNaming {ds : Deferrals} {key target : String} :
    target ∈ (dropNaming ds key).1 ↔
      ∃ d, ds[target]? = some d ∧ (target = key ∨ d.source = key) := by
  simp [dropNaming, Keyed.mem_extract_fst]

theorem mem_dropLive {ds : Deferrals} {target : String} :
    target ∈ (dropLive ds).1 ↔ ∃ d, ds[target]? = some d ∧ d.isLive = true := by
  simp [dropLive, Keyed.mem_extract_fst]

end Deferrals

end AlertHandoff
