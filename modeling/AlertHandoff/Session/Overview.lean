import AlertHandoff.Session.Basic

/-! # Overviews

An overview shows the books of a session: whether quiet mode is on, the deferrals by destination,
and for every group with a record whether it was moved forward recently and what is scheduled
for its summary.  Everything is listed in increasing order. -/

namespace AlertHandoff

/-- What an overview shows of a group. -/
structure GroupOverview where
  group : String
  isRecent : Bool
  schedule : Option Schedule
deriving DecidableEq, Repr

/-- A view of the arbiter's books. -/
structure Overview where
  quiet : Bool
  pending : List (String × Deferral)
  groups : List GroupOverview
deriving DecidableEq, Repr

def GroupRecord.overview (group : String) (r : GroupRecord) : GroupOverview :=
  { group, isRecent := r.lastForward.isSome, schedule := r.schedule }

def Arbiter.overview (a : Arbiter) : Overview where
  quiet := a.quiet
  pending := a.pending.toList
  groups := a.groups.toList.map fun x => x.2.overview x.1

/-- An overview lists the groups that have a record, each once and in increasing order. -/
theorem Arbiter.map_group_overview (a : Arbiter) :
    a.overview.groups.map (·.group) = a.groups.keys := by
  rw [← Std.ExtTreeMap.map_fst_toList_eq_keys, overview, List.map_map]
  rfl

end AlertHandoff
