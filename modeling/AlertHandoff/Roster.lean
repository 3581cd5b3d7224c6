import AlertHandoff.Grouping
import AlertHandoff.Keyed

/-! # The roster

The roster follows the life of the notices and knows which of them are in which group.  It tracks
one notice for every key that was added or updated and not removed since, and for every group
the key of its summary.  All answers are read off these two maps: the children of a group are
the tracked children that name it, and a group is suppressed while it has a summary and exactly
one child.

A newer summary takes the place of an older one; the older one stays tracked, but does not
become the summary again by itself.  `Roster.track` returns the events of the groups that an
event of a notice touches. -/

namespace AlertHandoff

/-- The tracked notices by key, and for every group the key of its summary. -/
structure Roster where
  entries : Keyed Notice := ∅
  heads : Keyed String := ∅
deriving DecidableEq

namespace Roster

/-! ### Answers -/

def summary (r : Roster) (group : String) : Option Notice :=
  r.heads[group]?.bind fun key => r.entries[key]?

/-- The children of a group, in increasing order of their keys. -/
def children (r : Roster) (group : String) : List Notice :=
  (Keyed.items r.entries).filter fun n => n.group == group && n.role == .child

/-- A group is suppressed while it has a summary and exactly one child. -/
def suppressed (r : Roster) (group : String) : Bool :=
  (r.summary group).isSome && (r.children group).length == 1

/-- A group exists while it has a summary or a child. -/
def hasGroup (r : Roster) (group : String) : Bool :=
  (r.summary group).isSome || !(r.children group).isEmpty

/-- The groups that exist, in increasing order. -/
def groups (r : Roster) : List String :=
  (Std.ExtTreeSet.ofList ((Keyed.items r.entries).map (·.group)) compare).toList.filter r.hasGroup

def grouping (r : Roster) : Grouping := ⟨r.suppressed, r.summary, r.children⟩

theorem mem_children {r : Roster} {group : String} {n : Notice} :
    n ∈ r.children group ↔
      (∃ key : String, r.entries[key]? = some n) ∧ n.group = group ∧ n.role = .child := by
  simp [children, Keyed.mem_items]

/-- The children of a group have the role of a child. -/
theorem role_of_mem_children (r : Roster) (group : String) :
    ∀ n ∈ r.grouping.children group, n.role = .child :=
  fun _ hn => (mem_children.1 hn).2.2

theorem suppressed_iff {r : Roster} {group : String} :
    r.suppressed group = true ↔
      (∃ n, r.summary group = some n) ∧ (r.children group).length = 1 := by
  simp [suppressed, Option.isSome_iff_exists]

/-! ### Events -/

/-- The roster without the notice of a key. -/
def drop (r : Roster) (key : String) : Roster :=
  match r.entries[key]? with
  | none => r
  | some old =>
    { entries := r.entries.erase key
      heads := if r.heads[old.group]? = some key then r.heads.erase old.group else r.heads }

/-- The roster with a notice whose key it does not track. -/
def enter (r : Roster) (n : Notice) : Roster :=
  { entries := r.entries.insert n.key n
    heads := match n.role with
      | .summary => r.heads.insert n.group n.key
      | .child => r.heads }

def next (r : Roster) : Event → Roster
  | .added n | .updated n _ => (r.drop n.key).enter n
  | .removed n => r.drop n.key
  | .announced _ | .rendered _ => r

def groupOf (r : Roster) (key : String) : Option String := r.entries[key]?.map (·.group)

/-- The groups that an event touches, each once: first the one the notice leaves, then the one it
enters. -/
def touched (r : Roster) : Event → List String
  | .added n | .updated n _ =>
    ((r.groupOf n.key).toList.filter (· != n.group)) ++ [n.group]
  | .removed n => (r.groupOf n.key).toList
  | .announced _ | .rendered _ => []

/-- The group that an event brings into being. -/
def formed (r : Roster) : Event → List GroupEvent
  | .added n | .updated n _ => if r.hasGroup n.group then [] else [.formed n.group]
  | .removed _ | .announced _ | .rendered _ => []

/-- How a touched group differs between two rosters: its suppression, then whether it is gone. -/
def changes (before after : Roster) (group : String) : List GroupEvent :=
  (if after.suppressed group = before.suppressed group then []
    else [.suppression group (after.suppressed group)]) ++
  (if before.hasGroup group && !after.hasGroup group then [.dissolved group] else [])

/-- The group events that an event of a notice brings about, and the roster after it. -/
def track (r : Roster) (e : Event) : List GroupEvent × Roster :=
  (r.formed e ++ (r.touched e).flatMap (r.changes (r.next e)), r.next e)

@[simp] theorem track_snd (r : Roster) (e : Event) : (r.track e).2 = r.next e := rfl

theorem getElem?_entries_drop (r : Roster) (key k : String) :
    (r.drop key).entries[k]? = if k = key then none else r.entries[k]? := by
  unfold drop
  split <;> grind

theorem getElem?_entries_enter (r : Roster) (n : Notice) (k : String) :
    (r.enter n).entries[k]? = if k = n.key then some n else r.entries[k]? := by
  grind [enter]

/-- After an event the roster tracks the notice of the event under its key, or nothing if the
notice was removed, and all other keys as before. -/
theorem getElem?_entries_next (r : Roster) (e : Event) (k : String) :
    (r.next e).entries[k]? =
      match e with
      | .added n | .updated n _ => if k = n.key then some n else r.entries[k]?
      | .removed n => if k = n.key then none else r.entries[k]?
      | .announced _ | .rendered _ => r.entries[k]? := by
  cases e <;> simp only [next, getElem?_entries_enter, getElem?_entries_drop] <;> grind

end Roster

end AlertHandoff
