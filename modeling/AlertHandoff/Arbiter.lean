import AlertHandoff.Handoff.Action
import AlertHandoff.Handoff.Deferral
import AlertHandoff.Handoff.Window

/-! # The arbiter's books

The arbiter decides which member of a group holds the alert.  Its books hold the settings,
whether quiet mode is on, the deferrals, one record for every group, the notices that were
announced and not added yet, and the journal of what it did.

This module has what concerns the books alone: entering and leaving quiet mode, giving up
deferrals, and finding the children that are about to join a group.  Nothing here touches a
presenter or a row. -/

namespace AlertHandoff

/-- The books of the arbiter. -/
structure Arbiter where
  settings : Settings := {}
  quiet : Bool := false
  pending : Deferrals := ∅
  groups : Keyed GroupRecord := ∅
  announced : Keyed Notice := ∅
  journal : List Action := []
deriving DecidableEq

namespace Arbiter

def write (a : Arbiter) (actions : List Action) : Arbiter :=
  { a with journal := a.journal ++ actions }

/-- What is remembered of a group; nothing is remembered of one that has no record. -/
def record (a : Arbiter) (group : String) : GroupRecord := a.groups[group]?.getD {}

/-- Changes the record of a group, which is made if there is none. -/
def modifyRecord (a : Arbiter) (group : String) (f : GroupRecord → GroupRecord) : Arbiter :=
  { a with groups := a.groups.insert group (f (a.record group)) }

/-- Keeps the deferrals that are left and writes down why the others were given up. -/
def giveUp (a : Arbiter) (split : List String × Deferrals) (cause : Cause) : Arbiter :=
  { a with pending := split.2, journal := a.journal ++ split.1.map (.voided · cause) }

/-- Turns quiet mode on or off.  A change clears every group's record; while it is on no deferral
stays live. -/
def setQuiet (a : Arbiter) (on : Bool) : Arbiter :=
  let a := if a.quiet = on then a
    else { a with quiet := on, groups := a.groups.map fun _ _ => {} }
  if on then a.giveUp (Deferrals.dropLive a.pending) .quiet else a

/-- A notice was announced: its content is being drawn. -/
def announce (a : Arbiter) (n : Notice) : Arbiter :=
  { a with announced := a.announced.insert n.key n }

/-- A notice was added: it is no longer only announced. -/
def added (a : Arbiter) (n : Notice) : Arbiter :=
  { a with announced := a.announced.erase n.key }

/-- A notice was updated: if it is still only announced, its new value counts from now on. -/
def refresh (a : Arbiter) (n : Notice) : Arbiter :=
  { a with announced := a.announced.modify n.key fun _ => n }

/-- A notice was removed: it joins no group, and no move from or to it is left. -/
def remove (a : Arbiter) (n : Notice) : Arbiter :=
  (a.added n).giveUp (Deferrals.dropNaming a.pending n.key) .removed

/-- A notice has another group or role: what was decided for the old one is void. -/
def regroup (a : Arbiter) (n : Notice) : Arbiter :=
  a.giveUp (Deferrals.dropNaming a.pending n.key) .regrouped

/-- The announced children of a group that are not among its known children. -/
def joining (a : Arbiter) (group : String) (known : List Notice) : List Notice :=
  (Keyed.items a.announced).filter fun n =>
    n.role == .child && n.group == group && known.all (·.key != n.key)

@[simp] theorem journal_write (a : Arbiter) (actions : List Action) :
    (a.write actions).journal = a.journal ++ actions := rfl

theorem getElem?_groups_modifyRecord (a : Arbiter) (group : String)
    (f : GroupRecord → GroupRecord) (g : String) :
    (a.modifyRecord group f).groups[g]? =
      if g = group then some (f (a.record group)) else a.groups[g]? := by
  grind [modifyRecord]

@[simp] theorem quiet_setQuiet (a : Arbiter) (on : Bool) : (a.setQuiet on).quiet = on := by
  unfold setQuiet giveUp
  grind

/-- While quiet mode is on no deferral is live. -/
theorem not_isLive_of_setQuiet {a : Arbiter} {key : String} {d : Deferral}
    (h : (a.setQuiet true).pending[key]? = some d) : d.isLive = false := by
  simp only [setQuiet, giveUp, Deferrals.dropLive, if_true] at h
  rw [Keyed.getElem?_extract_snd, Option.filter_eq_some_iff] at h
  simpa using h.2

/-- Once a notice is removed no deferral leads to it or comes from it. -/
theorem getElem?_pending_remove (a : Arbiter) (n : Notice) (key : String) :
    (a.remove n).pending[key]? =
      a.pending[key]?.filter fun d => !(key == n.key || d.source == n.key) := by
  simp only [remove, giveUp, Deferrals.dropNaming, added, Keyed.getElem?_extract_snd]

theorem mem_joining {a : Arbiter} {group : String} {known : List Notice} {n : Notice} :
    n ∈ a.joining group known ↔
      (∃ key : String, a.announced[key]? = some n) ∧ n.role = .child ∧ n.group = group ∧
        ∀ k ∈ known, k.key ≠ n.key := by
  simp [joining, Keyed.mem_items, and_assoc]

end Arbiter

end AlertHandoff
