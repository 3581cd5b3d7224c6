import AlertHandoff.Proofs.Index
import AlertHandoff.Proofs.Within

/-! # What one event does to the answers of the roster

An event may enter a notice (`Event.entering?`), and by this or otherwise it may take out what was
tracked under a key (`Event.entryKey?`).  All other notices stay where they are, so that every
answer after an event is one that the event gives, or the one from before if the event does not
concern it: `entries_next_iff`, `mem_children_next_iff` and `summary_next_iff`.  A group that is not
touched stays as it was (`Indexed.standing_next`).

`formed_cases` and `mem_changes_iff` list the group events that an event brings about, each with what
it says of the rosters before and after. -/

namespace AlertHandoff

namespace Event

def entering? : Event → Option Notice
  | .added n | .updated n _ => some n
  | .announced _ | .removed _ | .rendered _ => none

/-- The key that the event enters into the roster or takes out of it. -/
def entryKey? : Event → Option String
  | .added n | .updated n _ | .removed n => some n.key
  | .announced _ | .rendered _ => none

/-- The event enters a summary of the group. -/
def Crowns (e : Event) (group : String) : Prop :=
  ∃ n, e.entering? = some n ∧ n.role = .summary ∧ n.group = group

theorem entryKey?_of_entering {e : Event} {n : Notice} (h : e.entering? = some n) :
    e.entryKey? = some n.key := by
  cases e <;> cases h <;> rfl

end Event

/-! ### What one event does to the answers -/

namespace Roster
variable {r r' before after : Roster} {e : Event} {g key : String} {n : Notice}

/-- A notice is tracked under a key after an event if the event enters it, or if it was before and
the event does not concern the key. -/
theorem entries_next_iff : (r.next e).entries[key]? = some n ↔
    (e.entering? = some n ∧ n.key = key) ∨
      (e.entryKey? ≠ some key ∧ r.entries[key]? = some n) := by
  rw [getElem?_entries_next]
  cases e with
  | announced m | rendered m => simp [Event.entering?, Event.entryKey?]
  | removed m =>
      by_cases hk : key = m.key
      · simp [Event.entering?, Event.entryKey?, hk]
      · simp [Event.entering?, Event.entryKey?, hk, Ne.symm hk]
  | added m | updated m previous =>
      by_cases hk : key = m.key
      · subst hk
        have hiff : m = n ↔ m = n ∧ n.key = m.key :=
          ⟨fun h => ⟨h, h ▸ rfl⟩, And.left⟩
        simpa [Event.entering?, Event.entryKey?] using hiff
      · have hno : ¬(m = n ∧ n.key = key) := fun h => hk (h.1 ▸ h.2.symm)
        simp [Event.entering?, Event.entryKey?, hk, Ne.symm hk, hno]

namespace Indexed
variable (h : r.Indexed)
include h

theorem mem_children_next_iff : n ∈ (r.next e).children g ↔
    (e.entering? = some n ∧ n.group = g ∧ n.role = .child) ∨
      (e.entryKey? ≠ some n.key ∧ n ∈ r.children g) := by
  rw [(h.next e).mem_children, h.mem_children, entries_next_iff]
  constructor
  · rintro ⟨⟨he, -⟩ | ⟨he, hn⟩, hplace⟩
    · exact .inl ⟨he, hplace⟩
    · exact .inr ⟨he, hn, hplace⟩
  · rintro (⟨he, hplace⟩ | ⟨he, hn, hplace⟩)
    · exact ⟨.inl ⟨he, rfl⟩, hplace⟩
    · exact ⟨.inr ⟨he, hn⟩, hplace⟩

/-- The summary of a group after an event is one that the event enters, or the one from before if
the event neither concerns its key nor enters another summary of the group. -/
theorem summary_next_iff : (r.next e).summary g = some n ↔
    (e.entering? = some n ∧ n.role = .summary ∧ n.group = g) ∨
      (e.entryKey? ≠ some n.key ∧ ¬e.Crowns g ∧ r.summary g = some n) := by
  rw [h.summary_next]
  have hkeep : ∀ m : Notice, (r.summary g).filter (·.key != m.key) = some n ↔
      m.key ≠ n.key ∧ r.summary g = some n := by
    intro m
    rw [Option.filter_eq_some_iff, bne_iff_ne, and_comm, ne_comm]
  cases e with
  | announced m | rendered m => simp [Event.entering?, Event.entryKey?, Event.Crowns]
  | removed m =>
      refine (hkeep m).trans ?_
      simp [Event.entering?, Event.entryKey?, Event.Crowns]
  | added m | updated m previous =>
      simp only [Event.entering?, Event.entryKey?, Event.Crowns, Option.some.injEq, ne_eq,
        exists_eq_left']
      by_cases hm : m.role = .summary ∧ m.group = g
      · rw [if_pos ⟨hm.1, hm.2.symm⟩, Option.some.injEq]
        constructor
        · rintro rfl
          exact .inl ⟨rfl, hm⟩
        · rintro (⟨rfl, -⟩ | ⟨-, hno, -⟩)
          · rfl
          · exact absurd hm hno
      · rw [if_neg fun hg => hm ⟨hg.1, hg.2.symm⟩, hkeep m]
        constructor
        · rintro ⟨hk, hn⟩
          exact .inr ⟨hk, hm, hn⟩
        · rintro (⟨rfl, hn⟩ | ⟨hk, -, hn⟩)
          · exact absurd hn hm
          · exact ⟨hk, hn⟩

theorem children_eq (h' : r'.Indexed) {g' : String}
    (hm : ∀ n, n ∈ r.children g ↔ n ∈ r'.children g') : r.children g = r'.children g' :=
  Keyed.eq_of_ordered (·.key) (h.ordered_children g) (h'.ordered_children g') hm

theorem member (hn : Scene.Member r.grouping g n) : r.entries[n.key]? = some n ∧ n.group = g := by
  rcases hn with hn | hn
  · obtain ⟨he, hg, -⟩ := h.summary hn
    exact ⟨he, hg⟩
  · obtain ⟨he, hg, -⟩ := h.mem_children.mp hn
    exact ⟨he, hg⟩

theorem member_next_of_entering (he : e.entering? = some n) :
    Scene.Member (r.next e).grouping n.group n := by
  cases hr : n.role with
  | child => exact .inr (h.mem_children_next_iff.mpr (.inl ⟨he, rfl, hr⟩))
  | summary => exact .inl (h.summary_next_iff.mpr (.inl ⟨he, hr, rfl⟩))

/-- A notice that is a member after an event was one before, or it has entered. -/
theorem member_of_next (hn : Scene.Member (r.next e).grouping g n) :
    Scene.Member r.grouping g n ∨ e.entering? = some n := by
  rcases hn with hn | hn
  · rcases h.summary_next_iff.mp hn with ⟨he, -⟩ | ⟨-, -, hn⟩
    · exact .inr he
    · exact .inl (.inl hn)
  · rcases h.mem_children_next_iff.mp hn with ⟨he, -⟩ | ⟨-, hn⟩
    · exact .inr he
    · exact .inl (.inr hn)

end Indexed

/-! ### Groups -/

theorem hasGroup_iff : r.hasGroup g = true ↔ ∃ n, Scene.Member r.grouping g n := by
  rw [hasGroup, Bool.or_eq_true, Option.isSome_iff_exists, Bool.not_eq_true',
    List.isEmpty_eq_false_iff_exists_mem, ← exists_or]
  rfl

theorem Indexed.mem_groups (h : r.Indexed) : g ∈ r.groups ↔ r.hasGroup g = true := by
  rw [groups, List.mem_filter, Std.ExtTreeSet.mem_toList, Std.ExtTreeSet.mem_ofList]
  refine ⟨fun hg => hg.2, fun hg => ⟨?_, hg⟩⟩
  obtain ⟨n, hn⟩ := hasGroup_iff.mp hg
  obtain ⟨hentry, hgroup⟩ := h.member hn
  rw [List.contains_iff_mem, List.mem_map]
  exact ⟨n, Keyed.mem_items.mpr ⟨n.key, hentry⟩, hgroup⟩

theorem pairwise_groups (r : Roster) : r.groups.Pairwise (compare · · = .lt) :=
  Std.ExtTreeSet.ordered_toList.filter _

theorem empty_of_not_hasGroup (h : r.hasGroup g = false) :
    r.summary g = none ∧ r.children g = [] := by
  obtain ⟨hsummary, hchildren⟩ := Bool.or_eq_false_iff.mp h
  rw [Bool.not_eq_false', List.isEmpty_iff] at hchildren
  rw [Option.isSome_eq_false_iff, Option.isNone_iff_eq_none] at hsummary
  exact ⟨hsummary, hchildren⟩

theorem hasGroup_empty (g : String) : ({} : Roster).hasGroup g = false := by
  simp [hasGroup, summary, children, Keyed.items]

theorem suppressed_of_not_hasGroup (h : r.hasGroup g = false) : r.suppressed g = false := by
  rw [suppressed, (empty_of_not_hasGroup h).1]
  rfl

/-- The suppression of a group, if the group exists. -/
def standing (r : Roster) (group : String) : Option Bool :=
  if r.hasGroup group then some (r.suppressed group) else none

theorem standing_of_hasGroup (h : r.hasGroup g = true) : r.standing g = some (r.suppressed g) :=
  if_pos h

theorem standing_of_not_hasGroup (h : r.hasGroup g = false) : r.standing g = none :=
  if_neg (by simp [h])

@[simp] theorem isSome_standing (r : Roster) (g : String) :
    (r.standing g).isSome = r.hasGroup g := by
  unfold standing
  cases r.hasGroup g <;> rfl

@[simp] theorem getD_standing (r : Roster) (g : String) :
    (r.standing g).getD false = r.suppressed g := by
  cases hg : r.hasGroup g with
  | true => rw [standing_of_hasGroup hg, Option.getD_some]
  | false => rw [standing_of_not_hasGroup hg, suppressed_of_not_hasGroup hg, Option.getD_none]

theorem mem_touched_iff : g ∈ r.touched e ↔
    (∃ n, e.entering? = some n ∧ n.group = g) ∨
      ∃ key, e.entryKey? = some key ∧ r.groupOf key = some g := by
  cases e with
  | announced n | rendered n => simp [touched, Event.entering?, Event.entryKey?]
  | removed n => simp [touched, Event.entering?, Event.entryKey?]
  | added n | updated n previous =>
      by_cases hg : n.group = g
      · simp [touched, Event.entering?, Event.entryKey?, hg]
      · simp [touched, Event.entering?, Event.entryKey?, hg, Ne.symm hg]

theorem nodup_touched (r : Roster) (e : Event) : (r.touched e).Nodup := by
  cases e with
  | announced n | rendered n => exact List.Pairwise.nil
  | removed n => cases hg : r.groupOf n.key <;> simp [touched, hg]
  | added n | updated n previous =>
      cases hg : r.groupOf n.key with
      | none => simp [touched, hg]
      | some group => by_cases hne : group = n.group <;> simp [touched, hg, hne]

theorem Indexed.standing_next (h : r.Indexed) (hg : g ∉ r.touched e) :
    (r.next e).standing g = r.standing g := by
  rw [mem_touched_iff, not_or] at hg
  have hkey : ∀ n : Notice, r.entries[n.key]? = some n → n.group = g →
      e.entryKey? ≠ some n.key := by
    intro n hn hgroup hk
    exact hg.2 ⟨n.key, hk, by rw [groupOf, hn, Option.map_some, hgroup]⟩
  have hchildren : (r.next e).children g = r.children g := by
    refine (h.next e).children_eq h fun n => ?_
    rw [h.mem_children_next_iff]
    constructor
    · rintro (⟨he, hgroup, -⟩ | ⟨-, hn⟩)
      · exact absurd ⟨n, he, hgroup⟩ hg.1
      · exact hn
    · intro hn
      obtain ⟨hentry, hgroup, -⟩ := h.mem_children.mp hn
      exact .inr ⟨hkey n hentry hgroup, hn⟩
  have hsummary : (r.next e).summary g = r.summary g := by
    refine Option.ext fun n => ?_
    rw [h.summary_next_iff]
    constructor
    · rintro (⟨he, -, hgroup⟩ | ⟨-, -, hn⟩)
      · exact absurd ⟨n, he, hgroup⟩ hg.1
      · exact hn
    · intro hn
      obtain ⟨hentry, hgroup, -⟩ := h.summary hn
      refine .inr ⟨hkey n hentry hgroup, fun ⟨m, he, _, hm⟩ => hg.1 ⟨m, he, hm⟩, hn⟩
  unfold standing hasGroup suppressed
  rw [hchildren, hsummary]

/-- A group that ceases to exist is touched by the event. -/
theorem Indexed.mem_touched (h : r.Indexed) (hg : r.hasGroup g = true)
    (hgone : (r.next e).hasGroup g = false) : g ∈ r.touched e := by
  refine Decidable.byContradiction fun hmem => ?_
  have hsame := h.standing_next hmem
  rw [standing_of_hasGroup hg, standing_of_not_hasGroup hgone] at hsame
  cases hsame

/-! ### Group events -/

theorem formed_cases (r : Roster) (e : Event) :
    (r.formed e = [] ∧ ∀ n, e.entering? = some n → r.hasGroup n.group = true) ∨
      ∃ n, e.entering? = some n ∧ r.hasGroup n.group = false ∧
        r.formed e = [.formed n.group] := by
  cases e with
  | announced n | rendered n | removed n => exact .inl ⟨rfl, fun m he => by cases he⟩
  | added n | updated n previous =>
      cases hg : r.hasGroup n.group with
      | true => exact .inl ⟨by simp [formed, hg], fun m he => by cases he; exact hg⟩
      | false => exact .inr ⟨n, rfl, hg, by simp [formed, hg]⟩

theorem changes_of_not_hasGroup (hbefore : before.hasGroup g = false)
    (hafter : after.hasGroup g = false) : before.changes after g = [] := by
  simp [changes, suppressed_of_not_hasGroup hbefore, suppressed_of_not_hasGroup hafter, hbefore]

/-- The group events that say how one group differs. -/
theorem mem_changes_iff {x : GroupEvent} : x ∈ before.changes after g ↔
    (x = .suppression g (after.suppressed g) ∧ after.suppressed g ≠ before.suppressed g) ∨
      (x = .dissolved g ∧ before.hasGroup g = true ∧ after.hasGroup g = false) := by
  rw [changes, List.mem_append]
  refine or_congr ?_ ?_
  · split
    · next heq => simp [heq]
    · next hne => simp [hne]
  · split
    · next hgone => simpa using fun _ => hgone
    · next hstays =>
      simp only [List.not_mem_nil, false_iff]
      exact fun ⟨_, hbefore, hafter⟩ => hstays (by simp [hbefore, hafter])

end Roster
end AlertHandoff
