import AlertHandoff.Roster

/-! # The roster as an index

Whatever events it follows, the roster tracks every notice under its own key, and the head of a
group is the key of a tracked summary of that group (`Roster.Indexed`): a notice that moves or takes
another role is dropped before it enters again.  So the summary and the children of a group are
tracked notices that name the group, and `summary_drop`, `summary_enter` and `summary_next` say how
the summaries change. -/

namespace AlertHandoff
namespace Roster
variable {r : Roster} {g : String} {n : Notice}

/-- Every head is the key of a tracked notice of its group. -/
def Headed (r : Roster) : Prop :=
  ∀ group key : String, r.heads[group]? = some key →
    ∃ n, r.entries[key]? = some n ∧ n.group = group

/-- A dropped notice is the head of no group any more; all other heads stay. -/
theorem Headed.getElem?_heads_drop (h : r.Headed) (key g : String) :
    (r.drop key).heads[g]? = r.heads[g]?.filter (· != key) := by
  unfold drop
  cases he : r.entries[key]? with
  | none =>
      cases hg : r.heads[g]? with
      | none => rfl
      | some k =>
          obtain ⟨n, hn, -⟩ := h g k hg
          have hne : k ≠ key := by
            rintro rfl
            rw [he] at hn
            cases hn
          rw [Option.filter_some, if_pos (by simpa using hne)]
  | some old =>
      cases hg : r.heads[g]? with
      | none =>
          dsimp only
          split <;> simp [Std.ExtTreeMap.getElem?_erase, hg]
      | some k =>
          obtain ⟨n, hn, hgr⟩ := h g k hg
          by_cases hk : k = key
          · subst hk
            rw [he] at hn
            cases hn
            simp [hgr, hg, Option.filter_some]
          · dsimp only
            split
            · next ho =>
              have hne : old.group ≠ g := by
                intro hog
                rw [hog, hg] at ho
                exact hk (Option.some.inj ho)
              simp [Std.ExtTreeMap.getElem?_erase, hne, hg, hk, Option.filter_some]
            · simp [hg, hk, Option.filter_some]

theorem getElem?_heads_enter (r : Roster) (n : Notice) (g : String) :
    (r.enter n).heads[g]? =
      if n.role = .summary ∧ n.group = g then some n.key else r.heads[g]? := by
  unfold enter
  cases n.role <;> simp [Std.ExtTreeMap.getElem?_insert]

/-- The roster tracks every notice under its own key, and every head is the key of a tracked summary
of its group. -/
structure Indexed (r : Roster) : Prop where
  entry : ∀ (key : String) n, r.entries[key]? = some n → n.key = key
  head : ∀ group key : String, r.heads[group]? = some key →
    ∃ n, r.entries[key]? = some n ∧ n.group = group ∧ n.role = .summary

theorem indexed_empty : ({} : Roster).Indexed where
  entry key n h := by simp at h
  head group key h := by simp at h

namespace Indexed

theorem headed (h : r.Indexed) : r.Headed := fun group key hk => by
  obtain ⟨n, hn, hg, -⟩ := h.head group key hk
  exact ⟨n, hn, hg⟩

/-! ### Answers -/

theorem summary (h : r.Indexed) (hs : r.summary g = some n) :
    r.entries[n.key]? = some n ∧ n.group = g ∧ n.role = .summary := by
  unfold Roster.summary at hs
  obtain ⟨key, hk, he⟩ := Option.bind_eq_some_iff.mp hs
  obtain ⟨m, hm, hg, hr⟩ := h.head g key hk
  rw [he] at hm
  cases hm
  obtain rfl := h.entry key n he
  exact ⟨he, hg, hr⟩

theorem mem_children (h : r.Indexed) :
    n ∈ r.children g ↔ r.entries[n.key]? = some n ∧ n.group = g ∧ n.role = .child := by
  rw [Roster.mem_children]
  refine and_congr_left fun _ => ?_
  constructor
  · rintro ⟨key, he⟩
    rwa [← h.entry key n he] at he
  · exact fun he => ⟨n.key, he⟩

theorem ordered_children (h : r.Indexed) (g : String) :
    (r.children g).Pairwise fun a b => compare a.key b.key = .lt := by
  have hitems : (Keyed.items r.entries).Pairwise fun a b => compare a.key b.key = .lt := by
    unfold Keyed.items
    rw [List.pairwise_map]
    refine Std.ExtTreeMap.ordered_keys_toList.imp_of_mem ?_
    rintro ⟨j, a⟩ ⟨k, b⟩ ha hb hlt
    rw [Std.ExtTreeMap.mem_toList_iff_getElem?_eq_some] at ha hb
    rwa [h.entry j a ha, h.entry k b hb]
  exact hitems.filter _

theorem nodup_children (h : r.Indexed) (g : String) : (r.children g).Nodup :=
  Keyed.nodup_of_ordered (·.key) (h.ordered_children g)

/-- What is tracked under one key is not a summary and a child at once. -/
theorem summary_key_ne (h : r.Indexed) {g' : String} {s : Notice} (hs : r.summary g = some s)
    (hn : n ∈ r.children g') : s.key ≠ n.key := by
  intro hk
  obtain ⟨hentry, -, hsummary⟩ := h.summary hs
  obtain ⟨hentry', -, hchild⟩ := h.mem_children.mp hn
  rw [hk, hentry'] at hentry
  cases hentry
  rw [hsummary] at hchild
  cases hchild

/-! ### The roster after an event -/

theorem drop (h : r.Indexed) (key : String) : (r.drop key).Indexed where
  entry k n hn := by
    rw [getElem?_entries_drop] at hn
    split at hn
    · cases hn
    · exact h.entry k n hn
  head g k hk := by
    rw [h.headed.getElem?_heads_drop key, Option.filter_eq_some_iff] at hk
    obtain ⟨n, hn, hm⟩ := h.head g k hk.1
    refine ⟨n, ?_, hm⟩
    rw [getElem?_entries_drop, if_neg (by simpa using hk.2), hn]

theorem summary_drop (h : r.Indexed) (key g : String) :
    (r.drop key).summary g = (r.summary g).filter (·.key != key) := by
  unfold Roster.summary
  rw [h.headed.getElem?_heads_drop key]
  cases hg : r.heads[g]? with
  | none => rfl
  | some k =>
      obtain ⟨n, hn, -⟩ := h.head g k hg
      have hk : n.key = k := h.entry k n hn
      by_cases hne : k = key
      · subst hne
        simp [hn, hk, Option.filter_some]
      · simp [hne, hn, hk, Option.filter_some, getElem?_entries_drop]

section enter
variable (h : r.Indexed) (hk : r.entries[n.key]? = none)
include h hk

theorem enter : (r.enter n).Indexed where
  entry k m hm := by
    rw [getElem?_entries_enter] at hm
    split at hm
    · next hkn =>
      cases hm
      exact hkn.symm
    · exact h.entry k m hm
  head g k hg := by
    rw [getElem?_heads_enter] at hg
    split at hg
    · next hrole =>
      cases hg
      exact ⟨n, by rw [getElem?_entries_enter, if_pos rfl], hrole.2, hrole.1⟩
    · obtain ⟨m, hm, hr⟩ := h.head g k hg
      have hne : k ≠ n.key := by
        rintro rfl
        rw [hk] at hm
        cases hm
      exact ⟨m, by rw [getElem?_entries_enter, if_neg hne, hm], hr⟩

/-- A summary that enters is the summary of its group; nothing else changes about summaries. -/
theorem summary_enter (g : String) :
    (r.enter n).summary g =
      if n.role = .summary ∧ g = n.group then some n else r.summary g := by
  unfold Roster.summary
  rw [getElem?_heads_enter]
  by_cases hr : n.role = .summary ∧ g = n.group
  · rw [if_pos hr, if_pos ⟨hr.1, hr.2.symm⟩]
    simp [getElem?_entries_enter]
  · rw [if_neg hr, if_neg fun hs => hr ⟨hs.1, hs.2.symm⟩]
    cases hg : r.heads[g]? with
    | none => rfl
    | some k =>
        obtain ⟨m, hm, -⟩ := h.head g k hg
        have hne : k ≠ n.key := by
          rintro rfl
          rw [hk] at hm
          cases hm
        simp [getElem?_entries_enter, hne]

end enter

theorem next (h : r.Indexed) (e : Event) : (r.next e).Indexed := by
  have henter : ∀ n : Notice, ((r.drop n.key).enter n).Indexed := by
    intro n
    refine (h.drop n.key).enter ?_
    rw [getElem?_entries_drop, if_pos rfl]
  cases e with
  | added n | updated n previous => exact henter n
  | removed n => exact h.drop n.key
  | announced n | rendered n => exact h

theorem summary_next (h : r.Indexed) (e : Event) (g : String) :
    (r.next e).summary g =
      match e with
      | .added n | .updated n _ =>
        if n.role = .summary ∧ g = n.group then some n
        else (r.summary g).filter (·.key != n.key)
      | .removed n => (r.summary g).filter (·.key != n.key)
      | .announced _ | .rendered _ => r.summary g := by
  have henter : ∀ n : Notice, ((r.drop n.key).enter n).summary g =
      if n.role = .summary ∧ g = n.group then some n
      else (r.summary g).filter (·.key != n.key) := by
    intro n
    rw [(h.drop n.key).summary_enter, h.summary_drop]
    rw [getElem?_entries_drop, if_pos rfl]
  cases e with
  | added n | updated n previous => exact henter n
  | removed n => exact h.summary_drop n.key g
  | announced n | rendered n => rfl

end Indexed
end Roster
end AlertHandoff
