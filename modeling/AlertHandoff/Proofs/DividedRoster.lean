import AlertHandoff.Proofs.Division
import AlertHandoff.Proofs.Index

/-! # Rosters of divided notices

Where all notices keep to a division, what the roster knows of a group depends on the notices of the
group alone: rosters that agree about the keys and the head of a group give the same answers for it
(`Roster.Agree.grouping`), an event of a notice of another group changes neither
(`Roster.agree_next`), and an event of a notice of the group brings about the same events of the
group, and of no other (`Roster.Agree.track`, `Roster.Divided.group_of_mem_track`). -/

namespace AlertHandoff
namespace Roster

/-- The roster tracks notices of the division, under their own keys, and every head is the key of a
tracked notice of its group. -/
structure Divided (d : Division) (r : Roster) : Prop where
  entry : ∀ (key : String) n, r.entries[key]? = some n → n.key = key ∧ d.Admits n
  headed : r.Headed

/-- The rosters track the same notices of the group, and the same key is its head. -/
structure Agree (d : Division) (g : String) (r r' : Roster) : Prop where
  entries : ∀ key : String, d.ofKey key = g → r.entries[key]? = r'.entries[key]?
  heads : r.heads[g]? = r'.heads[g]?

variable {d : Division} {g : String} {r r' r'' : Roster} {n : Notice}

theorem Agree.refl (d : Division) (g : String) (r : Roster) : r.Agree d g r := ⟨fun _ _ => rfl, rfl⟩

theorem Agree.symm (h : r.Agree d g r') : r'.Agree d g r :=
  ⟨fun key hk => (h.entries key hk).symm, h.heads.symm⟩

theorem Agree.trans (h : r.Agree d g r') (h' : r'.Agree d g r'') : r.Agree d g r'' :=
  ⟨fun key hk => (h.entries key hk).trans (h'.entries key hk), h.heads.trans h'.heads⟩

theorem divided_empty (d : Division) : ({} : Roster).Divided d where
  entry key n h := by simp at h
  headed group key h := by simp at h

/-! ### Answers -/

theorem Divided.belongs_of_group (h : r.Divided d) {key : String} (hn : r.entries[key]? = some n)
    (hg : n.group = g) : d.Belongs g n ∧ d.ofKey key = g := by
  obtain ⟨rfl, ha⟩ := h.entry key n hn
  subst hg
  exact ⟨ha, ha.key⟩

/-- The members of every group belong to it. -/
theorem Divided.grouping (h : r.Divided d) : r.grouping.Divided d := by
  rintro g n (hs | hc)
  · obtain ⟨key, hk, hn⟩ := Option.bind_eq_some_iff.mp hs
    obtain ⟨m, hm, hg⟩ := h.headed g key hk
    rw [hn] at hm
    cases hm
    exact (h.belongs_of_group hn hg).1
  · obtain ⟨⟨key, hn⟩, hg, -⟩ := mem_children.mp hc
    exact (h.belongs_of_group hn hg).1

theorem Agree.summary (h : r.Agree d g r') (hr : r.Divided d) : r.summary g = r'.summary g := by
  unfold Roster.summary
  rw [← h.heads]
  cases hk : r.heads[g]? with
  | none => rfl
  | some key =>
      obtain ⟨n, hn, hg⟩ := hr.headed g key hk
      exact h.entries key (hr.belongs_of_group hn hg).2

theorem Agree.children (h : r.Agree d g r') (hr : r.Divided d) (hr' : r'.Divided d) :
    r.children g = r'.children g := by
  apply Keyed.filter_items_congr
  intro key n hn
  simp only [Bool.and_eq_true, beq_iff_eq] at hn
  constructor
  · intro hk
    rwa [← h.entries key (hr.belongs_of_group hk hn.1).2]
  · intro hk
    rwa [h.entries key (hr'.belongs_of_group hk hn.1).2]

theorem Agree.suppressed (h : r.Agree d g r') (hr : r.Divided d) (hr' : r'.Divided d) :
    r.suppressed g = r'.suppressed g := by
  unfold Roster.suppressed
  rw [h.summary hr, h.children hr hr']

theorem Agree.hasGroup (h : r.Agree d g r') (hr : r.Divided d) (hr' : r'.Divided d) :
    r.hasGroup g = r'.hasGroup g := by
  unfold Roster.hasGroup
  rw [h.summary hr, h.children hr hr']

theorem Agree.grouping (h : r.Agree d g r') (hr : r.Divided d) (hr' : r'.Divided d) :
    r.grouping.Agree g r'.grouping :=
  ⟨h.suppressed hr hr', h.summary hr, h.children hr hr'⟩

/-! ### The roster after an event -/

theorem Divided.drop (h : r.Divided d) (key : String) : (r.drop key).Divided d where
  entry k m hm := by
    rw [getElem?_entries_drop] at hm
    split at hm
    · cases hm
    · exact h.entry k m hm
  headed group k hk := by
    rw [h.headed.getElem?_heads_drop, Option.filter_eq_some_iff] at hk
    obtain ⟨m, hm, hg⟩ := h.headed group k hk.1
    have hne : k ≠ key := by simpa using hk.2
    exact ⟨m, by rw [getElem?_entries_drop, if_neg hne, hm], hg⟩

theorem Divided.enter (h : r.Divided d) (hn : d.Admits n) : (r.enter n).Divided d where
  entry k m hm := by
    rw [getElem?_entries_enter] at hm
    split at hm
    · next hk =>
      cases hm
      exact ⟨hk.symm, hn⟩
    · exact h.entry k m hm
  headed group k hk := by
    rw [getElem?_heads_enter] at hk
    split at hk
    · next hg =>
      cases hk
      exact ⟨n, by rw [getElem?_entries_enter, if_pos rfl], hg.2⟩
    · obtain ⟨m, hm, hg⟩ := h.headed group k hk
      -- Even if the notice takes the place of the head, it is in the same group.
      by_cases hkn : k = n.key
      · refine ⟨n, by rw [getElem?_entries_enter, if_pos hkn], ?_⟩
        rw [← hn.key, ← hkn]
        exact (h.belongs_of_group hm hg).2
      · exact ⟨m, by rw [getElem?_entries_enter, if_neg hkn, hm], hg⟩

theorem Divided.next (h : r.Divided d) {e : Event} (he : d.Admits e.notice) :
    (r.next e).Divided d := by
  cases e with
  | added n | updated n previous => exact (h.drop n.key).enter he
  | removed n => exact h.drop n.key
  | announced n | rendered n => exact h

theorem Agree.drop (h : r.Agree d g r') (hr : r.Divided d) (hr' : r'.Divided d) (key : String) :
    (r.drop key).Agree d g (r'.drop key) where
  entries k hk := by rw [getElem?_entries_drop, getElem?_entries_drop, h.entries k hk]
  heads := by
    rw [hr.headed.getElem?_heads_drop, hr'.headed.getElem?_heads_drop, h.heads]

theorem Agree.enter (h : r.Agree d g r') (n : Notice) : (r.enter n).Agree d g (r'.enter n) where
  entries k hk := by rw [getElem?_entries_enter, getElem?_entries_enter, h.entries k hk]
  heads := by rw [getElem?_heads_enter, getElem?_heads_enter, h.heads]

theorem Agree.next (h : r.Agree d g r') (hr : r.Divided d) (hr' : r'.Divided d) (e : Event) :
    (r.next e).Agree d g (r'.next e) := by
  cases e with
  | added n | updated n previous => exact (h.drop hr hr' n.key).enter n
  | removed n => exact h.drop hr hr' n.key
  | announced n | rendered n => exact h

theorem agree_drop (hr : r.Divided d) {key : String} (hne : d.ofKey key ≠ g) :
    r.Agree d g (r.drop key) where
  entries k hk := by
    rw [getElem?_entries_drop, if_neg]
    rintro rfl
    exact hne hk
  heads := by
    rw [hr.headed.getElem?_heads_drop]
    cases hk : r.heads[g]? with
    | none => rfl
    | some k =>
        obtain ⟨n, hn, hg⟩ := hr.headed g k hk
        have hkey : k ≠ key := by
          rintro rfl
          exact hne (hr.belongs_of_group hn hg).2
        simp [Option.filter, hkey]

theorem agree_enter (r : Roster) (hn : d.Admits n) (hne : d.ofKey n.key ≠ g) :
    r.Agree d g (r.enter n) where
  entries k hk := by
    rw [getElem?_entries_enter, if_neg]
    rintro rfl
    exact hne hk
  heads := by
    rw [getElem?_heads_enter, if_neg]
    rintro ⟨-, hg⟩
    exact hne (hn.key.trans hg)

/-- The event of a notice of another group changes nothing about the group. -/
theorem agree_next (hr : r.Divided d) {e : Event} (he : d.Admits e.notice)
    (hne : d.ofKey e.notice.key ≠ g) : r.Agree d g (r.next e) := by
  cases e with
  | added n | updated n previous =>
      exact (agree_drop hr hne).trans (agree_enter _ he hne)
  | removed n => exact agree_drop hr hne
  | announced n | rendered n => exact .refl d g r

/-! ### Events of groups -/

/-- The event of a notice touches at most its own group. -/
theorem Divided.group_of_mem_touched (h : r.Divided d) {e : Event} (he : d.Belongs g e.notice)
    {x : String} (hx : x ∈ r.touched e) : x = g := by
  have hold : ∀ key, d.ofKey key = g → x ∈ (r.groupOf key).toList → x = g := by
    intro key hk hx
    simp only [groupOf, Option.mem_toList, Option.map_eq_some_iff] at hx
    obtain ⟨m, hm, rfl⟩ := hx
    obtain ⟨rfl, ha⟩ := h.entry key m hm
    exact ha.key.symm.trans hk
  cases e with
  | added n | updated n previous =>
      simp only [touched, List.mem_append, List.mem_filter, List.mem_singleton] at hx
      rcases hx with hx | rfl
      · exact hold n.key he.key hx.1
      · exact he.group
  | removed n => exact hold n.key he.key hx
  | announced n | rendered n => cases hx

/-- The event of a notice brings about events of its group only. -/
theorem Divided.group_of_mem_track (h : r.Divided d) {e : Event} (he : d.Belongs g e.notice)
    {x : GroupEvent} (hx : x ∈ (r.track e).1) : x.group = g := by
  rcases List.mem_append.mp hx with hx | hx
  · have hformed : ∀ n : Notice, n.group = g →
        x ∈ (if r.hasGroup n.group then [] else [GroupEvent.formed n.group]) → x.group = g := by
      intro n hn hx
      split at hx
      · cases hx
      · rw [List.mem_singleton.mp hx]
        exact hn
    cases e with
    | added n | updated n previous => exact hformed n he.group hx
    | removed n | announced n | rendered n => cases hx
  · obtain ⟨group, ht, hc⟩ := List.mem_flatMap.mp hx
    obtain rfl := h.group_of_mem_touched he ht
    unfold changes at hc
    rcases List.mem_append.mp hc with hc | hc <;> split at hc
    · cases hc
    · rw [List.mem_singleton.mp hc]
      rfl
    · rw [List.mem_singleton.mp hc]
      rfl
    · cases hc

/-- The event of a notice brings about the same in rosters that agree about its group. -/
theorem Agree.track (h : r.Agree d g r') (hr : r.Divided d) (hr' : r'.Divided d) {e : Event}
    (he : d.Belongs g e.notice) : (r.track e).1 = (r'.track e).1 := by
  have hn := h.next hr hr' e
  have hrn := hr.next he.admits
  have hrn' := hr'.next he.admits
  have hformed : r.formed e = r'.formed e := by
    cases e with
    | added n | updated n previous =>
        simp only [formed]
        rw [show n.group = g from he.group, h.hasGroup hr hr']
    | removed n | announced n | rendered n => rfl
  have htouched : r.touched e = r'.touched e := by
    have hof : r.groupOf e.notice.key = r'.groupOf e.notice.key := by
      unfold groupOf
      rw [h.entries _ he.key]
    cases e with
    | added n | updated n previous | removed n =>
        simp only [touched, Event.notice] at hof ⊢
        rw [hof]
    | announced n | rendered n => rfl
  have hchanges : r.changes (r.next e) g = r'.changes (r'.next e) g := by
    unfold changes
    rw [h.suppressed hr hr', h.hasGroup hr hr', hn.suppressed hrn hrn', hn.hasGroup hrn hrn']
  have hflat : (r'.touched e).flatMap (r.changes (r.next e)) =
      (r'.touched e).flatMap (r'.changes (r'.next e)) := by
    rw [List.flatMap_def, List.flatMap_def]
    refine congrArg List.flatten (List.map_congr_left fun x hx => ?_)
    obtain rfl := hr'.group_of_mem_touched he hx
    exact hchanges
  unfold Roster.track
  dsimp only
  rw [hformed, htouched, hflat]

end Roster
end AlertHandoff
