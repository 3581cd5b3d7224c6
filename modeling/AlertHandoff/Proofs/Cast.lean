import AlertHandoff.Proofs.Index

/-! # Notices that keep their place

A `Cast` says of every key to which group it belongs, in which role, and whether it may alert.
Where all notices come from one cast, the roster is easy to follow: an event touches the group of
its notice and no other (`summary_next_of_ne`, `suppressed_next_of_ne`), and an event that is not
about a child of a group leaves the children of the group (`mem_children_next_of`).  `track_cases`
says what an event brings about. -/

namespace AlertHandoff

/-- For every key its group and role, and whether it may alert. -/
structure Cast where
  place : String → Membership
  policy : String → Policy

namespace Cast

/-- The notice has the place and the policy that the cast gives to its key. -/
def Admits (c : Cast) (n : Notice) : Prop :=
  n.membership = c.place n.key ∧ n.policy = c.policy n.key

/-- The notice that the cast has for a key, drawn by the row of that name. -/
def notice (c : Cast) (key : String) : Notice where
  key := key
  group := (c.place key).group
  role := (c.place key).role
  policy := c.policy key
  row := key

instance (c : Cast) (n : Notice) : Decidable (c.Admits n) :=
  inferInstanceAs (Decidable (_ ∧ _))

/-- One group `g`, in which `s` is the summary and every other key a child, and only the summary
alerts. -/
def troupe : Cast where
  place key := ⟨"g", if key = "s" then .summary else .child⟩
  policy _ := { scope := .summary }

/-- The group `g` while `c` is the only child of `s`. -/
def duo : Grouping :=
  Grouping.empty.assign "g" true (some (troupe.notice "s")) [troupe.notice "c"]

/-- The roster tracks only notices of the cast, under their own keys, and every head is the key of
a tracked summary of its group. -/
structure Keeps (c : Cast) (r : Roster) : Prop where
  entry : ∀ (key : String) n, r.entries[key]? = some n → n.key = key ∧ c.Admits n
  head : ∀ (group key : String), r.heads[group]? = some key →
    ∃ n, r.entries[key]? = some n ∧ n.group = group ∧ n.role = .summary

variable {c : Cast} {r : Roster} {g : String} {n : Notice}

theorem membership_eq {n m : Notice} (hn : c.Admits n) (hm : c.Admits m) (h : n.key = m.key) :
    n.membership = m.membership := by
  rw [hn.1, hm.1, h]

theorem role_eq {n m : Notice} (hn : c.Admits n) (hm : c.Admits m) (h : n.key = m.key) :
    n.role = m.role :=
  congrArg Membership.role (membership_eq hn hm h)

theorem group_eq {n m : Notice} (hn : c.Admits n) (hm : c.Admits m) (h : n.key = m.key) :
    n.group = m.group :=
  congrArg Membership.group (membership_eq hn hm h)

theorem Keeps.indexed (h : c.Keeps r) : r.Indexed where
  entry key n hn := (h.entry key n hn).1
  head := h.head

theorem keeps_of_indexed (h : r.Indexed)
    (ha : ∀ (key : String) n, r.entries[key]? = some n → c.Admits n) : c.Keeps r where
  entry key n hn := ⟨h.entry key n hn, ha key n hn⟩
  head := h.head

theorem keeps_empty (c : Cast) : c.Keeps {} :=
  keeps_of_indexed Roster.indexed_empty fun key n h => by simp at h

namespace Keeps

/-! ### Answers -/

theorem summary (h : c.Keeps r) (hs : r.summary g = some n) :
    r.entries[n.key]? = some n ∧ c.Admits n ∧ n.group = g ∧ n.role = .summary := by
  obtain ⟨he, hg, hr⟩ := h.indexed.summary hs
  exact ⟨he, (h.entry n.key n he).2, hg, hr⟩

theorem mem_children (h : c.Keeps r) :
    n ∈ r.children g ↔ r.entries[n.key]? = some n ∧ n.group = g ∧ n.role = .child :=
  h.indexed.mem_children

theorem admits_of_mem_children (h : c.Keeps r) (hn : n ∈ r.children g) : c.Admits n :=
  (h.entry n.key n (h.mem_children.mp hn).1).2

theorem summary_key_ne {s : Notice} (h : c.Keeps r) (hs : r.summary g = some s) {g' : String}
    (hn : n ∈ r.children g') : s.key ≠ n.key :=
  h.indexed.summary_key_ne hs hn

/-- Two rosters with the same children of a group list them alike, up to their order. -/
theorem perm_children {r' : Roster} (h : c.Keeps r) (h' : c.Keeps r') {g' : String}
    (hm : ∀ n, n ∈ r.children g ↔ n ∈ r'.children g') : (r.children g).Perm (r'.children g') :=
  (List.perm_ext_iff_of_nodup (h.indexed.nodup_children g) (h'.indexed.nodup_children g')).mpr
    fun n => hm n

end Keeps

/-! ### The roster after an event -/

section next
variable {e : Event} (h : c.Keeps r) (he : c.Admits e.notice)

include h he in
theorem keeps_next : c.Keeps (r.next e) := by
  refine keeps_of_indexed (h.indexed.next e) fun key n hn => ?_
  rw [Roster.getElem?_entries_next] at hn
  cases e with
  | announced m | rendered m => exact (h.entry key n hn).2
  | removed m =>
      dsimp only at hn
      split at hn
      · cases hn
      · exact (h.entry key n hn).2
  | added m | updated m previous =>
      dsimp only at hn
      split at hn
      · cases hn
        exact he
      · exact (h.entry key n hn).2

include h in
theorem mem_children_next {m : Notice} : ∀ {e : Event}, c.Admits e.notice →
    (m ∈ (r.next e).children g ↔
      match e with
      | .added n | .updated n _ =>
        if m.key = n.key then m = n ∧ n.group = g ∧ n.role = .child else m ∈ r.children g
      | .removed n => m.key ≠ n.key ∧ m ∈ r.children g
      | .announced _ | .rendered _ => m ∈ r.children g) := by
  intro e he
  rw [(keeps_next h he).mem_children, Roster.getElem?_entries_next]
  cases e with
  | announced n | rendered n => exact h.mem_children.symm
  | removed n =>
      simp only [h.mem_children]
      split <;> simp_all
  | added n | updated n previous =>
      simp only [h.mem_children]
      split
      · refine ⟨fun ⟨hm, hr⟩ => ?_, fun ⟨hm, hr⟩ => ?_⟩
        · cases hm
          exact ⟨rfl, hr⟩
        · cases hm
          exact ⟨rfl, hr⟩
      · exact Iff.rfl

include h in
/-- A group keeps its summary at an event of a notice that neither is the summary nor becomes it. -/
theorem summary_next_of (hne : ∀ s, r.summary g = some s → s.key ≠ e.notice.key)
    (hr : ¬(e.notice.role = .summary ∧ g = e.notice.group)) :
    (r.next e).summary g = r.summary g := by
  have hf : (r.summary g).filter (·.key != e.notice.key) = r.summary g := by
    cases hs : r.summary g with
    | none => rfl
    | some s => rw [Option.filter_some, if_pos (by simpa using hne s hs)]
  rw [h.indexed.summary_next]
  cases e with
  | announced n | rendered n => rfl
  | removed n => exact hf
  | added n | updated n previous =>
      exact (if_neg hr).trans hf

include h he in
theorem summary_next_of_ne (hg : g ≠ e.notice.group) : (r.next e).summary g = r.summary g := by
  refine summary_next_of h ?_ fun hs => hg hs.2
  intro s hs hk
  have hgroup := group_eq (h.summary hs).2.1 he hk
  rw [(h.summary hs).2.2.1] at hgroup
  exact hg hgroup

include h he in
/-- No child of a group is affected by the event of a notice that is none of its children. -/
theorem mem_children_next_of (hne : e.notice.membership ≠ ⟨g, .child⟩) {m : Notice} :
    m ∈ (r.next e).children g ↔ m ∈ r.children g := by
  have hk : ∀ m ∈ r.children g, m.key ≠ e.notice.key := by
    intro m hm hk
    have := membership_eq (h.admits_of_mem_children hm) he hk
    rw [← this] at hne
    have hmc := (h.mem_children.mp hm).2
    exact hne (by simp [Notice.membership, hmc.1, hmc.2])
  rw [mem_children_next h he]
  cases e with
  | announced n | rendered n => exact Iff.rfl
  | removed n => exact ⟨fun hm => hm.2, fun hm => ⟨hk m hm, hm⟩⟩
  | added n | updated n previous =>
      dsimp only
      split
      · next heq =>
        refine ⟨fun hm => absurd ?_ hne, fun hm => absurd heq (hk m hm)⟩
        simp [Event.notice, Notice.membership, hm.2.1, hm.2.2]
      · exact Iff.rfl

include h he in
/-- An event that touches no group changes nothing; any other touches the group of its notice. -/
theorem touched_cases :
    r.touched e = [] ∧ r.formed e = [] ∧ r.next e = r ∨ r.touched e = [e.notice.group] := by
  have hgo : r.groupOf e.notice.key = none ∨ r.groupOf e.notice.key = some e.notice.group := by
    unfold Roster.groupOf
    cases hm : r.entries[e.notice.key]? with
    | none => exact .inl rfl
    | some m =>
        obtain ⟨hk, ha⟩ := h.entry _ m hm
        exact .inr (congrArg some (group_eq ha he hk))
  cases e with
  | announced n | rendered n => exact .inl ⟨rfl, rfl, rfl⟩
  | removed n =>
      rcases hgo with hgo | hgo
      · refine .inl ⟨?_, rfl, ?_⟩
        · simp only [Event.notice] at hgo
          simp [Roster.touched, hgo]
        · have hm : r.entries[n.key]? = none := Option.map_eq_none_iff.mp hgo
          simp [Roster.next, Roster.drop, hm]
      · simp only [Event.notice] at hgo
        exact .inr (by simp [Roster.touched, hgo, Event.notice])
  | added n | updated n previous =>
      refine .inr ?_
      simp only [Event.notice] at hgo
      rcases hgo with hgo | hgo <;> simp [Roster.touched, hgo, Event.notice]

/-- The event by which the suppression of a group is reported to differ between two rosters. -/
def shift (before after : Roster) (group : String) : List GroupEvent :=
  if after.suppressed group = before.suppressed group then []
  else [.suppression group (after.suppressed group)]

include h he in
/-- What an event brings about: its group may come into being, then its suppression may change, and
then it may cease to exist. -/
theorem track_cases :
    ∃ formed dissolved, (r.track e).1 = formed ++ shift r (r.next e) e.notice.group ++ dissolved ∧
      (∀ x ∈ formed, x = .formed e.notice.group) ∧
      ∀ x ∈ dissolved, x = .dissolved e.notice.group := by
  rcases touched_cases h he with ⟨ht, hf, hn⟩ | ht
  · refine ⟨[], [], ?_, by simp, by simp⟩
    simp [Roster.track, ht, hf, shift, hn]
  · refine ⟨r.formed e,
      if r.hasGroup e.notice.group && !(r.next e).hasGroup e.notice.group then
        [.dissolved e.notice.group] else [], ?_, ?_, ?_⟩
    · simp [Roster.track, ht, Roster.changes, shift]
    · intro x hx
      cases e with
      | announced n | rendered n | removed n => cases hx
      | added n | updated n previous =>
          simp only [Roster.formed] at hx
          split at hx
          · cases hx
          · exact List.mem_singleton.mp hx
    · intro x hx
      split at hx
      · exact List.mem_singleton.mp hx
      · cases hx

include h he in
theorem group_of_mem_track {x : GroupEvent} (hx : x ∈ (r.track e).1) :
    x.group = e.notice.group := by
  obtain ⟨formed, dissolved, ht, hf, hd⟩ := track_cases h he
  rw [ht] at hx
  rcases List.mem_append.mp hx with hx | hx
  · rcases List.mem_append.mp hx with hx | hx
    · rw [hf x hx]
      rfl
    · unfold shift at hx
      split at hx
      · cases hx
      · rw [List.mem_singleton.mp hx]
        rfl
  · rw [hd x hx]
    rfl

include h he in
theorem suppressed_next_of_ne (hg : g ≠ e.notice.group) :
    (r.next e).suppressed g = r.suppressed g := by
  have hp : ((r.next e).children g).Perm (r.children g) := by
    refine (keeps_next h he).perm_children h fun n => mem_children_next_of h he ?_
    intro hm
    exact hg (congrArg Membership.group hm).symm
  unfold Roster.suppressed
  rw [summary_next_of_ne h he hg, hp.length_eq]

end next

end Cast
end AlertHandoff
