import AlertHandoff.Proofs.Origin
import AlertHandoff.Session.Overview

/-! # The groups on record are those that exist

The roster tells with its group events which groups come into being and cease to exist, and the
arbiter keeps a record of every group in between.  But a record is also made where an alert is moved
on or taken back, and the events are handled one by one, with the roster as it is in the end.

`Scene.Enrols` says of two scenes that the same groups are on record but for some new ones, which
the grouping lists; all that the arbiter does is of this kind, apart from groups that are formed or
dissolved.  The group events cover every group that comes into being or ceases to exist
(`Roster.Indexed.covers`), so that the records are exact again when the last of them has been
handled (`Session.registers_replay`): `groups_on_record_exist`. -/

namespace AlertHandoff

/-- The group is suppressed or has a summary. -/
def Grouping.Lists (g : Grouping) (group : String) : Prop :=
  g.suppressed group = true ∨ ∃ n, g.summary group = some n

namespace Scene
variable {G : String → Prop} {s t u : Scene}

/-- The same groups are on record, but for some with the property that got a record. -/
def Enrols (G : String → Prop) (s t : Scene) : Prop :=
  ∀ group, (group ∈ t.arbiter.groups ↔ group ∈ s.arbiter.groups) ∨
    (group ∈ t.arbiter.groups ∧ G group)

theorem enrols_of_groups (h : t.arbiter.groups = s.arbiter.groups) : Enrols G s t :=
  fun _ => .inl (by rw [h])

theorem Enrols.refl (s : Scene) : Enrols G s s := enrols_of_groups rfl

theorem Enrols.trans (h : Enrols G s t) (h' : Enrols G t u) : Enrols G s u := by
  intro group
  rcases h' group with hsame | hnew
  · rw [hsame]
    exact h group
  · exact .inr hnew

theorem enrols_modifyRecord (s : Scene) {group : String} (h : G group)
    (f : GroupRecord → GroupRecord) : Enrols G s (s.modifyRecord group f) := by
  intro x
  simp only [modifyRecord, Arbiter.modifyRecord, Std.ExtTreeMap.mem_insert]
  by_cases hx : group = x
  · subst hx
    exact .inr ⟨.inl Std.ReflCmp.compare_self, h⟩
  · exact .inl (by simp [hx])

theorem groups_move (s : Scene) (n : Notice) (source : String) (kind : Kind) :
    (s.move n source kind).arbiter.groups = s.arbiter.groups := by
  rw [move, write, arbiter_deliver]
  rfl

/-! ### Operations -/

theorem enrols_forward (s : Scene) (g : Grouping) (now : Nat) (summary : Notice) (kind : Kind) :
    Enrols g.Lists s (s.forward g now summary kind) := by
  rcases s.forward_cases g now summary kind with ⟨he, -⟩ | ⟨child, -, hmay, he⟩
  · rw [he]
    exact Enrols.refl s
  · have hlisted : g.Lists summary.group := .inl (mayForward_iff.mp hmay).2.1
    have hmark : Enrols g.Lists s (s.markForward summary child kind now) := by
      unfold markForward
      split
      · exact s.enrols_modifyRecord hlisted _
      · exact Enrols.refl s
    rw [he]
    exact hmark.trans (enrols_of_groups (groups_move _ child summary.key kind))

theorem groups_takeAll (s : Scene) (children : List Notice) :
    (s.takeAll children).1.arbiter.groups = s.arbiter.groups :=
  takeAll_keeps (I := fun t _ => t.arbiter.groups = s.arbiter.groups)
    (fun _ _ _ _ _ _ h => h) (fun _ _ _ _ _ _ _ h => h) rfl

theorem enrols_handBack (s : Scene) (g : Grouping) (now : Nat) (group : String) :
    Enrols g.Lists s (s.handBack g now group) := by
  have htake : Enrols g.Lists s (s.takeAll (g.children group)).1 :=
    enrols_of_groups (s.groups_takeAll _)
  rcases s.handBack_cases g now group with ⟨he, -⟩ | ⟨summary, hs, -, ⟨-, he⟩ | ⟨taken, -, he⟩⟩
  · rw [he]
    exact Enrols.refl s
  · rw [he]
    exact htake
  · rw [he]
    refine htake.trans ?_
    generalize (s.takeAll (g.children group)).1 = t
    have hlisted : g.Lists group := .inr ⟨summary, hs⟩
    rcases t.restore_cases g group summary taken with ⟨-, he⟩ | ⟨-, -, he⟩ | ⟨-, -, he⟩
    · rw [he]
      exact Enrols.refl t
    · rw [he]
      exact (t.enrols_modifyRecord hlisted _).trans (enrols_of_groups (groups_move _ _ _ _))
    · rw [he]
      exact (t.enrols_modifyRecord hlisted
        fun _ => { lastForward := none, schedule := some taken }).trans (enrols_of_groups rfl)

theorem enrols_handleChange (s : Scene) (g : Grouping) (now : Nat) (kind : Kind) (c : Change) :
    Enrols g.Lists s (s.handleChange g now kind c) := by
  rcases s.handleChange_cases g now kind c with ⟨he, -⟩ | ⟨n, summary, -, -, -, he⟩
  · rw [he]
    exact Enrols.refl s
  · rw [he]
    exact s.enrols_forward g now summary kind

theorem enrols_quiesce (s : Scene) (g : Grouping) (now : Nat) :
    Enrols g.Lists s (s.quiesce g now) :=
  quiesce_keeps g now (I := fun _ t => Enrols g.Lists s t)
    (fun x _ t ht => ht.trans (t.enrols_handleChange g now x.1 x.2))
    (fun _ _ ht => ht.trans (enrols_of_groups rfl)) (fun _ ht => ht) (Enrols.refl s)

theorem enrols_unschedule (s : Scene) (group : String) : Enrols G s (s.unschedule group) :=
  fun x => .inl (by simp [unschedule, Std.ExtTreeMap.mem_modify])

theorem enrols_handleSuppression (s : Scene) (g : Grouping) (now : Nat) (group : String)
    (on : Bool) : Enrols g.Lists s (s.handleSuppression g now group on) := by
  rcases s.handleSuppression_cases g now group on with ⟨he, -⟩ | ⟨summary, -, h⟩
  · rw [he]
    exact Enrols.refl s
  · rcases h with ⟨-, kind, -, he⟩ | ⟨-, -, -, he⟩ | ⟨-, -, due, -, ⟨-, he⟩ | ⟨-, he⟩⟩
    · rw [he]
      exact s.enrols_forward g now summary kind
    · rw [he]
      exact s.enrols_handBack g now group
    · rw [he]
      exact s.enrols_unschedule group
    · rw [he]
      exact (s.enrols_unschedule group).trans (enrols_of_groups (groups_move _ _ _ _))

theorem groups_rendered (s : Scene) (n : Notice) :
    (s.rendered n).arbiter.groups = s.arbiter.groups := by
  rcases s.rendered_cases n with ⟨-, he⟩ | ⟨d, -, ⟨t, a, rfl | rfl, -, he⟩ | ⟨-, -, -, he⟩⟩
  · rw [he]
  · rw [he]
    rfl
  · rw [he, write, arbiter_release]
    rfl
  · rw [he, complete, write, arbiter_deliver]
    rfl

theorem enrols_handleEvent (s : Scene) (g : Grouping) (now : Nat) (e : Event) :
    Enrols g.Lists s (s.handleEvent g now e) := by
  cases e with
  | announced n =>
      have h : Enrols g.Lists s { s with arbiter := s.arbiter.announce n } := enrols_of_groups rfl
      simp only [handleEvent]
      split
      · exact h
      · exact h.trans (enrols_handBack _ g now n.group)
  | added n | removed n => exact enrols_of_groups rfl
  | updated n previous =>
      simp only [handleEvent]
      split <;> exact enrols_of_groups rfl
  | rendered n => exact enrols_of_groups (s.groups_rendered n)

end Scene

/-! ### What the events of a roster tell -/

/-- The group event says of its group whether it exists, and in the roster it is so. -/
def Roster.Confirms (r : Roster) : GroupEvent → Prop
  | .formed group => r.hasGroup group = true
  | .dissolved group => r.hasGroup group = false
  | .suppression .. => True

/-- The group event says of the group that it came into being or ceased to exist. -/
def GroupEvent.Settles (e : GroupEvent) (group : String) : Prop :=
  e = .formed group ∨ e = .dissolved group

namespace Roster
variable {r : Roster} {group : String} {e : Event} {n : Notice}

theorem hasGroup_of_lists (h : r.grouping.Lists group) : r.hasGroup group = true := by
  have hs : ∃ n, r.summary group = some n := by
    rcases h with h | h
    · exact (suppressed_iff.mp h).1
    · exact h
  obtain ⟨n, hn⟩ := hs
  exact hasGroup_iff.mpr ⟨n, .inl hn⟩

namespace Indexed
variable (h : r.Indexed)
include h

/-- **What the events of a roster cover**: a group that exists before an event and not after it, or
the other way round, is one of which the group events say so. -/
theorem covers (e : Event) (group : String) :
    (r.next e).hasGroup group = r.hasGroup group ∨ ∃ x ∈ (r.track e).1, x.Settles group := by
  cases hbefore : r.hasGroup group <;> cases hafter : (r.next e).hasGroup group
  · exact .inl rfl
  · obtain ⟨n, hn⟩ := hasGroup_iff.mp hafter
    have hgroup := ((h.next e).member hn).2
    refine .inr ⟨.formed group, List.mem_append_left _ ?_, .inl rfl⟩
    rcases h.member_of_next hn with hn | he
    · rw [hasGroup_iff.mpr ⟨n, hn⟩] at hbefore
      cases hbefore
    · subst hgroup
      cases e <;> cases he <;> simp [formed, hbefore]
  · refine .inr ⟨.dissolved group, List.mem_append_right _ ?_, .inr rfl⟩
    rw [List.mem_flatMap]
    exact ⟨group, h.mem_touched hbefore hafter, by simp [changes, hbefore, hafter]⟩
  · exact .inl rfl

/-- What the group events say of the existence of a group is so in the roster after the event. -/
theorem confirms {x : GroupEvent} (hx : x ∈ (r.track e).1) : (r.next e).Confirms x := by
  rcases List.mem_append.mp hx with hx | hx
  · rcases r.formed_cases e with ⟨hes, -⟩ | ⟨n, he, -, hes⟩
    · rw [hes] at hx
      cases hx
    · rw [hes] at hx
      obtain rfl := List.mem_singleton.mp hx
      exact hasGroup_iff.mpr ⟨n, h.member_next_of_entering he⟩
  · obtain ⟨group, -, hx⟩ := List.mem_flatMap.mp hx
    rcases mem_changes_iff.mp hx with ⟨rfl, -⟩ | ⟨rfl, -, hgone⟩
    · trivial
    · exact hgone

end Indexed
end Roster

/-! ### Keeping the records exact -/

namespace Scene
variable {r : Roster} {s t : Scene} {group : String}

/-- The group is on record if it exists, and only then. -/
def Registers (s : Scene) (r : Roster) (group : String) : Prop :=
  group ∈ s.arbiter.groups ↔ r.hasGroup group = true

/-- Where only groups that are listed get a record, what is known of a group stays known. -/
theorem Registers.enrols (h : s.Registers r group) (he : Enrols r.grouping.Lists s t) :
    t.Registers r group := by
  rcases he group with hsame | ⟨hmem, hlists⟩
  · exact hsame.trans h
  · exact iff_of_true hmem (Roster.hasGroup_of_lists hlists)

theorem registers_handleGroup (now : Nat) {e : GroupEvent} (he : r.Confirms e)
    (h : s.Registers r group ∨ e.Settles group) :
    (s.handleGroup r.grouping now e).Registers r group := by
  cases e with
  | formed x =>
      have hmem : group ∈ (s.handleGroup r.grouping now (.formed x)).arbiter.groups ↔
          x = group ∨ group ∈ s.arbiter.groups := by
        simp [handleGroup, modifyRecord, Arbiter.modifyRecord]
      rw [Registers, hmem]
      by_cases hx : x = group
      · subst hx
        exact iff_of_true (.inl rfl) he
      · rcases h with h | h | h
        · exact ⟨fun hm => h.mp (hm.resolve_left hx), fun hg => .inr (h.mpr hg)⟩
        · cases h
          exact absurd rfl hx
        · cases h
  | dissolved x =>
      have hmem : group ∈ (s.handleGroup r.grouping now (.dissolved x)).arbiter.groups ↔
          x ≠ group ∧ group ∈ s.arbiter.groups := by
        simp [handleGroup]
      rw [Registers, hmem]
      by_cases hx : x = group
      · subst hx
        exact iff_of_false (fun hm => hm.1 rfl) (by rw [he]; exact Bool.false_ne_true)
      · rcases h with h | h | h
        · exact ⟨fun hm => h.mp hm.2, fun hg => ⟨hx, h.mpr hg⟩⟩
        · cases h
        · cases h
          exact absurd rfl hx
  | suppression x on =>
      rcases h with h | h | h
      · exact h.enrols (s.enrols_handleSuppression r.grouping now x on)
      · cases h
      · cases h

end Scene

/-- **Handling the group events of a roster makes the records exact** where they cover every group
whose record is not. -/
theorem Session.registers_replay {r : Roster} (now : Nat) (group : String) :
    ∀ (es : List GroupEvent) {s : Scene}, (∀ e ∈ es, r.Confirms e) →
      (s.Registers r group ∨ ∃ e ∈ es, e.Settles group) →
        (replay r.grouping now s es).Registers r group
  | [], _, _, h => h.resolve_right (by simp)
  | e :: es, s, hc, h => by
      have he := hc e List.mem_cons_self
      have hes : ∀ x ∈ es, r.Confirms x := fun x hx => hc x (List.mem_cons_of_mem e hx)
      have hstep : s.Registers r group ∨ e.Settles group →
          ((s.handleGroup r.grouping now e).quiesce r.grouping now).Registers r group := fun h =>
        (Scene.registers_handleGroup now he h).enrols (Scene.enrols_quiesce _ r.grouping now)
      refine registers_replay now group es hes ?_
      rcases h with h | ⟨x, hx, hset⟩
      · exact .inl (hstep (.inl h))
      · rcases List.mem_cons.mp hx with rfl | hx
        · exact .inl (hstep (.inr hset))
        · exact .inr ⟨x, hx, hset⟩

/-- The groups that have a record are those that exist. -/
def Scene.RegistersAll (s : Scene) (r : Roster) : Prop := ∀ group, s.Registers r group

namespace Moment.Sound
variable {m : Moment}

/-- Until the roster has taken note of the event, nothing changes but that listed groups get a
record. -/
theorem registers_after (h : m.scene.RegistersAll m.roster) :
    m.after.RegistersAll m.roster := fun group =>
  ((h group).enrols (m.scene.enrols_handleEvent m.roster.grouping m.now m.event)).enrols
    (Scene.enrols_quiesce _ m.roster.grouping m.now)

theorem registers_result (hm : m.Sound) (h : m.scene.RegistersAll m.roster) :
    m.result.RegistersAll m.next := by
  intro group
  refine Session.registers_replay m.now group _ (fun x hx => hm.indexed.confirms hx) ?_
  rcases hm.indexed.covers m.event group with hsame | hset
  · refine .inl ((registers_after h group).trans ?_)
    rw [← hsame]
    rfl
  · exact .inr hset

end Moment.Sound

/-! ### The groups that exist -/

/-- The groups on record are those that exist, and an overview lists these, each once and in
increasing order. -/
structure Scene.Mirrors (s : Scene) (r : Roster) : Prop where
  records : s.RegistersAll r
  overview : s.arbiter.overview.groups.map (·.group) = r.groups
  ordered : r.groups.Pairwise (compare · · = .lt)

theorem Scene.RegistersAll.mirrors {s : Scene} {r : Roster} (hr : r.Indexed)
    (h : s.RegistersAll r) : s.Mirrors r := by
  refine ⟨h, ?_, r.pairwise_groups⟩
  rw [Arbiter.map_group_overview]
  have hkeys : s.arbiter.groups.keys.Pairwise (compare · · = .lt) := Std.ExtTreeMap.ordered_keys
  refine Keyed.eq_of_ordered id hkeys r.pairwise_groups fun group => ?_
  rw [Std.ExtTreeMap.mem_keys, hr.mem_groups]
  exact h group

namespace Session

/-- Before and after every event so far the groups on record are those that exist, and they are now.
-/
structure Registered (ms : List Moment) (r : Roster) (s : Scene) : Prop where
  past : ∀ m ∈ ms, m.Sound ∧ m.scene.RegistersAll m.roster ∧ m.result.RegistersAll m.next
  now : s.RegistersAll r

theorem enduring_registered : Enduring Registered where
  passes {ms r s t} h hr := by
    refine ⟨hr.past, fun group => ?_⟩
    have hsame : group ∈ t.arbiter.groups ↔ group ∈ s.arbiter.groups := by
      cases h with
      | arrange screen | report => exact Iff.rfl
      | quiet on =>
          simp only [Arbiter.groups_setQuiet]
          split
          · exact Iff.rfl
          · exact Std.ExtTreeMap.mem_map
    exact hsame.trans (hr.now group)
  quiesce now _ h := ⟨h.past, fun group => (h.now group).enrols (Scene.enrols_quiesce _ _ now)⟩
  moment {ms m} hm h := by
    refine ⟨fun x hx => ?_, hm.registers_result h.now⟩
    rcases List.mem_append.mp hx with hx | hx
    · exact h.past x hx
    · obtain rfl := List.mem_singleton.mp hx
      exact ⟨hm, h.now, hm.registers_result h.now⟩

theorem indexed_run (settings : Settings) (clock : Clock) (rs : List Request) :
    ((create settings clock).run rs).table.Indexed := by
  have hrun : ∀ (rs : List Request) {s : Session}, s.table.Indexed → (s.run rs).table.Indexed := by
    intro rs
    induction rs with
    | nil => exact fun h => h
    | cons r rs ih => exact fun h => ih (indexed_step h r)
  exact hrun rs Roster.indexed_empty

end Session

/-- **The groups on record are those that exist**, before and after every event of a run and in the
end. -/
theorem groups_on_record_exist (settings : Settings) (clock : Clock) (rs : List Request) :
    (∀ m ∈ (Session.create settings clock).past rs,
      m.scene.Mirrors m.roster ∧ m.result.Mirrors m.next) ∧
      ((Session.create settings clock).run rs).scene.Mirrors
        ((Session.create settings clock).run rs).table := by
  have hnew : ({ arbiter := { settings } } : Scene).RegistersAll {} := fun group => by
    simp [Scene.Registers, Roster.hasGroup_iff, Scene.Member, Roster.grouping, Roster.summary,
      Roster.children, Keyed.items]
  have h := Session.enduring_registered.run_create settings clock ⟨by simp, hnew⟩ rs
  refine ⟨fun m hm => ?_, h.now.mirrors (Session.indexed_run settings clock rs)⟩
  obtain ⟨hsound, hbefore, hafter⟩ := h.past m hm
  exact ⟨hbefore.mirrors hsound.indexed, hafter.mirrors hsound.next⟩

end AlertHandoff
