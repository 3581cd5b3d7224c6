import AlertHandoff.Proofs.Cases
import AlertHandoff.Proofs.Reach
import Mathlib.Algebra.GroupWithZero.Nat

/-! # Alerts are not made out of nothing

Of each kind, an alert is in one of three places: it is up on the presenter of the kind, it is on
its way in a live deferral, or it is scheduled for the summary of a group.  `Scene.weight` counts
the alerts of a kind in all three.

No operation makes the weight of any kind grow, whatever the groups are (`weight_perform_le`):
what an operation delivers or schedules it has taken from one of the three places before, on the
same kind.  So along a run the weight of a kind grows only when the host raises an alert of that
kind, by one each time. -/

namespace AlertHandoff

/-! ### Counting the bindings of a map -/

namespace Keyed
variable {α : Type}

/-- The number of keys whose value satisfies a test. -/
def count (m : Keyed α) (p : α → Bool) : Nat := (m.filter fun _ a => p a).size

theorem filter_erase (m : Keyed α) (k : String) (p : α → Bool) :
    (m.erase k).filter (fun _ a => p a) = (m.filter fun _ a => p a).erase k := by
  apply Std.ExtTreeMap.ext_getElem?
  intro x
  by_cases hx : k = x <;> simp [Std.ExtTreeMap.getElem?_erase, hx]

theorem filter_insert (m : Keyed α) (k : String) (a : α) (p : α → Bool) :
    (m.insert k a).filter (fun _ a => p a) =
      if p a then (m.filter fun _ a => p a).insert k a
      else (m.filter fun _ a => p a).erase k := by
  apply Std.ExtTreeMap.ext_getElem?
  intro x
  by_cases hx : k = x <;> cases hp : p a <;>
    simp [Std.ExtTreeMap.getElem?_insert, Std.ExtTreeMap.getElem?_erase, hx, hp]

theorem mem_filter_iff {m : Keyed α} {k : String} {p : α → Bool} :
    (m.filter fun _ a => p a).contains k = m[k]?.any p := by
  rw [Std.ExtTreeMap.contains_eq_isSome_getElem?, Std.ExtTreeMap.getElem?_filter']
  cases m[k]? with
  | none => rfl
  | some a => cases h : p a <;> simp [Option.filter, h]

theorem count_erase_add (m : Keyed α) (k : String) (p : α → Bool) :
    count (m.erase k) p + (if m[k]?.any p then 1 else 0) = count m p := by
  unfold count
  rw [filter_erase, Std.ExtTreeMap.size_erase, mem_filter_iff]
  split
  · next h =>
    have hmem : k ∈ m.filter fun _ a => p a := by
      rw [← Std.ExtTreeMap.contains_iff_mem, mem_filter_iff, h]
    have hpos : (m.filter fun _ a => p a).size ≠ 0 := by
      intro h0
      rw [← Std.ExtTreeMap.eq_empty_iff_size_eq_zero] at h0
      simp [h0] at hmem
    omega
  · rfl

theorem count_insert (m : Keyed α) (k : String) (a : α) (p : α → Bool) :
    count (m.insert k a) p = count (m.erase k) p + (if p a then 1 else 0) := by
  unfold count
  rw [filter_insert, filter_erase]
  split
  · have h : (m.filter fun _ a => p a).insert k a = ((m.filter fun _ a => p a).erase k).insert k a := by
      apply Std.ExtTreeMap.ext_getElem?
      intro x
      by_cases hx : k = x <;>
        simp [Std.ExtTreeMap.getElem?_insert, Std.ExtTreeMap.getElem?_erase, hx]
    rw [h, Std.ExtTreeMap.size_insert]
    simp
  · rfl

/-- A map whose counted bindings are all found in another counts no more than that one. -/
theorem count_le_of_subset {m m' : Keyed α} {p : α → Bool}
    (h : ∀ (k : String) a, m'[k]? = some a → p a = true → m[k]? = some a) : count m' p ≤ count m p := by
  have hf : m'.filter (fun _ a => p a) =
      (m.filter fun _ a => p a).filter fun k _ => m'[k]?.any p := by
    apply Std.ExtTreeMap.ext_getElem?
    intro k
    simp only [Std.ExtTreeMap.getElem?_filter']
    cases hk : m'[k]? with
    | none => simp
    | some a =>
        cases hp : p a with
        | false => simp [Option.filter_some, hp]
        | true => simp [h k a hk hp, Option.filter_some, hp]
  unfold count
  rw [hf]
  exact Std.ExtTreeMap.size_filter_le_size

theorem count_erase_le (m : Keyed α) (k : String) (p : α → Bool) :
    count (m.erase k) p ≤ count m p := by
  have := count_erase_add m k p
  omega

end Keyed

/-! ### The weight of a kind -/

/-- The number of keys that are alerting on a kind. -/
def Screen.upCount (s : Screen) (k : Kind) : Nat := (s.presenter k).elim 0 (·.up.size)

/-- An alert of one kind, as it counts for another. -/
def Kind.share (kind k : Kind) : Nat := if kind = k then 1 else 0

namespace Scene

/-- The alerts of a kind: those that are up, those on their way to a key, and those scheduled for
the summary of a group. -/
def weight (s : Scene) (k : Kind) : Nat :=
  s.screen.upCount k + Keyed.count s.arbiter.pending (fun d => d.isLive && d.kind == k) +
    Keyed.count s.arbiter.groups (fun r => r.schedule.any (·.kind == k))

end Scene

/-! ### Calls on the screen -/

namespace Presenter

theorem size_up_raise_le (p : Presenter) (n : Notice) : (p.raise n).up.size ≤ p.up.size + 1 := by
  unfold raise
  split
  · omega
  · exact Std.ExtTreeSet.size_insert_le

theorem size_up_dismiss (p : Presenter) (key : String) :
    (p.dismiss key).up.size + (if p.isUp key then 1 else 0) = p.up.size := by
  unfold dismiss
  split
  · next h =>
    have hmem : key ∈ p.up := Std.ExtTreeSet.contains_iff_mem.mp h
    have hpos : p.up.size ≠ 0 := by
      intro h0
      rw [← Std.ExtTreeSet.eq_empty_iff_size_eq_zero] at h0
      simp [h0] at hmem
    have he : p.up.contains key = true := h
    rw [Std.ExtTreeSet.size_erase, if_pos he]
    omega
  · rfl

theorem up_update (p : Presenter) (key : String) (alert : Bool) :
    (p.update key alert).up = p.up := by
  unfold update
  split <;> rfl

end Presenter

namespace Screen

theorem upCount_callPresenter (s : Screen) (kind k : Kind) (call : Call)
    (effect : Presenter → Presenter) :
    (s.callPresenter kind call effect).upCount k =
      if k = kind then (s.presenter k).elim 0 (fun p => (effect p).up.size) else s.upCount k := by
  unfold upCount
  rw [presenter_callPresenter]
  split
  · cases s.presenter k <;> rfl
  · rfl

theorem upCount_update (s : Screen) (kind k : Kind) (key : String) (alert : Bool) :
    (s.update kind key alert).upCount k = s.upCount k := by
  unfold update
  rw [upCount_callPresenter]
  split
  · simp only [Presenter.up_update, upCount]
  · rfl

theorem upCount_raise_le (s : Screen) (kind k : Kind) (n : Notice) :
    (s.raise kind n).upCount k ≤ s.upCount k + kind.share k := by
  unfold raise
  rw [upCount_callPresenter]
  split
  · next h =>
    subst h
    unfold upCount Kind.share
    cases s.presenter k with
    | none => simp
    | some p => simpa using p.size_up_raise_le n
  · omega

theorem upCount_alert_le (s : Screen) (kind k : Kind) (n : Notice) :
    (s.alert kind n).upCount k ≤ s.upCount k + kind.share k := by
  unfold Screen.alert
  split
  · rw [upCount_update]
    omega
  · exact s.upCount_raise_le kind k n

theorem upCount_dismiss_add (s : Screen) {kind : Kind} {key : String}
    (h : s.isUp kind key = true) (k : Kind) :
    (s.dismiss kind key).upCount k + kind.share k = s.upCount k := by
  unfold dismiss
  rw [upCount_callPresenter]
  unfold Kind.share
  split
  · next hk =>
    subst hk
    unfold isUp at h
    unfold upCount
    cases hp : s.presenter k with
    | none => simp [hp] at h
    | some p =>
        have hu : p.isUp key = true := by simpa [hp] using h
        have := p.size_up_dismiss key
        simpa [hu] using this
  · next hk =>
    rw [if_neg (Ne.symm hk)]
    rfl

theorem upCount_read (s : Screen) (k : Kind) : s.read.upCount k = s.upCount k := by
  unfold upCount
  rw [presenter_read]
  cases s.presenter k <;> rfl

end Screen

/-! ### One operation -/

namespace Scene

/-- What was taken from a child, as it counts for a kind. -/
def share (taken : Option Schedule) (k : Kind) : Nat := taken.elim 0 fun d => d.kind.share k

@[simp] theorem weight_write (s : Scene) (actions : List Action) (k : Kind) :
    (s.write actions).weight k = s.weight k := rfl

theorem weight_le_of {s t : Scene} {k : Kind} (hs : t.screen.upCount k = s.screen.upCount k)
    (hp : ∀ (key : String) d, t.arbiter.pending[key]? = some d → d.isLive = true →
      s.arbiter.pending[key]? = some d)
    (hg : ∀ (group : String) r, t.arbiter.groups[group]? = some r → r.schedule.isSome = true →
      s.arbiter.groups[group]? = some r) : t.weight k ≤ s.weight k := by
  have h₁ : Keyed.count t.arbiter.pending (fun d => d.isLive && d.kind == k) ≤
      Keyed.count s.arbiter.pending (fun d => d.isLive && d.kind == k) := by
    apply Keyed.count_le_of_subset
    intro key d hd hl
    rw [Bool.and_eq_true] at hl
    exact hp key d hd hl.1
  have h₂ : Keyed.count t.arbiter.groups (fun r => r.schedule.any (·.kind == k)) ≤
      Keyed.count s.arbiter.groups (fun r => r.schedule.any (·.kind == k)) := by
    apply Keyed.count_le_of_subset
    intro group r hr hl
    refine hg group r hr ?_
    cases hd : r.schedule with
    | none => simp [hd] at hl
    | some d => rfl
  unfold weight
  omega

theorem upCount_deliver_le (s : Scene) (n : Notice) (source : String) (kind k : Kind) :
    (s.deliver n source kind).screen.upCount k ≤
      s.screen.upCount k + if s.outcome n kind = .shown then kind.share k else 0 := by
  cases h : s.outcome n kind with
  | shown =>
      rw [deliver_of_shown h]
      simpa using s.screen.upCount_alert_le kind k n
  | unavailable => simp [deliver_of_unavailable h]
  | deferred =>
      obtain ⟨p, -, hd⟩ := deliver_of_deferred h source
      rw [hd]
      simp only [defer]
      split <;> exact Nat.le_add_right _ _

theorem count_pending_le (o : Outcome) (ds : Deferrals) (n : Notice) (source : String)
    (kind k : Kind) :
    Keyed.count (o.pending ds n source kind) (fun d => d.isLive && d.kind == k) ≤
      Keyed.count ds (fun d => d.isLive && d.kind == k) +
        if o = .deferred then kind.share k else 0 := by
  have he := Keyed.count_erase_le ds n.key fun d => d.isLive && d.kind == k
  cases o with
  | shown => simpa [Outcome.pending] using he
  | unavailable => simp [Outcome.pending]
  | deferred =>
      simp only [Outcome.pending, Keyed.count_insert, if_true]
      have hf : (if ((Deferral.fresh n source kind).isLive &&
          (Deferral.fresh n source kind).kind == k) = true then 1 else 0) = kind.share k := by
        simp [Deferral.fresh, Deferral.isLive, Kind.share]
      omega

/-- **One delivery weighs one alert** of its kind at the most. -/
theorem weight_deliver_le (s : Scene) (n : Notice) (source : String) (kind k : Kind) :
    (s.deliver n source kind).weight k ≤ s.weight k + kind.share k := by
  have hu := s.upCount_deliver_le n source kind k
  have hp := count_pending_le (s.outcome n kind) s.arbiter.pending n source kind k
  unfold weight
  rw [arbiter_deliver]
  dsimp only
  cases h : s.outcome n kind <;> simp [h] at hu hp ⊢ <;> omega

theorem weight_move_le (s : Scene) (n : Notice) (source : String) (kind k : Kind) :
    (s.move n source kind).weight k ≤ s.weight k + kind.share k := by
  unfold move
  rw [weight_write]
  exact s.weight_deliver_le n source kind k

theorem weight_dismiss_add {s : Scene} {kind : Kind} {key : String}
    (h : s.screen.isUp kind key = true) (k : Kind) :
    (s.dismiss kind key).weight k + kind.share k = s.weight k := by
  have := s.screen.upCount_dismiss_add h k
  unfold weight dismiss
  dsimp only
  omega

theorem weight_clearDeferral_add {s : Scene} {key : String} {d : Deferral}
    (h : s.arbiter.pending[key]? = some d) (hl : d.isLive = true) (k : Kind) :
    (s.clearDeferral key).weight k + d.kind.share k = s.weight k := by
  have := Keyed.count_erase_add s.arbiter.pending key fun d => d.isLive && d.kind == k
  have hd : (if (s.arbiter.pending[key]?.any fun d => d.isLive && d.kind == k) = true then 1
      else 0) = d.kind.share k := by
    simp [h, hl, Kind.share]
  unfold weight clearDeferral
  dsimp only
  omega

theorem weight_clearDeferral_le (s : Scene) (key : String) (k : Kind) :
    (s.clearDeferral key).weight k ≤ s.weight k := by
  have := Keyed.count_erase_le s.arbiter.pending key fun d => d.isLive && d.kind == k
  unfold weight clearDeferral
  dsimp only
  omega

theorem weight_modifyRecord_le (s : Scene) (group : String) (f : GroupRecord → GroupRecord)
    (k : Kind) :
    (s.modifyRecord group f).weight k + share (s.arbiter.record group).schedule k ≤
      s.weight k + share (f (s.arbiter.record group)).schedule k := by
  have hi := Keyed.count_insert s.arbiter.groups group (f (s.arbiter.record group))
    fun r => r.schedule.any (·.kind == k)
  have he := Keyed.count_erase_add s.arbiter.groups group fun r => r.schedule.any (·.kind == k)
  have hold : (if (s.arbiter.groups[group]?.any fun r => r.schedule.any (·.kind == k)) = true
      then 1 else 0) = share (s.arbiter.record group).schedule k := by
    unfold Arbiter.record share Kind.share
    cases hr : s.arbiter.groups[group]? with
    | none => simp
    | some r => cases hd : r.schedule <;> simp [hd]
  have hnew : (if ((f (s.arbiter.record group)).schedule.any (·.kind == k)) = true then 1 else 0) =
      share (f (s.arbiter.record group)).schedule k := by
    unfold share Kind.share
    cases (f (s.arbiter.record group)).schedule <;> simp
  unfold weight modifyRecord Arbiter.modifyRecord
  dsimp only
  omega

theorem weight_markForward_le (s : Scene) (summary child : Notice) (kind : Kind) (now : Nat)
    (k : Kind) : (s.markForward summary child kind now).weight k ≤ s.weight k := by
  unfold markForward
  split
  · have := s.weight_modifyRecord_le summary.group
      (fun r => { r with lastForward := some now }) k
    dsimp only at this
    omega
  · exact Nat.le_refl _

/-- The summary pays for what the child gets. -/
theorem weight_forward_le (s : Scene) (g : Grouping) (now : Nat) (summary : Notice)
    (kind k : Kind) : (s.forward g now summary kind).weight k ≤ s.weight k := by
  rcases s.forward_cases g now summary kind with ⟨he, -⟩ | ⟨child, -, hm, he⟩
  · exact Nat.le_of_eq (congrArg (·.weight k) he)
  · have hup := (mayForward_iff.mp hm).2.2.1
    have h₁ := s.weight_markForward_le summary child kind now k
    rw [← screen_markForward s summary child kind now] at hup
    have h₂ := weight_dismiss_add hup k
    have h₃ := ((s.markForward summary child kind now).dismiss kind summary.key).weight_move_le
      child summary.key kind k
    rw [he]
    omega

/-! ### Taking back -/

theorem weight_turnBack_le {s : Scene} {key : String} {d : Deferral}
    (hd : s.arbiter.pending[key]? = some d) (hl : d.isLive = true) (k : Kind) :
    (s.turnBack key).weight k + d.kind.share k ≤ s.weight k := by
  rw [← weight_clearDeferral_add hd hl k]
  -- taking a move back weighs as much as forgetting it: a reversed one is not counted
  refine Nat.add_le_add_right ?_ _
  refine weight_le_of (s := s.clearDeferral key) rfl ?_ fun _ _ h _ => h
  intro x e he hlive
  rw [pending_turnBack] at he
  simp only [clearDeferral, Std.ExtTreeMap.getElem?_erase]
  split at he
  · obtain ⟨_, -, rfl⟩ := Option.map_eq_some_iff.mp he
    cases hlive
  · next hne =>
    rw [if_neg (by simpa using hne)]
    exact he

/-- What counts as taken from the children has been taken from the scene. -/
theorem weight_takeAll_le (s : Scene) (children : List Notice) (k : Kind) :
    (s.takeAll children).1.weight k + share (s.takeAll children).2 k ≤ s.weight k := by
  refine takeAll_keeps (I := fun t taken => t.weight k + share taken k ≤ s.weight k) ?_ ?_ ?_
  · intro t taken kind child _ hk h
    have := weight_dismiss_add (Screen.isUp_of_kindUp? hk) k
    simp only [share, Option.elim_some]
    omega
  · intro t taken d child _ hd hl h
    have := weight_turnBack_le hd hl k
    simp only [share, Option.elim_some]
    omega
  · exact Nat.le_refl _

theorem weight_restore_le (s : Scene) (g : Grouping) (group : String) (summary : Notice)
    (taken : Schedule) (k : Kind) :
    (s.restore g group summary taken).weight k ≤ s.weight k + taken.kind.share k := by
  rcases s.restore_cases g group summary taken with ⟨-, he⟩ | ⟨-, -, he⟩ | ⟨-, -, he⟩
  · rw [he]
    omega
  · have h₁ := s.weight_modifyRecord_le group (fun r => { r with lastForward := none }) k
    have h₂ := (s.modifyRecord group fun r => { r with lastForward := none }).weight_move_le
      summary taken.source taken.kind k
    rw [he]
    dsimp only at h₁
    omega
  · have h := s.weight_modifyRecord_le group
      (fun _ => { lastForward := none, schedule := some taken }) k
    rw [he, weight_write]
    simp only [share, Option.elim_some] at h ⊢
    omega

/-- The children pay for what the summary gets. -/
theorem weight_handBack_le (s : Scene) (g : Grouping) (now : Nat) (group : String) (k : Kind) :
    (s.handBack g now group).weight k ≤ s.weight k := by
  have h := s.weight_takeAll_le (g.children group) k
  rcases s.handBack_cases g now group with ⟨he, -⟩ | ⟨summary, -, -, ⟨-, he⟩ | ⟨taken, ht, he⟩⟩
  · exact Nat.le_of_eq (congrArg (·.weight k) he)
  · rw [he]
    omega
  · have hr := (s.takeAll (g.children group)).1.weight_restore_le g group summary taken k
    rw [ht] at h
    rw [he]
    simp only [share, Option.elim_some] at h
    omega

/-! ### The other operations -/

theorem weight_handleChange_le (s : Scene) (g : Grouping) (now : Nat) (kind : Kind) (c : Change)
    (k : Kind) : (s.handleChange g now kind c).weight k ≤ s.weight k := by
  unfold handleChange
  split
  · exact Nat.le_refl _
  · split
    · split
      · exact Nat.le_refl _
      · split
        · exact s.weight_forward_le g now _ kind k
        · exact Nat.le_refl _
    · exact Nat.le_refl _

theorem weight_unschedule_add (s : Scene) (group : String) (k : Kind) :
    (s.unschedule group).weight k + share (s.arbiter.record group).schedule k ≤ s.weight k := by
  cases hr : s.arbiter.groups[group]? with
  | none =>
      have hg : s.arbiter.groups.modify group (fun r => { r with schedule := none }) =
          s.arbiter.groups := by
        apply Std.ExtTreeMap.ext_getElem?
        intro x
        rw [Std.ExtTreeMap.getElem?_modify]
        split
        · next hx =>
          rw [← Std.LawfulEqCmp.eq_of_compare hx, hr]
          rfl
        · rfl
      have he : s.unschedule group = s := by rw [unschedule, hg]
      rw [he]
      simp [Arbiter.record, hr, share]
  | some r =>
      have hg : s.arbiter.groups.modify group (fun r => { r with schedule := none }) =
          s.arbiter.groups.insert group { s.arbiter.record group with schedule := none } := by
        apply Std.ExtTreeMap.ext_getElem?
        intro x
        rw [Std.ExtTreeMap.getElem?_modify, Std.ExtTreeMap.getElem?_insert, hr, Arbiter.record, hr]
        rfl
      have he : s.unschedule group =
          s.modifyRecord group fun r => { r with schedule := none } := by
        rw [unschedule, hg]
        rfl
      have h := s.weight_modifyRecord_le group (fun r => { r with schedule := none }) k
      rw [he]
      simpa [share] using h

theorem weight_handleSuppression_le (s : Scene) (g : Grouping) (now : Nat) (group : String)
    (on : Bool) (k : Kind) : (s.handleSuppression g now group on).weight k ≤ s.weight k := by
  rcases s.handleSuppression_cases g now group on with ⟨he, -⟩ | ⟨summary, -, h⟩
  · exact Nat.le_of_eq (congrArg (·.weight k) he)
  · rcases h with ⟨-, kind, -, he⟩ | ⟨-, -, -, he⟩ | ⟨-, -, due, hd, h⟩
    · rw [he]
      exact s.weight_forward_le g now summary kind k
    · rw [he]
      exact s.weight_handBack_le g now group k
    · have hu := s.weight_unschedule_add group k
      rw [hd] at hu
      simp only [share, Option.elim_some] at hu
      rcases h with ⟨-, he⟩ | ⟨-, he⟩
      · rw [he]
        omega
      · have hm := (s.unschedule group).weight_move_le summary due.source due.kind k
        rw [he]
        omega

theorem weight_handleGroup_le (s : Scene) (g : Grouping) (now : Nat) (e : GroupEvent) (k : Kind) :
    (s.handleGroup g now e).weight k ≤ s.weight k := by
  cases e with
  | formed group =>
      have h := s.weight_modifyRecord_le group id k
      simp only [id] at h
      simp only [handleGroup]
      omega
  | suppression group on => exact s.weight_handleSuppression_le g now group on k
  | dissolved group =>
      refine weight_le_of (s := s) ?_ (fun _ _ h _ => h) ?_
      · rfl
      intro x r hr _
      simp only [handleGroup, Std.ExtTreeMap.getElem?_erase] at hr
      split at hr
      · cases hr
      · exact hr

theorem weight_giveUp_le (s : Scene) (a : Arbiter) (p : String → Deferral → Bool) (cause : Cause)
    (hg : a.groups = s.arbiter.groups) (k : Kind) :
    ({ s with arbiter := a.giveUp (Keyed.extract s.arbiter.pending p) cause } : Scene).weight k ≤
      s.weight k := by
  refine weight_le_of (s := s) ?_ ?_ ?_
  · rfl
  · intro key d hd _
    simp only [Arbiter.giveUp, Keyed.getElem?_extract_snd, Option.filter_eq_some_iff] at hd
    exact hd.1
  · intro group r hr _
    rw [← hg]
    exact hr

theorem weight_release (s : Scene) (n : Notice) (kind k : Kind) :
    (s.release n kind).weight k = s.weight k := by
  unfold release
  split <;> rfl

/-- The deferral pays for what its destination gets. -/
theorem weight_rendered_le (s : Scene) (n : Notice) (k : Kind) :
    (s.rendered n).weight k ≤ s.weight k := by
  rcases s.rendered_cases n with ⟨-, he⟩ | ⟨d, hd, h⟩
  · exact Nat.le_of_eq (congrArg (·.weight k) he)
  · rcases h with ⟨t, a, ht, -, he⟩ | ⟨hf, -, -, he⟩
    · rw [he, weight_write]
      rcases ht with rfl | rfl
      · exact s.weight_clearDeferral_le n.key k
      · rw [weight_release]
        exact s.weight_clearDeferral_le n.key k
    · have hl : d.isLive = true := by
        simp only [Deferral.fits, Bool.and_eq_true] at hf
        exact hf.1
      have h₁ := weight_clearDeferral_add hd hl k
      have h₂ := (s.clearDeferral n.key).weight_deliver_le n d.source d.kind k
      rw [he]
      simp only [complete, weight_write]
      omega

theorem weight_remove_le (s : Scene) (n : Notice) (k : Kind) :
    ({ s with arbiter := s.arbiter.remove n } : Scene).weight k ≤ s.weight k :=
  s.weight_giveUp_le (s.arbiter.added n) _ .removed rfl k

theorem weight_regroup_le (s : Scene) (n : Notice) (k : Kind) :
    ({ s with arbiter := s.arbiter.regroup n } : Scene).weight k ≤ s.weight k :=
  s.weight_giveUp_le s.arbiter _ .regrouped rfl k

/-- Entering or leaving quiet mode only gives up what was on its way or scheduled. -/
theorem weight_setQuiet_le (s : Scene) (on : Bool) (k : Kind) :
    ({ s with arbiter := s.arbiter.setQuiet on } : Scene).weight k ≤ s.weight k := by
  refine weight_le_of (s := s) ?_ ?_ ?_
  · rfl
  · intro key d hd _
    rw [Arbiter.pending_setQuiet] at hd
    split at hd
    · rw [Std.ExtTreeMap.getElem?_filter', Option.filter_eq_some_iff] at hd
      exact hd.1
    · exact hd
  · intro group r hr hsome
    rw [Arbiter.groups_setQuiet] at hr
    split at hr
    · exact hr
    · rw [Std.ExtTreeMap.getElem?_map] at hr
      obtain ⟨_, -, rfl⟩ := Option.map_eq_some_iff.mp hr
      cases hsome

theorem weight_handleEvent_le (s : Scene) (g : Grouping) (now : Nat) (e : Event) (k : Kind) :
    (s.handleEvent g now e).weight k ≤ s.weight k := by
  cases e with
  | announced n =>
      simp only [handleEvent]
      split
      · exact Nat.le_refl _
      · exact weight_handBack_le _ g now n.group k
  | added n => exact Nat.le_refl _
  | updated n previous =>
      simp only [handleEvent]
      split
      · exact Nat.le_refl _
      · exact weight_regroup_le { s with arbiter := s.arbiter.refresh n } n k
  | removed n => exact s.weight_remove_le n k
  | rendered n => exact s.weight_rendered_le n k

/-- **No operation makes an alert out of nothing**: whatever the groups are, the weight of every
kind is afterwards at most what it was. -/
theorem weight_perform_le (s : Scene) (g : Grouping) (now : Nat) (o : Operation) (k : Kind) :
    (s.perform g now o).weight k ≤ s.weight k := by
  cases o with
  | event e => exact s.weight_handleEvent_le g now e k
  | groupEvent e => exact s.weight_handleGroup_le g now e k
  | suppression group on => exact s.weight_handleSuppression_le g now group on k
  | change kind c => exact s.weight_handleChange_le g now kind c k
  | rendered n => exact s.weight_rendered_le n k
  | removed n => exact s.weight_remove_le n k
  | regrouped n => exact s.weight_regroup_le n k
  | quiet on => exact s.weight_setQuiet_le on k

theorem weight_read (s : Scene) (k : Kind) :
    ({ s with screen := s.screen.read } : Scene).weight k = s.weight k := by
  unfold weight
  rw [Screen.upCount_read]

/-- Everything that is handled keeps the weight down. -/
theorem Leads.weight_le {s t : Scene} (h : s.Leads t) (k : Kind) : t.weight k ≤ s.weight k := by
  refine h.keeps (P := fun t => t.weight k ≤ s.weight k) ?_ ?_ (Nat.le_refl _)
  · intro t g now o ht
    exact Nat.le_trans (t.weight_perform_le g now o k) ht
  · intro t ht
    rw [weight_read]
    exact ht

end Scene

/-! ### Runs -/

/-- The number of alerts of a kind that a request raises. -/
def Request.raises (k : Kind) : Request → Nat
  | .host (.raise kind _) => kind.share k
  | _ => 0

namespace Session

theorem weight_host_le (s : Screen) (a : Arbiter) (c : HostCall) (k : Kind) :
    (Scene.weight ⟨a, (s.host c).1⟩ k) ≤ Scene.weight ⟨a, s⟩ k + (Request.host c).raises k := by
  have h : (s.host c).1.upCount k ≤ s.upCount k + (Request.host c).raises k := by
    cases c with
    | register kind flag =>
        unfold Screen.upCount
        rw [Screen.host_register_fst]
        split
        · exact Nat.zero_le _
        · exact Nat.le_add_right _ _
    | raise kind n => exact s.upCount_raise_le kind k n
    | update kind key alert => exact Nat.le_of_eq (s.upCount_update kind k key alert)
    | dismiss kind key =>
        cases hu : s.isUp kind key with
        | true =>
            have := s.upCount_dismiss_add hu k
            simp only [Screen.host, Request.raises]
            omega
        | false =>
            simp only [Screen.host, Request.raises, Screen.dismiss]
            rw [Screen.upCount_callPresenter]
            split
            · next hk =>
              subst hk
              unfold Screen.upCount
              cases hp : s.presenter k with
              | none => exact Nat.le_refl _
              | some p =>
                  have := p.size_up_dismiss key
                  simp only [Option.elim_some]
                  omega
            · exact Nat.le_refl _
    | drain kind =>
        simp only [Screen.host, Screen.drain, Request.raises]
        split
        · exact Nat.le_refl _
        · next p hp =>
          unfold Screen.upCount
          rw [Screen.presenter_setPresenter]
          split
          · next hk =>
            rw [hk, hp]
            exact Nat.le_refl _
          · exact Nat.le_refl _
    | prepare row flag on =>
        unfold Screen.upCount
        simp [Screen.host, Screen.prepare, Request.raises]
  unfold Scene.weight
  dsimp only
  omega

theorem weight_step_le (s : Session) (r : Request) (k : Kind) :
    (s.step r).1.scene.weight k ≤ s.scene.weight k + r.raises k := by
  cases r with
  | host c => exact weight_host_le s.scene.screen s.scene.arbiter c k
  | advance micros => exact Nat.le_refl _
  | bind =>
      simp only [step, bind]
      split <;> exact Nat.le_refl _
  | send e =>
      simp only [step, send]
      split <;> exact Nat.le_refl _
  | close => exact Nat.le_refl _
  | flush =>
      simp only [step]
      cases h : s.roster with
      | none =>
          rw [flush_of_none h]
          exact Nat.le_refl _
      | some roster =>
          rw [flush_of_some h]
          exact (s.leads_flushed roster).weight_le k
  | quiet on => exact s.scene.weight_setQuiet_le on k

theorem weight_run_le : ∀ (s : Session) (rs : List Request) (k : Kind),
    (s.run rs).scene.weight k ≤ s.scene.weight k + (rs.map (·.raises k)).sum
  | s, [], k => Nat.le_refl _
  | s, r :: rs, k => by
      have h₁ := s.weight_step_le r k
      have h₂ := weight_run_le (s.step r).1 rs k
      simp only [List.map_cons, List.sum_cons]
      have he : s.run (r :: rs) = (s.step r).1.run rs := rfl
      rw [he]
      omega

end Session

/-- **Alerts are not made out of nothing.**  Whatever the groups are, no operation makes the weight
of a kind grow; and along a run the weight of a kind grows by at most one for every alert of that
kind that the host raises. -/
theorem alerts_are_conserved :
    (∀ (s : Scene) (g : Grouping) (now : Nat) (o : Scene.Operation) (k : Kind),
      (s.perform g now o).weight k ≤ s.weight k) ∧
    ∀ (s : Session) (rs : List Request) (k : Kind),
      (s.run rs).scene.weight k ≤ s.scene.weight k + (rs.map (·.raises k)).sum :=
  ⟨Scene.weight_perform_le, Session.weight_run_le⟩

end AlertHandoff
