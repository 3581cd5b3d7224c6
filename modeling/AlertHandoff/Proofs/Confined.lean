import AlertHandoff.Proofs.Parts

/-! # Work that stays in a group

`Scene.Confined d h s t` says that what leads from `s` to `t` is work in the group `h`: if what `s`
remembers keeps to the division, then so does what `t` remembers, and the two agree about every
other group.  Every operation is confined to the group that it is about: a notice is handed an alert
within its group, content that was drawn settles the deferral of its notice, and a deferral that is
dropped because of its source leads to a key of the same group (`Scene.confined_handleEvent`,
`Scene.confined_handleGroup`, `Scene.confined_handleChange`). -/

namespace AlertHandoff
namespace Scene

/-- The work that leads from the first scene to the second keeps to the division, and no group but
`h` sees it. -/
def Confined (d : Division) (h : String) (s t : Scene) : Prop :=
  s.Divided d → t.Divided d ∧ ∀ g, g ≠ h → s.Agree d g t

variable {d : Division} {h : String} {s t u : Scene} {n : Notice}

theorem Confined.refl (d : Division) (h : String) (s : Scene) : s.Confined d h s :=
  fun hs => ⟨hs, fun g _ => .refl d g s⟩

theorem Confined.trans (h₁ : s.Confined d h t) (h₂ : t.Confined d h u) : s.Confined d h u := by
  intro hs
  obtain ⟨ht, hst⟩ := h₁ hs
  obtain ⟨hu, htu⟩ := h₂ ht
  exact ⟨hu, fun g hg => (hst g hg).trans (htu g hg)⟩

/-! ### Books -/

theorem Divided.withPending (hs : s.Divided d) {m : Deferrals} (hm : m.Divided d) :
    ({ s with arbiter := { s.arbiter with pending := m } } : Scene).Divided d :=
  { hs with pending := hm }

theorem Divided.withScreen (hs : s.Divided d) {screen : Screen}
    (hr : ∀ k n, .raised n ∈ screen.feed k → .raised n ∈ s.screen.feed k ∨ d.Admits n) :
    ({ s with screen } : Scene).Divided d :=
  { hs with
    raised := fun k n hn => (hr k n hn).elim (hs.raised k n) id }

theorem confined_write (s : Scene) {actions : List Action}
    (ha : ∀ x ∈ actions, ∀ g, g ≠ h → d.concerns g x = false) :
    s.Confined d h (s.write actions) := by
  intro hs
  refine ⟨⟨hs.pending, hs.schedule, hs.announced, hs.raised⟩, fun g hg => ⟨?_, .refl d g _⟩⟩
  exact s.arbiter.agree_write fun x hx => ha x hx g hg

/-- Changing the record of the group, if an alert that is newly scheduled comes from the group. -/
theorem confined_modifyRecord (s : Scene) {f : GroupRecord → GroupRecord}
    (hf : ∀ r due, (f r).schedule = some due → r.schedule = some due ∨ d.ofKey due.source = h) :
    s.Confined d h (s.modifyRecord h f) := by
  intro hs
  refine ⟨{ hs with schedule := fun group due hd => ?_ },
    fun g hg => ⟨s.arbiter.agree_modifyRecord hg f, .refl d g _⟩⟩
  rw [record_modifyRecord] at hd
  split at hd
  · next hg =>
    subst hg
    rcases hf _ due hd with hd | hd
    · exact hs.schedule group due hd
    · exact hd
  · exact hs.schedule group due hd

theorem confined_unschedule (s : Scene) : s.Confined d h (s.unschedule h) := by
  intro hs
  refine ⟨{ hs with schedule := fun group due hd => ?_ }, fun g hg => ⟨?_, .refl d g _⟩⟩
  · refine hs.schedule group due ?_
    rw [record_unschedule] at hd
    split at hd
    · cases hd
    · exact hd
  · refine (Arbiter.Agree.refl d g s.arbiter).withGroups ?_
    rw [Std.ExtTreeMap.getElem?_modify, if_neg]
    simpa using Ne.symm hg

theorem confined_dissolve (s : Scene) :
    s.Confined d h
      { s with arbiter := { s.arbiter with groups := s.arbiter.groups.erase h } } := by
  intro hs
  refine ⟨{ hs with schedule := fun group due hd => ?_ }, fun g hg => ⟨?_, .refl d g _⟩⟩
  · refine hs.schedule group due ?_
    simp only [Arbiter.record, Std.ExtTreeMap.getElem?_erase] at hd ⊢
    split at hd
    · cases hd
    · exact hd
  · refine (Arbiter.Agree.refl d g s.arbiter).withGroups ?_
    rw [Std.ExtTreeMap.getElem?_erase, if_neg]
    simpa using Ne.symm hg

theorem confined_clearDeferral (s : Scene) {key : String} (hk : d.ofKey key = h) :
    s.Confined d h (s.clearDeferral key) := by
  intro hs
  refine ⟨hs.withPending fun x r hr => ?_, fun g hg => ⟨?_, .refl d g _⟩⟩
  · rw [Std.ExtTreeMap.getElem?_erase] at hr
    split at hr
    · cases hr
    · exact hs.pending x r hr
  · refine (Arbiter.Agree.refl d g s.arbiter).withPending fun x hx => ?_
    have hne := Division.ne_of_ofKey hk hx hg
    simp [Std.ExtTreeMap.getElem?_erase, hne]

/-- Deferrals that name a key lead to keys of its group. -/
theorem confined_dropNaming (s : Scene) {key : String} (hk : d.ofKey key = h) (cause : Cause) :
    s.Confined d h { s with
      arbiter := s.arbiter.giveUp (Deferrals.dropNaming s.arbiter.pending key) cause } := by
  intro hs
  refine ⟨⟨fun x r hr => ?_, hs.schedule, hs.announced, hs.raised⟩, fun g hg => ⟨?_, .refl d g _⟩⟩
  · simp only [Arbiter.giveUp, Deferrals.dropNaming, Keyed.getElem?_extract_snd,
      Option.filter_eq_some_iff] at hr
    exact hs.pending x r hr.1
  · refine s.arbiter.agree_giveUp cause fun x r hr hp => ?_
    simp only [Bool.or_eq_true, beq_iff_eq] at hp
    have hx : d.ofKey x = h := by
      rcases hp with rfl | hp
      · exact hk
      · rw [← hs.pending x r hr, hp, hk]
    exact fun e => hg (e.symm.trans hx)

/-! ### Presenters and rows -/

theorem confined_dismiss (s : Scene) (kind : Kind) {key : String} (hk : d.ofKey key = h) :
    s.Confined d h (s.dismiss kind key) := by
  intro hs
  refine ⟨hs.withScreen fun k n hn => .inl ?_, fun g hg => ⟨.refl d g _, ?_⟩⟩
  · rw [Screen.feed_dismiss, List.mem_append] at hn
    rcases hn with hn | hn
    · exact hn
    · split at hn <;> simp at hn
  · exact s.screen.agree_dismiss kind (fun e => hg (e.symm.trans hk))

theorem confined_release (s : Scene) (hn : d.Belongs h n) (kind : Kind) :
    s.Confined d h (s.release n kind) := by
  unfold release
  split
  · exact .refl d h s
  · intro hs
    refine ⟨hs.withScreen fun k m hm => .inl ?_, fun g hg => ⟨.refl d g _, ?_⟩⟩
    · cases k <;> exact hm
    · exact s.screen.agree_release (fun e => hg (e.symm.trans hn.row)) _

theorem confined_defer (s : Scene) (hn : d.Belongs h n) {source : String}
    (hs : d.ofKey source = h) (kind : Kind) (flag : Flag) :
    s.Confined d h (s.defer n source kind flag) := by
  intro hd
  have hpending : Deferrals.Divided d
      (s.arbiter.pending.insert n.key (Deferral.fresh n source kind)) := by
    intro key r hr
    rw [Std.ExtTreeMap.getElem?_insert] at hr
    split at hr
    · next hk =>
      cases hr
      rw [← Std.LawfulEqCmp.eq_of_compare hk, hn.key]
      exact hs
    · exact hd.pending key r hr
  refine ⟨⟨hpending, hd.schedule, hd.announced, fun k m hm => hd.raised k m ?_⟩,
    fun g hg => ⟨?_, ?_⟩⟩
  · simp only [defer] at hm
    split at hm
    · cases k <;> exact hm
    · exact hm
  · refine (Arbiter.Agree.refl d g s.arbiter).withPending fun key hk => ?_
    have hne := Division.ne_of_ofKey hn.key hk hg
    simp [Std.ExtTreeMap.getElem?_insert, hne]
  · simp only [defer]
    split
    · exact s.screen.agree_request (fun e => hg (e.symm.trans hn.row)) flag
    · exact .refl d g _

theorem confined_alert (s : Scene) (hn : d.Belongs h n) (kind : Kind) :
    s.Confined d h { s with screen := s.screen.alert kind n } := by
  intro hs
  refine ⟨hs.withScreen fun k m hm => ?_, fun g hg => ⟨.refl d g _, ?_⟩⟩
  · unfold Screen.alert at hm
    split at hm
    · rw [Screen.feed_update] at hm
      exact .inl hm
    · rw [Screen.feed_raise, List.mem_append] at hm
      rcases hm with hm | hm
      · exact .inl hm
      · split at hm
        · cases List.mem_singleton.mp hm
          exact .inr hn.admits
        · cases hm
  · exact s.screen.agree_alert kind (fun e => hg (e.symm.trans hn.key))

/-! ### Handing an alert over -/

variable {source : String} {kind : Kind}

theorem confined_deliver (s : Scene) (hn : d.Belongs h n) (hs : d.ofKey source = h) (kind : Kind) :
    s.Confined d h (s.deliver n source kind) := by
  cases ho : s.outcome n kind with
  | unavailable =>
      rw [deliver_of_unavailable ho]
      exact .refl d h s
  | shown =>
      rw [deliver_of_shown ho]
      exact (s.confined_clearDeferral hn.key).trans (confined_alert _ hn kind)
  | deferred =>
      obtain ⟨p, -, hd⟩ := deliver_of_deferred ho source
      rw [hd]
      exact s.confined_defer hn hs kind p.flag

theorem confined_move (s : Scene) (hn : d.Belongs h n) (hs : d.ofKey source = h) (kind : Kind) :
    s.Confined d h (s.move n source kind) := by
  refine (s.confined_deliver hn hs kind).trans (confined_write _ fun x hx g hg => ?_)
  cases ho : s.outcome n kind <;> rw [ho] at hx <;>
    simp only [Outcome.actions, List.mem_singleton, List.not_mem_nil] at hx <;> subst hx <;>
    simp [Division.concerns, hs, hn.key, Ne.symm hg]

theorem confined_markForward (s : Scene) {summary : Notice} (hn : d.Belongs h summary)
    (child : Notice) (kind : Kind) (now : Nat) :
    s.Confined d h (s.markForward summary child kind now) := by
  unfold markForward
  split
  · rw [hn.group]
    exact s.confined_modifyRecord fun r due hd => .inl hd
  · exact .refl d h s

theorem confined_forward (s : Scene) {G : Grouping} (hG : G.Divided d) (now : Nat)
    {summary : Notice} (hn : d.Belongs h summary) (kind : Kind) :
    s.Confined d h (s.forward G now summary kind) := by
  rcases s.forward_cases G now summary kind with ⟨he, -⟩ | ⟨child, hc, -, he⟩
  · rw [he]
    exact .refl d h s
  · have hchild : d.Belongs h child := by
      rw [← hn.group]
      exact hG _ child (.inr (mem_children_of_heir? hc).1)
    rw [he]
    exact ((s.confined_markForward hn child kind now).trans
      (confined_dismiss _ kind hn.key)).trans (confined_move _ hchild hn.key kind)

/-! ### Taking alerts back -/

/-- What was taken comes from the group. -/
def FromGroup (d : Division) (h : String) (taken : Option Schedule) : Prop :=
  ∀ due, taken = some due → d.ofKey due.source = h

theorem confined_turnBack {key : String} (hk : d.ofKey key = h) (s : Scene) :
    s.Confined d h (s.turnBack key) := by
  refine fun hs => ⟨hs.withPending fun x r hr => ?_, fun g hg => ⟨?_, .refl d g _⟩⟩
  · have hr : (s.turnBack key).arbiter.pending[x]? = some r := hr
    rw [pending_turnBack] at hr
    split at hr
    · obtain ⟨r', hr', rfl⟩ := Option.map_eq_some_iff.mp hr
      exact hs.pending x r' hr'
    · exact hs.pending x r hr
  · refine (Arbiter.Agree.refl d g s.arbiter).withPending fun x hx => ?_
    have hne := Division.ne_of_ofKey hk hx hg
    simp [Deferrals.mark, Std.ExtTreeMap.getElem?_modify, hne]

theorem confined_takeAll (s : Scene) {children : List Notice}
    (hc : ∀ child ∈ children, d.Belongs h child) :
    s.Confined d h (s.takeAll children).1 ∧ FromGroup d h (s.takeAll children).2 := by
  refine takeAll_keeps (I := fun t taken => s.Confined d h t ∧ FromGroup d h taken) ?_ ?_ ?_
  · rintro t taken kind child hm - ⟨ht, -⟩
    refine ⟨ht.trans (t.confined_dismiss kind (hc child hm).key), fun due hd => ?_⟩
    cases hd
    exact (hc child hm).key
  · rintro t taken r child hm - - ⟨ht, -⟩
    refine ⟨ht.trans (t.confined_turnBack (hc child hm).key), fun due hd => ?_⟩
    cases hd
    exact (hc child hm).key
  · exact ⟨.refl d h s, fun due hd => by cases hd⟩

theorem confined_restore (s : Scene) (G : Grouping) {summary : Notice} (hn : d.Belongs h summary)
    {taken : Schedule} (ht : d.ofKey taken.source = h) :
    s.Confined d h (s.restore G h summary taken) := by
  rcases s.restore_cases G h summary taken with ⟨-, he⟩ | ⟨-, -, he⟩ | ⟨-, -, he⟩
  · rw [he]
    exact .refl d h s
  · rw [he]
    refine (s.confined_modifyRecord (f := fun r => { r with lastForward := none }) ?_).trans
      (confined_move _ hn ht taken.kind)
    exact fun r due hd => .inl hd
  · rw [he]
    refine (s.confined_modifyRecord fun r due hd => ?_).trans
      (confined_write _ fun x hx g hg => ?_)
    · cases hd
      exact .inr ht
    · rw [List.mem_singleton.mp hx]
      simpa [Division.concerns] using Ne.symm hg

theorem confined_handBack (s : Scene) {G : Grouping} (hG : G.Divided d) (now : Nat)
    (group : String) : s.Confined d group (s.handBack G now group) := by
  have htake := s.confined_takeAll fun child hc => hG group child (.inr hc)
  rcases s.handBack_cases G now group with ⟨he, -⟩ | ⟨summary, hs, -, ⟨-, he⟩ | ⟨taken, ht, he⟩⟩
  · rw [he]
    exact .refl d group s
  · rw [he]
    exact htake.1
  · rw [he]
    exact htake.1.trans (confined_restore _ G (hG group summary (.inl hs)) (htake.2 taken ht))

/-! ### Operations -/

/-- Content that was drawn settles the deferral of its notice. -/
theorem confined_rendered (s : Scene) (hn : d.Belongs h n) : s.Confined d h (s.rendered n) := by
  have hclear := s.confined_clearDeferral hn.key
  -- Whatever ends the move is written down under the key of the notice.
  have hwrite : ∀ (t : Scene) {a : Action},
      (a = .reversed n.key ∨ ∃ cause, a = .voided n.key cause) →
        t.Confined d h (t.write [a]) := by
    intro t a ha
    refine t.confined_write fun x hx g hg => ?_
    rw [List.mem_singleton.mp hx]
    rcases ha with rfl | ⟨cause, rfl⟩ <;> simpa [Division.concerns, hn.key] using Ne.symm hg
  rcases s.rendered_cases n with ⟨-, he⟩ | ⟨r, hr, ⟨t, a, ht, ha, he⟩ | ⟨-, -, -, he⟩⟩
  · rw [he]
    exact .refl d h s
  · rw [he]
    rcases ht with rfl | rfl
    · exact hclear.trans (hwrite _ ha)
    · exact (hclear.trans (confined_release _ hn r.kind)).trans (hwrite _ ha)
  · rw [he]
    intro hs
    have hsource : d.ofKey r.source = h := (hs.pending n.key r hr).trans hn.key
    have hdeliver := (s.clearDeferral n.key).confined_deliver hn hsource r.kind
    refine ((hclear.trans hdeliver).trans (confined_write _ fun x hx g hg => ?_)) hs
    split at hx
    · rw [List.mem_singleton.mp hx]
      simpa [Division.concerns, hn.key] using Ne.symm hg
    · cases hx

/-- Handling a change is work in the group that the change is about. -/
theorem confined_handleChange (s : Scene) {G : Grouping} (hG : G.Divided d) (now : Nat)
    (kind : Kind) {c : Change} (hc : ∀ n, c = .raised n → d.Admits n) :
    s.Confined d (d.ofChange c) (s.handleChange G now kind c) := by
  rcases s.handleChange_cases G now kind c with ⟨he, -⟩ | ⟨n, summary, rfl, hs, -, he⟩
  · rw [he]
    exact .refl d _ s
  · rw [he, show d.ofChange (.raised n) = n.group from (hc n rfl).key]
    exact s.confined_forward hG now (hG _ summary (.inl hs)) kind

theorem confined_handleSuppression (s : Scene) {G : Grouping} (hG : G.Divided d) (now : Nat)
    (group : String) (on : Bool) : s.Confined d group (s.handleSuppression G now group on) := by
  rcases s.handleSuppression_cases G now group on with ⟨he, -⟩ | ⟨summary, hs, hcases⟩
  · rw [he]
    exact .refl d group s
  · have hsummary := hG group summary (.inl hs)
    rcases hcases with ⟨-, kind, -, he⟩ | ⟨-, -, -, he⟩ | ⟨-, -, due, hd, ⟨-, he⟩ | ⟨-, he⟩⟩
    · rw [he]
      exact s.confined_forward hG now hsummary kind
    · rw [he]
      exact s.confined_handBack hG now group
    · rw [he]
      exact s.confined_unschedule
    · rw [he]
      intro hdiv
      have hsource := hdiv.schedule group due hd
      exact (s.confined_unschedule.trans (confined_move _ hsummary hsource due.kind)) hdiv

/-- Handling the event of a group is work in that group. -/
theorem confined_handleGroup (s : Scene) {G : Grouping} (hG : G.Divided d) (now : Nat)
    (e : GroupEvent) : s.Confined d e.group (s.handleGroup G now e) := by
  cases e with
  | formed group => exact s.confined_modifyRecord fun r due hd => .inl hd
  | suppression group on => exact s.confined_handleSuppression hG now group on
  | dissolved group => exact s.confined_dissolve

/-- Bringing the announced notices up to date with an event. -/
theorem confined_listing (s : Scene) {e : Event} (he : d.Belongs h e.notice) :
    s.Confined d h (s.listing e) := by
  intro hs
  refine ⟨{ hs with announced := fun key n hn => ?_ }, fun g hg => ⟨?_, .refl d g _⟩⟩
  · by_cases hk : key = e.notice.key
    · subst hk
      cases e with
      | rendered m => exact hs.announced _ n hn
      | announced m =>
          simp only [listing, Event.listed, Event.notice, Std.ExtTreeMap.getElem?_insert_self] at hn
          cases hn
          exact ⟨rfl, he.admits⟩
      | added m | removed m =>
          simp only [listing, Event.listed, Event.notice, Std.ExtTreeMap.getElem?_erase_self] at hn
          cases hn
      | updated m previous =>
          simp only [listing, Event.listed, Event.notice,
            Std.ExtTreeMap.getElem?_modify_self] at hn
          obtain ⟨_, -, rfl⟩ := Option.map_eq_some_iff.mp hn
          exact ⟨rfl, he.admits⟩
    · rw [listing, Event.getElem?_listed_of_ne hk] at hn
      exact hs.announced key n hn
  · refine (Arbiter.Agree.refl d g s.arbiter).withAnnounced fun key hk => ?_
    have hne := Division.ne_of_ofKey he.key hk hg
    rw [Event.getElem?_listed_of_ne hne.symm]

/-- Handling the event of a notice is work in its group. -/
theorem confined_handleEvent (s : Scene) {G : Grouping} (hG : G.Divided d) (now : Nat) {e : Event}
    (he : d.Belongs h e.notice) : s.Confined d h (s.handleEvent G now e) := by
  have hlist := s.confined_listing he
  cases e with
  | announced n =>
      simp only [handleEvent]
      split
      · exact hlist
      · rw [show n.group = h from he.group]
        exact hlist.trans (confined_handBack _ hG now h)
  | added n => exact hlist
  | updated n previous =>
      simp only [handleEvent]
      split
      · exact hlist
      · exact hlist.trans (confined_dropNaming _ he.key .regrouped)
  | removed n => exact hlist.trans (confined_dropNaming _ he.key .removed)
  | rendered n => exact s.confined_rendered he

end Scene
end AlertHandoff
