import AlertHandoff.Proofs.Owner

/-! # One alert in a group

Where only summaries alert and every group has at most one summary key, the arbiter passes one alert
around in a group.  `Sole` is what holds of a group at every moment of that: who may be up or
awaited together with whom.  Less of the alert keeps it (`Sole.less`), and so do the three ways in
which the alert moves: from the summary to the only child (`sole_forward`), from the children back
to the summary (`sole_handBack`), and to a notice whose content has arrived (`sole_rendered`). -/

namespace AlertHandoff

/-- The key is alerting as a heads-up. -/
def Scene.Holds (s : Scene) (key : String) : Prop := s.screen.isUp .headsUp key = true

/-- A live deferral waits for the key. -/
def Scene.Awaits (s : Scene) (key : String) : Prop :=
  ∃ d, s.arbiter.pending[key]? = some d ∧ d.isLive = true

/-- The roster tracks the key. -/
def Roster.Tracks (r : Roster) (key : String) : Prop := ∃ n, r.entries[key]? = some n

/-- The group is suppressed and no child is about to join it. -/
def Sealed (r : Roster) (s : Scene) (g : String) : Prop :=
  r.suppressed g = true ∧ s.arbiter.joining g (r.children g) = []

namespace Cast

/-- Only summaries alert, and a group has at most one summary key. -/
structure Simple (c : Cast) : Prop where
  policy : ∀ key, c.policy key = { scope := .summary }
  head : ∀ {g k k'}, c.place k = ⟨g, .summary⟩ → c.place k' = ⟨g, .summary⟩ → k = k'

/-- What holds of a group whichever of its children are tracked: only tracked keys are awaited, a
summary that is up and awaited alerts alone, and nothing is awaited in quiet mode. -/
structure Loose (c : Cast) (r : Roster) (g : String) (s : Scene) : Prop where
  tracked : ∀ {k}, (c.place k).group = g → s.Awaits k → r.Tracks k
  lone : ∀ {h k}, c.place h = ⟨g, .summary⟩ → c.place k = ⟨g, .child⟩ → s.Holds h → s.Awaits h →
    ¬s.Holds k
  hush : ∀ {k}, (c.place k).group = g → s.arbiter.quiet = true → ¬s.Awaits k

/-- The alert of a group is in one place, apart from an alert of the summary that is about to be
handled.

* `lent`: a child is awaited only on behalf of the summary, while the group is suppressed.
* `sealed`: when the summary is awaited and a tracked child has the alert, the group is sealed and
  no other child alerts.
* `owner`: the summary and a tracked child are up only when the alert is about to move on.
* `sole`: no two tracked children are up. -/
structure Sole (c : Cast) (r : Roster) (g : String) (due : List (Kind × Change)) (s : Scene) : Prop
    extends Loose c r g s where
  lent : ∀ {k d}, c.place k = ⟨g, .child⟩ → s.arbiter.pending[k]? = some d → d.isLive = true →
    r.suppressed g = true ∧ c.place d.source = ⟨g, .summary⟩
  sealed : ∀ {h k}, c.place h = ⟨g, .summary⟩ → c.place k = ⟨g, .child⟩ → s.Awaits h →
    r.Tracks k → s.Holds k ∨ s.Awaits k →
      Sealed r s g ∧ ∀ k', c.place k' = ⟨g, .child⟩ → s.Holds k' → r.Tracks k'
  owner : ∀ {h k}, c.place h = ⟨g, .summary⟩ → c.place k = ⟨g, .child⟩ → s.Holds h →
    r.Tracks k → s.Holds k →
      Sealed r s g ∧ s.arbiter.quiet = false ∧ ∃ n, (.headsUp, .raised n) ∈ due ∧ n.key = h
  sole : ∀ {k k'}, c.place k = ⟨g, .child⟩ → c.place k' = ⟨g, .child⟩ → r.Tracks k →
    r.Tracks k' → s.Holds k → s.Holds k' → k = k'

/-- No tracked child of the group is up or awaited. -/
def Bare (c : Cast) (r : Roster) (g : String) (s : Scene) : Prop :=
  ∀ k, c.place k = ⟨g, .child⟩ → r.Tracks k → ¬s.Holds k ∧ ¬s.Awaits k

variable {c : Cast} {r : Roster} {g : String} {s t : Scene} {due : List (Kind × Change)}

/-! ### Members -/

theorem place_of_admits {n : Notice} (hn : c.Admits n) : c.place n.key = ⟨n.group, n.role⟩ :=
  hn.1.symm

theorem place_of_summary (hr : c.Keeps r) {n : Notice} (hs : r.summary g = some n) :
    c.place n.key = ⟨g, .summary⟩ := by
  obtain ⟨-, ha, hg, hrole⟩ := hr.summary hs
  rw [place_of_admits ha, hg, hrole]

theorem place_of_child (hr : c.Keeps r) {n : Notice} (hn : n ∈ r.children g) :
    c.place n.key = ⟨g, .child⟩ := by
  obtain ⟨-, hg, hrole⟩ := hr.mem_children.mp hn
  rw [place_of_admits (hr.admits_of_mem_children hn), hg, hrole]

theorem tracks_of_child (hr : c.Keeps r) {n : Notice} (hn : n ∈ r.children g) : r.Tracks n.key :=
  ⟨n, (hr.mem_children.mp hn).1⟩

theorem child_of_tracks (hr : c.Keeps r) {k : String} (hk : c.place k = ⟨g, .child⟩)
    (ht : r.Tracks k) : ∃ n ∈ r.children g, n.key = k := by
  obtain ⟨n, hn⟩ := ht
  obtain ⟨rfl, ha⟩ := hr.entry k n hn
  rw [place_of_admits ha] at hk
  exact ⟨n, hr.mem_children.mpr ⟨hn, congrArg Membership.group hk, congrArg Membership.role hk⟩, rfl⟩

theorem eq_of_suppressed (hr : c.Keeps r) (hsup : r.suppressed g = true) {k k' : String}
    (hk : c.place k = ⟨g, .child⟩) (hk' : c.place k' = ⟨g, .child⟩) (ht : r.Tracks k)
    (ht' : r.Tracks k') : k = k' := by
  obtain ⟨a, ha⟩ := List.length_eq_one_iff.mp (Roster.suppressed_iff.mp hsup).2
  obtain ⟨n, hn, rfl⟩ := child_of_tracks hr hk ht
  obtain ⟨n', hn', rfl⟩ := child_of_tracks hr hk' ht'
  rw [ha, List.mem_singleton] at hn hn'
  rw [hn, hn']

/-! ### Less of the alert -/

/-- The second scene has no more alerts and live deferrals in the group. -/
structure Less (c : Cast) (g : String) (s t : Scene) : Prop where
  quiet : t.arbiter.quiet = s.arbiter.quiet
  announced : t.arbiter.announced = s.arbiter.announced
  holds : ∀ {k}, (c.place k).group = g → t.Holds k → s.Holds k
  pending : ∀ {k d}, (c.place k).group = g → t.arbiter.pending[k]? = some d → d.isLive = true →
    s.arbiter.pending[k]? = some d

theorem Less.awaits (h : Less c g s t) {k : String} (hk : (c.place k).group = g)
    (ha : t.Awaits k) : s.Awaits k := by
  obtain ⟨d, hd, hl⟩ := ha
  exact ⟨d, h.pending hk hd hl, hl⟩

theorem group_of_place {k : String} {role : Role} (hk : c.place k = ⟨g, role⟩) :
    (c.place k).group = g :=
  congrArg Membership.group hk

theorem Less.sealed (h : Less c g s t) : Sealed r t g ↔ Sealed r s g := by
  unfold Sealed
  rw [Arbiter.joining_congr h.announced]

theorem Loose.less (hs : Loose c r g s) (h : Less c g s t) : Loose c r g t where
  tracked hk ha := hs.tracked hk (h.awaits hk ha)
  lone hh hk h₁ h₂ h₃ := by
    have gh := group_of_place hh
    have gk := group_of_place hk
    exact hs.lone hh hk (h.holds gh h₁) (h.awaits gh h₂) (h.holds gk h₃)
  hush hk hq ha := hs.hush hk (h.quiet ▸ hq) (h.awaits hk ha)

theorem Sole.less (hs : Sole c r g due s) (h : Less c g s t) : Sole c r g due t where
  toLoose := hs.toLoose.less h
  lent hk hd hl := hs.lent hk (h.pending (group_of_place hk) hd hl) hl
  sealed hh hk h₁ h₂ h₃ := by
    have gk := group_of_place hk
    have h₃' := h₃.imp (h.holds gk) (h.awaits gk)
    obtain ⟨hsl, hall⟩ := hs.sealed hh hk (h.awaits (group_of_place hh) h₁) h₂ h₃'
    exact ⟨h.sealed.mpr hsl, fun k' hk' hu => hall k' hk' (h.holds (group_of_place hk') hu)⟩
  owner hh hk h₁ h₂ h₃ := by
    obtain ⟨hsl, hq, hn⟩ := hs.owner hh hk (h.holds (group_of_place hh) h₁) h₂
      (h.holds (group_of_place hk) h₃)
    exact ⟨h.sealed.mpr hsl, h.quiet.trans hq, hn⟩
  sole hk hk' h₁ h₂ h₃ h₄ :=
    hs.sole hk hk' h₁ h₂ (h.holds (group_of_place hk) h₃) (h.holds (group_of_place hk') h₄)

theorem Sole.mono {due' : List (Kind × Change)} (hs : Sole c r g due s)
    (hd : ∀ x ∈ due, x ∈ due') : Sole c r g due' s where
  toLoose := hs.toLoose
  lent := hs.lent
  sealed := hs.sealed
  owner hh hk h₁ h₂ h₃ := by
    obtain ⟨hsl, hq, n, hn, hkey⟩ := hs.owner hh hk h₁ h₂ h₃
    exact ⟨hsl, hq, n, hd _ hn, hkey⟩
  sole := hs.sole

theorem Sole.any (hs : Sole c r g [] s) (due : List (Kind × Change)) : Sole c r g due s :=
  hs.mono fun _ hx => by cases hx

/-- Work for notices of other groups leaves the alert of a group where it is. -/
theorem less_of_within {P : Notice → Prop} (hw : s.Within P t)
    (hp : ∀ n, P n → (c.place n.key).group ≠ g) : Less c g s t where
  quiet := hw.quiet
  announced := hw.announced
  holds hk hu := by
    rcases hw.up .headsUp _ hu with hu | ⟨n, hn, rfl, -⟩
    · exact hu
    · exact absurd hk (hp n hn)
  pending hk hd hl := by
    rcases hw.live _ _ hd hl with hd | ⟨n, hn, rfl⟩
    · exact hd
    · exact absurd hk (hp n hn)

theorem sole_of_bare (hs : Loose c r g s) (hb : Bare c r g s) : Sole c r g due s where
  toLoose := hs
  lent hk hd hl := by
    have ha : s.Awaits _ := ⟨_, hd, hl⟩
    exact absurd ha (hb _ hk (hs.tracked (group_of_place hk) ha)).2
  sealed _ hk _ h₂ h₃ := by
    rcases h₃ with h₃ | h₃
    · exact absurd h₃ (hb _ hk h₂).1
    · exact absurd h₃ (hb _ hk h₂).2
  owner _ hk _ h₂ h₃ := absurd h₃ (hb _ hk h₂).1
  sole hk _ h₁ _ h₃ _ := absurd h₃ (hb _ hk h₁).1

theorem Bare.less (hb : Bare c r g s) (h : Less c g s t) : Bare c r g t := by
  intro k hk ht
  have gk := group_of_place hk
  exact ⟨fun hu => (hb k hk ht).1 (h.holds gk hu), fun ha => (hb k hk ht).2 (h.awaits gk ha)⟩

theorem ne_of_place {k k' : String} (hk : c.place k = ⟨g, .child⟩)
    (hk' : c.place k' = ⟨g, .summary⟩) : k ≠ k' := by
  rintro rfl
  rw [hk] at hk'
  cases hk'

/-! ### Handing the alert over -/

section bring
variable {n : Notice} {source : String} {kind : Kind} {actions : List Action}

theorem not_awaits_of_shown (h : s.outcome n kind = .shown) :
    ¬((s.deliver n source kind).write actions).Awaits n.key := by
  rintro ⟨d, hd, -⟩
  have hd' : (s.deliver n source kind).arbiter.pending[n.key]? = some d := hd
  rw [Scene.arbiter_deliver, h] at hd'
  simp [Outcome.pending] at hd'

theorem holds_deliver {key : String} (h : ((s.deliver n source kind).write actions).Holds key) :
    s.Holds key ∨ key = n.key ∧ kind = .headsUp ∧ s.outcome n kind = .shown := by
  have hu : (s.deliver n source kind).screen.isUp .headsUp key = true := h
  rw [Scene.isUp_deliver] at hu
  simp only [Bool.or_eq_true, Bool.and_eq_true, beq_iff_eq] at hu
  rcases hu with hu | ⟨⟨hk, rfl⟩, ho⟩
  · exact .inl hu
  · exact .inr ⟨rfl, hk.symm, ho⟩

theorem pending_deliver {key : String} {d : Deferral}
    (h : ((s.deliver n source kind).write actions).arbiter.pending[key]? = some d) :
    s.arbiter.pending[key]? = some d ∨
      key = n.key ∧ d = Deferral.fresh n source kind ∧ s.outcome n kind = .deferred := by
  have hd : (s.deliver n source kind).arbiter.pending[key]? = some d := h
  rw [Scene.arbiter_deliver] at hd
  cases ho : s.outcome n kind with
  | unavailable =>
      rw [ho] at hd
      exact .inl hd
  | shown =>
      rw [ho] at hd
      simp only [Outcome.pending, Std.ExtTreeMap.getElem?_erase] at hd
      split at hd
      · cases hd
      · exact .inl hd
  | deferred =>
      rw [ho] at hd
      simp only [Outcome.pending, Std.ExtTreeMap.getElem?_insert] at hd
      split at hd
      · next hc =>
        cases hd
        exact .inr ⟨(Std.LawfulEqCmp.eq_of_compare hc).symm, rfl, rfl⟩
      · exact .inl hd

theorem awaits_deliver {key : String} (h : ((s.deliver n source kind).write actions).Awaits key) :
    s.Awaits key ∨ key = n.key ∧ s.outcome n kind = .deferred := by
  obtain ⟨d, hd, hl⟩ := h
  rcases pending_deliver hd with hd | ⟨hk, -, ho⟩
  · exact .inl ⟨d, hd, hl⟩
  · exact .inr ⟨hk, ho⟩

theorem kind_of_outcome (ha : s.screen.presenter .ambientPulse = none)
    (ho : s.outcome n kind ≠ .unavailable) : kind = .headsUp := by
  cases kind with
  | headsUp => rfl
  | ambientPulse => exact absurd (Scene.outcome_eq_unavailable_iff.mpr ha) ho

theorem within_deliver_write (s : Scene) (n : Notice) (source : String) (kind : Kind)
    (actions : List Action) : s.Within (· = n) ((s.deliver n source kind).write actions) :=
  (Scene.within_deliver (P := (· = n)) rfl s source kind).trans (Scene.within_write _ _ _)

/-- Handing an alert over to a tracked notice keeps the group loose, if the notice does not wait
while a summary that waits is up together with a child. -/
theorem loose_give (hs : Loose c r g s) (ht : r.Tracks n.key) (hq : s.arbiter.quiet = false)
    (hlone : ∀ {h k}, c.place h = ⟨g, .summary⟩ → c.place k = ⟨g, .child⟩ →
      ((s.deliver n source kind).write actions).Holds h →
      ((s.deliver n source kind).write actions).Awaits h →
      ¬((s.deliver n source kind).write actions).Holds k) :
    Loose c r g ((s.deliver n source kind).write actions) where
  tracked hk ha := by
    obtain ha | ⟨rfl, -⟩ := awaits_deliver ha
    · exact hs.tracked hk ha
    · exact ht
  lone := hlone
  hush _ hq' := by
    rw [(within_deliver_write s n source kind actions).quiet, hq] at hq'
    cases hq'

/-- The same where the alert is handed over to the summary: it suffices that no child is up when
the summary, which is up, has to wait. -/
theorem loose_give_summary (hc : c.Simple) (hs : Loose c r g s)
    (hn : c.place n.key = ⟨g, .summary⟩) (ht : r.Tracks n.key) (hq : s.arbiter.quiet = false)
    (hlone : ∀ {k}, c.place k = ⟨g, .child⟩ → s.Holds n.key → s.outcome n kind = .deferred →
      ¬s.Holds k) : Loose c r g ((s.deliver n source kind).write actions) := by
  refine loose_give hs ht hq ?_
  intro h k hh hk h₁ h₂ h₃
  obtain rfl : h = n.key := hc.head hh hn
  have hu : s.Holds k := by
    obtain h₃ | ⟨hkn, -⟩ := holds_deliver h₃
    · exact h₃
    · exact absurd hkn (ne_of_place hk hn)
  obtain h₁ | ⟨-, -, ho⟩ := holds_deliver h₁
  · obtain h₂ | ⟨-, ho⟩ := awaits_deliver h₂
    · exact hs.lone hh hk h₁ h₂ hu
    · exact hlone hk h₁ ho hu
  · exact not_awaits_of_shown ho h₂

/-- **The alert comes to the summary** and is in one place, if no child had it. -/
theorem sole_bring (hc : c.Simple) (hs : Loose c r g s) (hb : Bare c r g s)
    (hn : c.place n.key = ⟨g, .summary⟩) (ht : r.Tracks n.key) (hq : s.arbiter.quiet = false)
    (ha : s.screen.presenter .ambientPulse = none) (hdown : s.screen.isUp kind n.key = false) :
    Sole c r g due (s.move n source kind) := by
  refine sole_of_bare (loose_give_summary hc hs hn ht hq ?_) ?_
  · intro k _ hu ho
    have hne : s.outcome n kind ≠ .unavailable := by
      rw [ho]
      decide
    rw [kind_of_outcome ha hne] at hdown
    rw [Scene.Holds, hdown] at hu
    cases hu
  · intro k hk htk
    have hne := ne_of_place hk hn
    constructor
    · intro hu
      obtain hu | ⟨hkn, -⟩ := holds_deliver hu
      · exact (hb k hk htk).1 hu
      · exact hne hkn
    · intro ha
      obtain ha | ⟨hkn, -⟩ := awaits_deliver ha
      · exact (hb k hk htk).2 ha
      · exact hne hkn

/-- **The alert comes to the only child** of a suppressed group in the place of the summary, which
is down if the child comes up, and is in one place. -/
theorem sole_give (hc : c.Simple) (hr : c.Keeps r) (hs : Sole c r g [] s)
    (hn : c.place n.key = ⟨g, .child⟩) (ht : r.Tracks n.key) (hsup : r.suppressed g = true)
    (hsource : c.place source = ⟨g, .summary⟩) (hq : s.arbiter.quiet = false)
    (hdown : kind = .headsUp → ¬s.Holds source)
    (hsealed : s.Awaits source → Sealed r s g ∧
      ∀ k, c.place k = ⟨g, .child⟩ → s.Holds k → r.Tracks k) :
    Sole c r g [] ((s.deliver n source kind).write actions) := by
  have hw := within_deliver_write s n source kind actions
  have hold : ∀ {k}, c.place k = ⟨g, .summary⟩ →
      ((s.deliver n source kind).write actions).Holds k → s.Holds k := by
    intro k hk h
    obtain h | ⟨h, -⟩ := holds_deliver h
    · exact h
    · exact absurd h.symm (ne_of_place hn hk)
  have hwait : ∀ {k}, c.place k = ⟨g, .summary⟩ →
      ((s.deliver n source kind).write actions).Awaits k → s.Awaits k := by
    intro k hk h
    obtain h | ⟨h, -⟩ := awaits_deliver h
    · exact h
    · exact absurd h.symm (ne_of_place hn hk)
  -- While the summary is up, no child comes up.
  have hnew : ∀ {h k}, c.place h = ⟨g, .summary⟩ → s.Holds h →
      ((s.deliver n source kind).write actions).Holds k → s.Holds k := by
    intro h k hh hup hk
    obtain hk | ⟨-, hkind, -⟩ := holds_deliver hk
    · exact hk
    · rw [hc.head hh hsource] at hup
      exact absurd hup (hdown hkind)
  refine ⟨loose_give hs.toLoose ht hq ?_, ?_, ?_, ?_, ?_⟩
  · intro h k hh hk h₁ h₂ h₃
    have hup := hold hh h₁
    exact hs.lone hh hk hup (hwait hh h₂) (hnew hh hup h₃)
  · intro k e hk he hl
    obtain he | ⟨-, rfl, -⟩ := pending_deliver he
    · exact hs.lent hk he hl
    · exact ⟨hsup, hsource⟩
  · intro h k hh _ h₁ _ _
    have hwaits := hwait hh h₁
    rw [hc.head hh hsource] at hwaits
    obtain ⟨hsl, hall⟩ := hsealed hwaits
    refine ⟨⟨hsl.1, ?_⟩, ?_⟩
    · rw [Arbiter.joining_congr hw.announced]
      exact hsl.2
    · intro k' hk' hu'
      obtain hu' | ⟨rfl, -⟩ := holds_deliver hu'
      · exact hall k' hk' hu'
      · exact ht
  · intro h k hh hk h₁ h₂ h₃
    have hup := hold hh h₁
    obtain ⟨-, -, m, hm, -⟩ := hs.owner hh hk hup h₂ (hnew hh hup h₃)
    cases hm
  · intro k k' hk hk' ht ht' _ _
    exact eq_of_suppressed hr hsup hk hk' ht ht'

end bring

/-! ### Taking the alert back -/

section back

theorem not_holds_takeAlert {child : Notice} (hp : child.policy.summaryOnly = true) (s : Scene)
    (taken : Option Schedule) : ¬(Scene.takeAlert child s taken).1.Holds child.key := by
  unfold Scene.takeAlert Scene.Holds
  rw [if_pos hp]
  cases hk : s.screen.kindUp? child.key with
  | none =>
      have := List.find?_eq_none.mp hk .headsUp (Kind.mem_all _)
      simpa using this
  | some kind =>
      cases hu : s.screen.isUp .headsUp child.key with
      | false => simp [Scene.dismiss, hu]
      | true =>
          have hfirst : s.screen.kindUp? child.key = some .headsUp := by
            simp [Screen.kindUp?, Kind.all, hu]
          rw [hfirst] at hk
          cases hk
          simp [Scene.dismiss]

theorem not_awaits_takeDeferral (child : Notice) (s : Scene) (taken : Option Schedule) :
    ¬(Scene.takeDeferral child s taken).1.Awaits child.key := by
  unfold Scene.takeDeferral
  rintro ⟨d, hd, hl⟩
  split at hd
  · next hn =>
    rw [hn] at hd
    cases hd
  · next e he =>
    split at hd
    · have hm : (Deferrals.mark s.arbiter.pending child.key true)[child.key]? = some d := hd
      unfold Deferrals.mark at hm
      rw [Std.ExtTreeMap.getElem?_modify, if_pos Std.ReflCmp.compare_self, he] at hm
      cases hm
      cases hl
    · next hne =>
      rw [he] at hd
      cases hd
      exact hne hl

theorem holds_of_within {P : Notice → Prop} (hw : s.Within P t) {k : String}
    (hp : ∀ n, P n → n.key ≠ k) (h : t.Holds k) : s.Holds k := by
  rcases hw.up .headsUp k h with hu | ⟨n, hn, hk, -⟩
  · exact hu
  · exact absurd hk (hp n hn)

theorem awaits_of_within {P : Notice → Prop} (hw : s.Within P t) {k : String}
    (hp : ∀ n, P n → n.key ≠ k) (h : t.Awaits k) : s.Awaits k := by
  obtain ⟨d, hd, hl⟩ := h
  rcases hw.live k d hd hl with hd | ⟨n, hn, hk⟩
  · exact ⟨d, hd, hl⟩
  · exact absurd hk (hp n hn)

theorem not_holds_takeAll {children : List Notice}
    (hp : ∀ n ∈ children, n.policy.summaryOnly = true) (s : Scene) :
    ∀ n ∈ children, ¬(s.takeAll children).1.Holds n.key ∧ ¬(s.takeAll children).1.Awaits n.key := by
  unfold Scene.takeAll
  suffices h : ∀ acc : Scene × Option Schedule, ∀ n ∈ children,
      ¬(children.foldl Scene.takeFrom acc).1.Holds n.key ∧
        ¬(children.foldl Scene.takeFrom acc).1.Awaits n.key from h (s, none)
  induction children with
  | nil => exact fun _ _ hn => by cases hn
  | cons child children ih =>
      intro acc n hn
      have hp' : ∀ n ∈ children, n.policy.summaryOnly = true :=
        fun m hm => hp m (List.mem_cons_of_mem child hm)
      rcases List.mem_cons.mp hn with rfl | hn
      · have hu := not_holds_takeAlert (hp n List.mem_cons_self) acc.1 acc.2
        have ha := not_awaits_takeDeferral n (Scene.takeAlert n acc.1 acc.2).1
          (Scene.takeAlert n acc.1 acc.2).2
        have hu' : ¬(Scene.takeFrom acc n).1.Holds n.key := by
          intro h
          have hw := Scene.within_takeDeferral (fun _ => False) n (Scene.takeAlert n acc.1 acc.2).1
            (Scene.takeAlert n acc.1 acc.2).2
          exact hu (holds_of_within hw (fun _ hf => hf.elim) h)
        have hw := Scene.within_foldl_takeFrom (fun _ => False) (Scene.takeFrom acc n) children
        refine ⟨fun h => hu' ?_, fun h => ha ?_⟩
        · exact holds_of_within hw (fun _ hf => hf.elim) h
        · exact awaits_of_within hw (fun _ hf => hf.elim) h
      · exact ih hp' (Scene.takeFrom acc child) n hn

/-- **The alert goes back to the summary** and is in one place. -/
theorem sole_handBack (hc : c.Simple) (hr : c.Keeps r) (hs : Loose c r g s) {summary : Notice}
    (hsum : r.summary g = some summary) {now : Nat}
    (hm : s.mayHandBack r.grouping now g summary = true)
    (ha : s.screen.presenter .ambientPulse = none) :
    Sole c r g due (s.handBack r.grouping now g) := by
  have hq := (Scene.mayHandBack_iff.mp hm).1
  have hp : ∀ n ∈ r.children g, n.policy.summaryOnly = true := by
    intro n hn
    rw [(hr.admits_of_mem_children hn).2, hc.policy]
    rfl
  have hw := Scene.within_takeAll (fun _ => False) s (r.children g)
  have hless : Less c g s (s.takeAll (r.children g)).1 :=
    less_of_within hw fun _ hf => hf.elim
  have hloose := hs.less hless
  have hbare : Bare c r g (s.takeAll (r.children g)).1 := by
    intro k hk ht
    obtain ⟨n, hn, rfl⟩ := child_of_tracks hr hk ht
    exact not_holds_takeAll hp s n hn
  rcases s.handBack_cases r.grouping now g with ⟨-, hno⟩ | ⟨summary', hs', -, h⟩
  · rw [hno summary hsum] at hm
    cases hm
  · have hs'' : r.summary g = some summary' := hs'
    rw [hsum] at hs''
    cases hs''
    rcases h with ⟨-, he⟩ | ⟨taken, -, he⟩
    · rw [he]
      exact sole_of_bare hloose hbare
    · have hn : c.place summary.key = ⟨g, .summary⟩ := place_of_summary hr hsum
      have ht : r.Tracks summary.key := ⟨summary, (hr.summary hsum).1⟩
      have hq' : (s.takeAll (r.children g)).1.arbiter.quiet = false := hw.quiet.trans hq
      have ha' : (s.takeAll (r.children g)).1.screen.presenter .ambientPulse = none := by
        have := hw.presenter .ambientPulse
        rw [ha] at this
        simpa using this
      rw [he, show r.grouping.children g = r.children g from rfl]
      rcases (s.takeAll (r.children g)).1.restore_cases r.grouping g summary taken with
        ⟨-, hres⟩ | ⟨hdown, -, hres⟩ | ⟨-, -, hres⟩
      · rw [hres]
        exact sole_of_bare hloose hbare
      · rw [hres]
        have hrec : Less c g (s.takeAll (r.children g)).1
            ((s.takeAll (r.children g)).1.modifyRecord g fun r => { r with lastForward := none }) :=
          less_of_within (Scene.within_modifyRecord (fun _ => False) _ _ _) fun _ hf => hf.elim
        exact sole_bring hc (hloose.less hrec) (hbare.less hrec) hn ht hq' ha' hdown
      · rw [hres]
        have hrec : Less c g (s.takeAll (r.children g)).1
            (((s.takeAll (r.children g)).1.modifyRecord g fun _ =>
              { lastForward := none, schedule := some taken }).write
                [.scheduled g taken.kind]) :=
          less_of_within ((Scene.within_modifyRecord (fun _ => False) _ _ _).trans
            (Scene.within_write _ _ _)) fun _ hf => hf.elim
        exact sole_of_bare (hloose.less hrec) (hbare.less hrec)

end back

/-! ### Moving the alert on -/

section forward
variable {summary : Notice} {kind : Kind} {now : Nat}

theorem mayForward_iff {x : Scene} (hr : c.Keeps r) (hsum : r.summary g = some summary) :
    x.mayForward r.grouping summary kind = true ↔
      x.arbiter.quiet = false ∧ Sealed r x g ∧ x.screen.isUp kind summary.key = true := by
  have hg : summary.group = g := (hr.summary hsum).2.2.1
  have hsup : r.grouping.suppressed g = r.suppressed g := rfl
  have hch : r.grouping.children g = r.children g := rfl
  rw [Scene.mayForward_iff, hg, hsup, hch]
  constructor
  · rintro ⟨hq, hs, hu, hj⟩
    exact ⟨hq, ⟨hs, hj⟩, hu⟩
  · rintro ⟨hq, ⟨hs, hj⟩, hu⟩
    exact ⟨hq, hs, hu, hj⟩

/-- **The alert moves to the only child** and is in one place. -/
theorem sole_forward (hc : c.Simple) (hr : c.Keeps r) (hs : Sole c r g due s)
    (ha : s.screen.presenter .ambientPulse = none) (hsum : r.summary g = some summary)
    (hm : s.mayForward r.grouping summary kind = true) (due' : List (Kind × Change)) :
    Sole c r g due' (s.forward r.grouping now summary kind) := by
  obtain ⟨hq, hsl, hu⟩ := (mayForward_iff hr hsum).mp hm
  have hkind : kind = .headsUp := by
    cases kind with
    | headsUp => rfl
    | ambientPulse => simp [Screen.isUp, ha] at hu
  subst hkind
  have hn : c.place summary.key = ⟨g, .summary⟩ := place_of_summary hr hsum
  have hgroup : summary.group = g := (hr.summary hsum).2.2.1
  obtain ⟨only, honly⟩ := List.length_eq_one_iff.mp (Roster.suppressed_iff.mp hsl.1).2
  have honly' : only ∈ r.children g := by
    rw [honly]
    exact List.mem_singleton_self only
  have hheir : Scene.heir? r.grouping summary.group = some only := by
    have hv : only.policy.viaSummary = true := by
      rw [(hr.admits_of_mem_children honly').2, hc.policy]
      rfl
    have hch : r.grouping.children g = [only] := honly
    simp [Scene.heir?, hgroup, hch, hv]
  have hchild : c.place only.key = ⟨g, .child⟩ := place_of_child hr honly'
  rcases s.forward_cases r.grouping now summary .headsUp with ⟨-, hno⟩ | ⟨child, hc', -, he⟩
  · rw [hno hm] at hheir
    cases hheir
  · rw [hheir] at hc'
    cases hc'
    rw [he]
    have hw := (Scene.within_markForward (fun _ => False) s summary only .headsUp now).trans
      (Scene.within_dismiss (fun _ => False) _ .headsUp summary.key)
    generalize hz : (s.markForward summary only .headsUp now).dismiss .headsUp summary.key = z
      at hw
    have hless : Less c g s z := less_of_within hw fun _ hf => hf.elim
    have hdown : ¬z.Holds summary.key := by
      subst hz
      simp [Scene.Holds, Scene.dismiss]
    -- With the summary down, no alert of it has to be handled any more.
    have hz' : Sole c r g [] z := by
      have hs' := hs.less hless
      refine ⟨hs'.toLoose, hs'.lent, hs'.sealed, ?_, hs'.sole⟩
      intro h k hh _ h₁
      rw [hc.head hh hn] at h₁
      exact absurd h₁ hdown
    refine Sole.any (sole_give hc hr hz' hchild (tracks_of_child hr honly') hsl.1 hn
      (hw.quiet.trans hq) (fun _ => hdown) ?_) due'
    intro haw
    have gsum := group_of_place hn
    refine ⟨hless.sealed.mpr hsl, fun k hk hu' => ?_⟩
    have hup : s.Holds k := hless.holds (group_of_place hk) hu'
    exact absurd hup (hs.lone hn hk hu (hless.awaits gsum haw))

end forward

/-! ### Handling the news -/

/-- A change that is no alert of the summary, or finds nothing to move, need not be waited for. -/
theorem Sole.drop {x : Kind × Change} (hs : Sole c r g (x :: due) s)
    (hx : ∀ n, x = (.headsUp, .raised n) → c.place n.key = ⟨g, .summary⟩ → Sealed r s g →
      s.arbiter.quiet = false → ¬s.Holds n.key) : Sole c r g due s where
  toLoose := hs.toLoose
  lent := hs.lent
  sealed := hs.sealed
  owner hh hk h₁ h₂ h₃ := by
    obtain ⟨hsl, hq, n, hn, rfl⟩ := hs.owner hh hk h₁ h₂ h₃
    rcases List.mem_cons.mp hn with hn | hn
    · exact absurd h₁ (hx n hn.symm hh hsl hq)
    · exact ⟨hsl, hq, n, hn, rfl⟩
  sole := hs.sole

theorem sole_handleChange (hc : c.Simple) (hr : c.Keeps r) {x : Kind × Change}
    (hs : Sole c r g (x :: due) s) (hx : ∀ n, x.2 = .raised n → c.Admits n)
    (ha : s.screen.presenter .ambientPulse = none) (now : Nat) :
    Sole c r g due (s.handleChange r.grouping now x.1 x.2) := by
  rcases s.handleChange_cases r.grouping now x.1 x.2 with
    ⟨he, hno⟩ | ⟨n, summary, hn, hsum, hkey, he⟩
  · rw [he]
    apply hs.drop
    rintro n rfl hp hsl - -
    have hadm := hx n rfl
    rw [place_of_admits hadm] at hp
    obtain ⟨hgroup, hrole⟩ := Membership.mk.inj hp
    obtain ⟨⟨summary, hsum⟩, -⟩ := Roster.suppressed_iff.mp hsl.1
    have hhead : n.isHead = true := by simp [Notice.isHead, hrole]
    have hsup : r.grouping.suppressed n.group = true := by
      rw [hgroup]
      exact hsl.1
    have hsum' : r.grouping.summary n.group = some summary := by
      rw [hgroup]
      exact hsum
    refine absurd ?_ (hno n summary rfl hhead hsup hsum')
    have hplace : c.place n.key = ⟨g, .summary⟩ := by rw [place_of_admits hadm, hgroup, hrole]
    exact hc.head (place_of_summary hr hsum) hplace
  · have hsum' : r.summary n.group = some summary := hsum
    have hsg : summary.group = n.group := (hr.summary hsum').2.2.1
    have hplace : c.place n.key = ⟨n.group, .summary⟩ := by
      rw [← hkey]
      exact place_of_summary hr hsum'
    rw [he]
    by_cases hg : n.group = g
    · rw [hg] at hsum' hplace
      cases hm : s.mayForward r.grouping summary x.1 with
      | true => exact sole_forward hc hr hs ha hsum' hm due
      | false =>
          have hstay : s.forward r.grouping now summary x.1 = s := by
            simp [Scene.forward, hm]
          rw [hstay]
          apply hs.drop
          intro n' hx' _ hsl hq hu
          rw [hx'] at hn hm
          cases hn
          have hup : s.screen.isUp .headsUp summary.key = true := by
            rw [hkey]
            exact hu
          have hmay := (mayForward_iff hr hsum').mpr ⟨hq, hsl, hup⟩
          rw [hm] at hmay
          cases hmay
    · have hless : Less c g s (s.forward r.grouping now summary x.1) := by
        refine less_of_within (s.within_forward r.grouping now summary x.1) fun m hm => ?_
        have hm' : m ∈ r.children summary.group := hm
        rw [group_of_place (place_of_child hr hm'), hsg]
        exact hg
      refine (hs.less hless).drop ?_
      intro n' hx' hp
      rw [hx'] at hn
      cases hn
      rw [hplace] at hp
      exact absurd (congrArg Membership.group hp) hg

/-- **Handling the news leaves the alert in one place.** -/
theorem sole_quiesce (hc : c.Simple) (hr : c.Keeps r) (hk : c.Knows s)
    (ha : s.screen.presenter .ambientPulse = none) (hs : Sole c r g s.screen.news s) (now : Nat) :
    Sole c r g [] (s.quiesce r.grouping now) := by
  refine (Scene.quiesce_keeps r.grouping now (I := fun due t => Sole c r g due t ∧ c.Knows t ∧
    (∀ k n, (k, .raised n) ∈ due → c.Admits n) ∧ t.screen.presenter .ambientPulse = none)
    ?_ ?_ ?_ ⟨hs, hk, hk.raised, ha⟩).1
  · intro x xs t ⟨hs, hk, hd, ha⟩
    have hw := t.within_handleChange r.grouping now x.1 x.2
    refine ⟨sole_handleChange hc hr hs ?_ ha now, ?_, ?_, ?_⟩
    · rintro n hn
      refine hd x.1 n ?_
      rw [← hn]
      exact List.mem_cons_self
    · exact hk.within hw fun n ⟨_, hn⟩ => hr.admits_of_mem_children hn
    · exact fun k n hn => hd k n (List.mem_cons_of_mem x hn)
    · have hp := hw.presenter .ambientPulse
      rw [ha] at hp
      simpa using hp
  · intro due t ⟨hs, hk, hd, ha⟩
    refine ⟨hs.less ⟨rfl, rfl, ?_, fun _ h _ => h⟩, hk.read, hd, ?_⟩
    · intro k _ hu
      have hu' : t.screen.read.isUp .headsUp k = true := hu
      rw [Screen.isUp_read] at hu'
      exact hu'
    · rw [show ({ t with screen := t.screen.read } : Scene).screen = t.screen.read from rfl,
        Screen.presenter_read, ha]
      rfl
  · intro t ⟨hs, hk, _, ha⟩
    exact ⟨hs.mono (by simp), hk, hk.raised, ha⟩

/-! ### Content that arrives -/

section rendered
variable {n : Notice} {d : Deferral} {actions : List Action}

theorem sole_deliver_child (hc : c.Simple) (hr : c.Keeps r) (hs : Sole c r g [] s)
    (hn : c.place n.key = ⟨g, .child⟩) (hd : s.arbiter.pending[n.key]? = some d)
    (hl : d.isLive = true) (hq : s.arbiter.quiet = false)
    (hu : s.screen.isUp d.kind d.source = false) :
    Sole c r g [] (((s.clearDeferral n.key).deliver n d.source d.kind).write actions) := by
  have hcl : Less c g s (s.clearDeferral n.key) :=
    less_of_within (Scene.within_clearDeferral (fun _ => False) s n.key) fun _ hf => hf.elim
  have haw : s.Awaits n.key := ⟨d, hd, hl⟩
  have htr : r.Tracks n.key := hs.tracked (group_of_place hn) haw
  obtain ⟨hsup, hsource⟩ := hs.lent hn hd hl
  refine sole_give hc hr (hs.less hcl) hn htr hsup hsource hq ?_ ?_
  · intro hkind hup
    have hup' : s.screen.isUp .headsUp d.source = true := hup
    rw [hkind, hup'] at hu
    cases hu
  · intro hwaits
    have hwaits' := hcl.awaits (group_of_place hsource) hwaits
    obtain ⟨hsl, hall⟩ := hs.sealed hsource hn hwaits' htr (.inr haw)
    exact ⟨hcl.sealed.mpr hsl, hall⟩

theorem sole_deliver_summary (hc : c.Simple) (hs : Sole c r g [] s)
    (hn : c.place n.key = ⟨g, .summary⟩) (hd : s.arbiter.pending[n.key]? = some d)
    (hl : d.isLive = true) (hq : s.arbiter.quiet = false) :
    Sole c r g (((s.clearDeferral n.key).deliver n d.source d.kind).write actions).screen.news
      (((s.clearDeferral n.key).deliver n d.source d.kind).write actions) := by
  have hcl : Less c g s (s.clearDeferral n.key) :=
    less_of_within (Scene.within_clearDeferral (fun _ => False) s n.key) fun _ hf => hf.elim
  have hw := within_deliver_write (s.clearDeferral n.key) n d.source d.kind actions
  have haw : s.Awaits n.key := ⟨d, hd, hl⟩
  have htr : r.Tracks n.key := hs.tracked (group_of_place hn) haw
  have hsealed : ∀ {x : Scene}, x.arbiter.announced = s.arbiter.announced →
      Sealed r s g → Sealed r x g := by
    intro x hx hsl
    refine ⟨hsl.1, ?_⟩
    rw [Arbiter.joining_congr hx]
    exact hsl.2
  have hchild : ∀ {k}, c.place k = ⟨g, .child⟩ →
      (((s.clearDeferral n.key).deliver n d.source d.kind).write actions).Holds k → s.Holds k := by
    intro k hk h
    rcases holds_deliver h with h | ⟨h, -⟩
    · exact h
    · exact absurd h (ne_of_place hk hn)
  have hwait : ∀ {k}, c.place k = ⟨g, .child⟩ →
      (((s.clearDeferral n.key).deliver n d.source d.kind).write actions).Awaits k →
      s.Awaits k := by
    intro k hk h
    rcases awaits_deliver h with h | ⟨h, -⟩
    · exact hcl.awaits (group_of_place hk) h
    · exact absurd h (ne_of_place hk hn)
  have hloose : Loose c r g (((s.clearDeferral n.key).deliver n d.source d.kind).write actions) := by
    refine loose_give_summary hc (hs.toLoose.less hcl) hn htr hq ?_
    intro k hk hup _
    exact hs.lone hn hk hup haw
  refine ⟨hloose, ?_, ?_, ?_, ?_⟩
  · intro k e hk he hle
    rcases pending_deliver he with he | ⟨h, -⟩
    · exact hs.lent hk (hcl.pending (group_of_place hk) he hle) hle
    · exact absurd h (ne_of_place hk hn)
  · intro h k _ hk _ h₂ h₃
    obtain ⟨hsl, hall⟩ := hs.sealed hn hk haw h₂ (h₃.imp (hchild hk) (hwait hk))
    exact ⟨hsealed hw.announced hsl, fun k' hk' hu' => hall k' hk' (hchild hk' hu')⟩
  · intro h k hh hk h₁ h₂ h₃
    obtain rfl : h = n.key := hc.head hh hn
    have hup := hchild hk h₃
    obtain ⟨hsl, -⟩ := hs.sealed hn hk haw h₂ (.inl hup)
    have hquiet : (s.clearDeferral n.key).arbiter.quiet = false := hq
    refine ⟨hsealed hw.announced hsl, hw.quiet.trans hquiet, ?_⟩
    rcases hw.up .headsUp n.key h₁ with h₁ | ⟨m, rfl, -, hm⟩
    · obtain ⟨-, -, m, hm, -⟩ := hs.owner hn hk h₁ h₂ hup
      cases hm
    · exact ⟨m, hm, rfl⟩
  · intro k k' hk hk' ht ht' h₃ h₄
    exact hs.sole hk hk' ht ht' (hchild hk h₃) (hchild hk' h₄)

/-- **The alert comes to a notice whose content has arrived** and is in one place, or the summary
has it and that is in the news. -/
theorem sole_rendered (hc : c.Simple) (hr : c.Keeps r) (hs : Sole c r g [] s) (hn : c.Admits n) :
    Sole c r g (s.rendered n).screen.news (s.rendered n) := by
  by_cases hg : n.group = g
  · rcases s.rendered_cases n with ⟨-, he⟩ | ⟨d, hd, ⟨x, a, hx, -, he⟩ | ⟨hf, hq, hu, he⟩⟩
    · rw [he]
      exact hs.any _
    · have hw : s.Within (fun _ => False) (x.write [a]) := by
        have hcl := Scene.within_clearDeferral (fun _ => False) s n.key
        rcases hx with rfl | rfl
        · exact hcl.trans (Scene.within_write _ _ _)
        · exact (hcl.trans (Scene.within_release _ _ n d.kind)).trans (Scene.within_write _ _ _)
      rw [he]
      exact (hs.less (less_of_within hw fun _ hf => hf.elim)).any _
    · have hl : d.isLive = true := by
        simp only [Deferral.fits, Bool.and_eq_true] at hf
        exact hf.1
      have hplace := place_of_admits hn
      rw [hg] at hplace
      rw [he]
      cases hrole : n.role with
      | child =>
          rw [hrole] at hplace
          exact (sole_deliver_child hc hr hs hplace hd hl hq hu).any _
      | summary =>
          rw [hrole] at hplace
          exact sole_deliver_summary hc hs hplace hd hl hq
  · refine (hs.less (less_of_within (s.within_rendered n) ?_)).any _
    rintro m rfl
    rw [group_of_place (place_of_admits hn)]
    exact hg

end rendered

end Cast
end AlertHandoff
