import AlertHandoff.Proofs.Cases
import AlertHandoff.Session.Quiescence

/-! # What an operation leaves alone

`Scene.Within P s t` says that the scene `t` comes from `s` by work that alerts only for notices
with the property `P`: no other key comes up and no other key gets a live deferral, what comes up
is in the news, and the settings, quiet mode, the announced notices and the presenters stay.  Each
operation works within the members of one group, so what is known of the keys of other groups
stays known. -/

namespace AlertHandoff
namespace Scene

/-- The work that leads from the first scene to the second alerts only for notices with the
property. -/
structure Within (P : Notice → Prop) (s t : Scene) : Prop where
  settings : t.arbiter.settings = s.arbiter.settings
  quiet : t.arbiter.quiet = s.arbiter.quiet
  announced : t.arbiter.announced = s.arbiter.announced
  presenter : ∀ k, (t.screen.presenter k).isSome = (s.screen.presenter k).isSome
  news : ∀ x ∈ s.screen.news, x ∈ t.screen.news
  raised : ∀ k n, (k, .raised n) ∈ t.screen.news → (k, .raised n) ∈ s.screen.news ∨ P n
  up : ∀ k key, t.screen.isUp k key = true → s.screen.isUp k key = true ∨
    ∃ n, P n ∧ n.key = key ∧ (k, .raised n) ∈ t.screen.news
  live : ∀ (key : String) d, t.arbiter.pending[key]? = some d → d.isLive = true →
    s.arbiter.pending[key]? = some d ∨ ∃ n, P n ∧ n.key = key

variable {P Q : Notice → Prop} {s t u : Scene}

namespace Within

theorem refl (P : Notice → Prop) (s : Scene) : Within P s s where
  settings := rfl
  quiet := rfl
  announced := rfl
  presenter _ := rfl
  news _ h := h
  raised _ _ h := .inl h
  up _ _ h := .inl h
  live _ _ h _ := .inl h

theorem trans (h₁ : Within P s t) (h₂ : Within P t u) : Within P s u where
  settings := h₂.settings.trans h₁.settings
  quiet := h₂.quiet.trans h₁.quiet
  announced := h₂.announced.trans h₁.announced
  presenter k := (h₂.presenter k).trans (h₁.presenter k)
  news x hx := h₂.news x (h₁.news x hx)
  raised k n hn := by
    rcases h₂.raised k n hn with hn | hn
    · exact h₁.raised k n hn
    · exact .inr hn
  up k key hk := by
    rcases h₂.up k key hk with hk | hk
    · rcases h₁.up k key hk with hk | ⟨n, hp, he, hn⟩
      · exact .inl hk
      · exact .inr ⟨n, hp, he, h₂.news _ hn⟩
    · exact .inr hk
  live key d hd hl := by
    rcases h₂.live key d hd hl with hd | hd
    · exact h₁.live key d hd hl
    · exact .inr hd

theorem mono (h : Within P s t) (hpq : ∀ n, P n → Q n) : Within Q s t where
  settings := h.settings
  quiet := h.quiet
  announced := h.announced
  presenter := h.presenter
  news := h.news
  raised k n hn := (h.raised k n hn).imp_right (hpq n)
  up k key hk := (h.up k key hk).imp_right fun ⟨n, hp, hn⟩ => ⟨n, hpq n hp, hn⟩
  live key d hd hl := (h.live key d hd hl).imp_right fun ⟨n, hp, hn⟩ => ⟨n, hpq n hp, hn⟩

end Within

/-- Changing nothing but the journal and the records, and taking deferrals away or back, is work
within anything. -/
theorem within_of_books {a : Arbiter} (P : Notice → Prop)
    (hs : a.settings = s.arbiter.settings) (hq : a.quiet = s.arbiter.quiet)
    (ha : a.announced = s.arbiter.announced)
    (hl : ∀ (key : String) d, a.pending[key]? = some d → d.isLive = true →
      s.arbiter.pending[key]? = some d) : Within P s { s with arbiter := a } where
  settings := hs
  quiet := hq
  announced := ha
  presenter _ := rfl
  news _ h := h
  raised _ _ h := .inl h
  up _ _ h := .inl h
  live key d hd hd' := .inl (hl key d hd hd')

theorem within_write (P : Notice → Prop) (s : Scene) (actions : List Action) :
    Within P s (s.write actions) :=
  within_of_books P rfl rfl rfl fun _ _ h _ => h

theorem within_modifyRecord (P : Notice → Prop) (s : Scene) (group : String)
    (f : GroupRecord → GroupRecord) : Within P s (s.modifyRecord group f) :=
  within_of_books P rfl rfl rfl fun _ _ h _ => h

theorem within_unschedule (P : Notice → Prop) (s : Scene) (group : String) :
    Within P s (s.unschedule group) :=
  within_of_books P rfl rfl rfl fun _ _ h _ => h

theorem within_clearDeferral (P : Notice → Prop) (s : Scene) (key : String) :
    Within P s (s.clearDeferral key) :=
  within_of_books P rfl rfl rfl fun _ _ hd _ => getElem?_pending_clearDeferral hd

theorem within_giveUp (P : Notice → Prop) (s : Scene) {a : Arbiter}
    (hs : a.settings = s.arbiter.settings) (hq : a.quiet = s.arbiter.quiet)
    (ha : a.announced = s.arbiter.announced) (p : String → Deferral → Bool) (cause : Cause) :
    Within P s { s with arbiter := a.giveUp (Keyed.extract s.arbiter.pending p) cause } := by
  refine within_of_books P hs hq ha ?_
  intro x d hd _
  simp only [Arbiter.giveUp, Keyed.getElem?_extract_snd, Option.filter_eq_some_iff] at hd
  exact hd.1

/-! ### The screen -/

theorem news_callPresenter_subset {s : Screen} {kind : Kind} {call : Call}
    {effect : Presenter → Presenter}
    (he : ∀ p, s.presenter kind = some p → ∀ c ∈ p.feed, c ∈ (effect p).feed) :
    ∀ x ∈ s.news, x ∈ (s.callPresenter kind call effect).news := by
  rintro ⟨k, c⟩ hx
  obtain ⟨p, hp, hc⟩ := Screen.mem_news.mp hx
  rw [Screen.mem_news]
  simp only [Screen.presenter_callPresenter]
  split
  · next hk =>
    subst hk
    rw [hp]
    exact ⟨effect p, rfl, he p hp c hc⟩
  · exact ⟨p, hp, hc⟩

theorem raised_mem_news_raise {s : Screen} {kind : Kind} {n : Notice}
    (hp : (s.presenter kind).isSome = true) (hu : s.isUp kind n.key = false) :
    (kind, .raised n) ∈ (s.raise kind n).news := by
  obtain ⟨p, hp⟩ := Option.isSome_iff_exists.mp hp
  have hup : p.isUp n.key = false := by
    simpa [Screen.isUp, hp] using hu
  have hr : (s.raise kind n).presenter kind = some (p.raise n) := by
    simp [Screen.raise, Screen.presenter_callPresenter, hp]
  rw [Screen.mem_news]
  refine ⟨p.raise n, hr, ?_⟩
  simp [Presenter.raise, hup]

theorem raised_mem_news_alert {s : Screen} {kind : Kind} {n : Notice}
    (hp : (s.presenter kind).isSome = true) (hu : s.isUp kind n.key = false) :
    (kind, .raised n) ∈ (s.alert kind n).news := by
  unfold Screen.alert
  rw [hu, if_neg (by decide)]
  exact raised_mem_news_raise hp hu

theorem news_raise_subset (s : Screen) (kind : Kind) (n : Notice) :
    ∀ x ∈ s.news, x ∈ (s.raise kind n).news := by
  apply news_callPresenter_subset
  intro p _ c hc
  unfold Presenter.raise
  split
  · exact hc
  · exact List.mem_append_left _ hc

theorem news_update_subset (s : Screen) (kind : Kind) (key : String) (alert : Bool) :
    ∀ x ∈ s.news, x ∈ (s.update kind key alert).news := by
  apply news_callPresenter_subset
  intro p _ c hc
  unfold Presenter.update
  split <;> exact hc

theorem news_dismiss_subset (s : Screen) (kind : Kind) (key : String) :
    ∀ x ∈ s.news, x ∈ (s.dismiss kind key).news := by
  apply news_callPresenter_subset
  intro p _ c hc
  unfold Presenter.dismiss
  split
  · exact List.mem_append_left _ hc
  · exact hc

theorem news_alert_subset (s : Screen) (kind : Kind) (n : Notice) :
    ∀ x ∈ s.news, x ∈ (s.alert kind n).news := by
  unfold Screen.alert
  split
  · exact news_update_subset s kind n.key true
  · exact news_raise_subset s kind n

theorem within_dismiss (P : Notice → Prop) (s : Scene) (kind : Kind) (key : String) :
    Within P s (s.dismiss kind key) where
  settings := rfl
  quiet := rfl
  announced := rfl
  presenter k := by
    simp only [dismiss, Screen.dismiss, Screen.presenter_callPresenter]
    split <;> simp
  news := news_dismiss_subset s.screen kind key
  raised k n hn := by
    rcases Screen.mem_news_dismiss hn with hn | hn
    · exact .inl hn
    · cases hn
  up k x hx := by
    have hx' := hx
    simp only [dismiss, Screen.isUp_dismiss, Bool.and_eq_true] at hx'
    exact .inl hx'.2
  live _ _ h _ := .inl h

/-! ### Deliveries -/

theorem within_deliver {n : Notice} (hn : P n) (s : Scene) (source : String) (kind : Kind) :
    Within P s (s.deliver n source kind) where
  settings := by rw [arbiter_deliver]
  quiet := by rw [arbiter_deliver]
  announced := by rw [arbiter_deliver]
  presenter k := s.isSome_presenter_deliver n source kind k
  news := by
    cases h : s.outcome n kind with
    | unavailable =>
        rw [deliver_of_unavailable h]
        exact fun _ hx => hx
    | shown =>
        rw [deliver_of_shown h]
        exact news_alert_subset s.screen kind n
    | deferred =>
        obtain ⟨p, -, hd⟩ := deliver_of_deferred h source
        rw [hd]
        simp only [defer]
        split <;> exact fun _ hx => hx
  raised k m hm := by
    have hm' : (k, .raised m) ∈ (s.move n source kind).screen.news := hm
    rcases mem_news_move hm' with hm | hm
    · exact .inl hm
    · cases hm
      exact .inr hn
  up k key hk := by
    rw [isUp_deliver] at hk
    cases hs : s.screen.isUp k key with
    | true => exact .inl rfl
    | false =>
        simp only [hs, Bool.false_or, Bool.and_eq_true, beq_iff_eq] at hk
        obtain ⟨⟨rfl, rfl⟩, ho⟩ := hk
        refine .inr ⟨n, hn, rfl, ?_⟩
        rw [deliver_of_shown ho]
        refine raised_mem_news_alert (presenter_of_outcome (n := n) ?_) hs
        rw [ho]
        decide
  live key d hd _ := by
    rw [arbiter_deliver] at hd
    cases h : s.outcome n kind with
    | unavailable =>
        rw [h] at hd
        exact .inl hd
    | shown =>
        rw [h] at hd
        simp only [Outcome.pending, Std.ExtTreeMap.getElem?_erase] at hd
        split at hd
        · cases hd
        · exact .inl hd
    | deferred =>
        rw [h] at hd
        simp only [Outcome.pending, Std.ExtTreeMap.getElem?_insert] at hd
        split at hd
        · next hx => exact .inr ⟨n, hn, Std.LawfulEqCmp.eq_of_compare hx⟩
        · exact .inl hd

theorem within_move {n : Notice} (hn : P n) (s : Scene) (source : String) (kind : Kind) :
    Within P s (s.move n source kind) :=
  (within_deliver hn s source kind).trans (within_write P _ _)

theorem within_markForward (P : Notice → Prop) (s : Scene) (summary child : Notice) (kind : Kind)
    (now : Nat) : Within P s (s.markForward summary child kind now) := by
  unfold markForward
  split
  · exact within_modifyRecord P s _ _
  · exact Within.refl P s

/-- Moving an alert on works within the children of the group. -/
theorem within_forward (s : Scene) (g : Grouping) (now : Nat) (summary : Notice) (kind : Kind) :
    Within (· ∈ g.children summary.group) s (s.forward g now summary kind) := by
  rcases s.forward_cases g now summary kind with ⟨he, -⟩ | ⟨child, hc, -, he⟩
  · rw [he]
    exact Within.refl _ s
  · rw [he]
    have h₁ := within_markForward (· ∈ g.children summary.group) s summary child kind now
    have h₂ := within_dismiss (· ∈ g.children summary.group)
      (s.markForward summary child kind now) kind summary.key
    have hm : child ∈ g.children summary.group := (mem_children_of_heir? hc).1
    exact (h₁.trans h₂).trans (within_move hm _ summary.key kind)

theorem within_turnBack (P : Notice → Prop) (s : Scene) (key : String) :
    Within P s (s.turnBack key) := by
  refine within_of_books P rfl rfl rfl fun x e he hl => ?_
  have he : (s.turnBack key).arbiter.pending[x]? = some e := he
  rw [pending_turnBack] at he
  split at he
  · obtain ⟨_, -, rfl⟩ := Option.map_eq_some_iff.mp he
    cases hl
  · exact he

theorem within_takeAlert (P : Notice → Prop) (child : Notice) (s : Scene)
    (taken : Option Schedule) : Within P s (takeAlert child s taken).1 := by
  rcases takeAlert_cases child s taken with he | ⟨kind, -, he⟩
  · rw [he]
    exact Within.refl P s
  · rw [he]
    exact within_dismiss P s kind child.key

theorem within_takeDeferral (P : Notice → Prop) (child : Notice) (s : Scene)
    (taken : Option Schedule) : Within P s (takeDeferral child s taken).1 := by
  rcases takeDeferral_cases child s taken with he | ⟨d, -, -, he⟩
  · rw [he]
    exact Within.refl P s
  · rw [he]
    exact within_turnBack P s child.key

theorem within_takeFrom (P : Notice → Prop) (acc : Scene × Option Schedule) (child : Notice) :
    Within P acc.1 (takeFrom acc child).1 :=
  (within_takeAlert P child acc.1 acc.2).trans (within_takeDeferral P child _ _)

theorem within_foldl_takeFrom (P : Notice → Prop) : ∀ (acc : Scene × Option Schedule)
    (children : List Notice), Within P acc.1 (children.foldl takeFrom acc).1
  | acc, [] => Within.refl P acc.1
  | acc, child :: children =>
      (within_takeFrom P acc child).trans (within_foldl_takeFrom P (takeFrom acc child) children)

theorem within_takeAll (P : Notice → Prop) (s : Scene) (children : List Notice) :
    Within P s (s.takeAll children).1 :=
  within_foldl_takeFrom P (s, none) children

theorem within_restore {summary : Notice} (hn : P summary) (s : Scene) (g : Grouping)
    (group : String) (taken : Schedule) : Within P s (s.restore g group summary taken) := by
  rcases s.restore_cases g group summary taken with ⟨-, he⟩ | ⟨-, -, he⟩ | ⟨-, -, he⟩
  · rw [he]
    exact Within.refl P s
  · rw [he]
    exact (within_modifyRecord P s group _).trans (within_move hn _ taken.source taken.kind)
  · rw [he]
    exact (within_modifyRecord P s group _).trans (within_write P _ _)

/-- Taking alerts back works within the summary of the group. -/
theorem within_handBack (s : Scene) (g : Grouping) (now : Nat) (group : String) :
    Within (g.summary group = some ·) s (s.handBack g now group) := by
  rcases s.handBack_cases g now group with ⟨he, -⟩ | ⟨summary, hs, -, ⟨-, he⟩ | ⟨taken, -, he⟩⟩
  · rw [he]
    exact Within.refl _ s
  · rw [he]
    exact within_takeAll _ s _
  · rw [he]
    exact (within_takeAll _ s _).trans (within_restore hs _ g group taken)

theorem within_release (P : Notice → Prop) (s : Scene) (n : Notice) (kind : Kind) :
    Within P s (s.release n kind) := by
  unfold release
  split
  · exact Within.refl P s
  · exact ⟨rfl, rfl, rfl, fun k => by cases k <;> rfl, fun _ h => h, fun _ _ h => .inl h,
      fun k key h => .inl (by cases k <;> exact h), fun _ _ h _ => .inl h⟩

/-- Drawn content alerts for the notice it was drawn for. -/
theorem within_rendered (s : Scene) (n : Notice) : Within (· = n) s (s.rendered n) := by
  rcases s.rendered_cases n with ⟨-, he⟩ | ⟨d, -, ⟨t, a, ht, -, he⟩ | ⟨-, -, -, he⟩⟩
  · rw [he]
    exact Within.refl _ s
  · rw [he]
    have hc := within_clearDeferral (· = n) s n.key
    rcases ht with rfl | rfl
    · exact hc.trans (within_write _ _ _)
    · exact (hc.trans (within_release _ _ n d.kind)).trans (within_write _ _ _)
  · rw [he]
    have hc := within_clearDeferral (· = n) s n.key
    have hd : Within (· = n) (s.clearDeferral n.key)
        ((s.clearDeferral n.key).deliver n d.source d.kind) :=
      within_deliver (P := (· = n)) rfl _ d.source d.kind
    exact (hc.trans hd).trans (within_write _ _ _)

/-! ### Operations -/

/-- The notice is the summary of the group or one of its children. -/
def Member (g : Grouping) (group : String) (n : Notice) : Prop :=
  g.summary group = some n ∨ n ∈ g.children group

theorem within_handleChange (s : Scene) (g : Grouping) (now : Nat) (kind : Kind) (c : Change) :
    Within (fun n => ∃ group, n ∈ g.children group) s (s.handleChange g now kind c) := by
  unfold handleChange
  split
  · exact Within.refl _ s
  · split
    · split
      · exact Within.refl _ s
      · split
        · exact (s.within_forward g now _ kind).mono fun _ h => ⟨_, h⟩
        · exact Within.refl _ s
    · exact Within.refl _ s

/-- A change of suppression works within the summary of the group and the children of the group of
the summary. -/
theorem within_suppression (s : Scene) (g : Grouping) (now : Nat) (group : String) (on : Bool) :
    Within (fun n => g.summary group = some n ∨
        ∃ summary, g.summary group = some summary ∧ n ∈ g.children summary.group) s
      (s.handleSuppression g now group on) := by
  rcases s.handleSuppression_cases g now group on with ⟨he, -⟩ | ⟨summary, hs, h⟩
  · rw [he]
    exact Within.refl _ s
  · rcases h with ⟨-, kind, -, he⟩ | ⟨-, -, -, he⟩ | ⟨-, -, due, -, ⟨-, he⟩ | ⟨-, he⟩⟩
    · rw [he]
      exact (s.within_forward g now summary kind).mono fun _ h => .inr ⟨summary, hs, h⟩
    · rw [he]
      exact (s.within_handBack g now group).mono fun _ h => .inl h
    · rw [he]
      exact within_unschedule _ s group
    · rw [he]
      exact (within_unschedule _ s group).trans (within_move (.inl hs) _ due.source due.kind)

/-- Where the summary is in the group, that is within the members of the group. -/
theorem within_handleSuppression (s : Scene) {g : Grouping} (now : Nat) {group : String}
    (hg : ∀ n, g.summary group = some n → n.group = group) (on : Bool) :
    Within (Member g group) s (s.handleSuppression g now group on) := by
  refine (s.within_suppression g now group on).mono ?_
  rintro n (hn | ⟨summary, hs, hn⟩)
  · exact .inl hn
  · rw [hg summary hs] at hn
    exact .inr hn

/-- The event of a group works within its members. -/
theorem within_handleGroup (s : Scene) {g : Grouping} (now : Nat) {e : GroupEvent}
    (hg : ∀ n, g.summary e.group = some n → n.group = e.group) :
    Within (Member g e.group) s (s.handleGroup g now e) := by
  cases e with
  | formed group => exact within_modifyRecord _ s group id
  | suppression group on => exact s.within_handleSuppression now hg on
  | dissolved group => exact within_of_books _ rfl rfl rfl fun _ _ h _ => h

end Scene

/-- The announced notices after an event. -/
def Event.listed (e : Event) (m : Keyed Notice) : Keyed Notice :=
  match e with
  | .announced n => m.insert n.key n
  | .added n | .removed n => m.erase n.key
  | .updated n _ => m.modify n.key fun _ => n
  | .rendered _ => m

theorem Event.getElem?_listed_of_ne {e : Event} {key : String} (h : key ≠ e.notice.key)
    (m : Keyed Notice) : (e.listed m)[key]? = m[key]? := by
  cases e with
  | rendered n => rfl
  | announced n | added n | removed n | updated n previous =>
      have hne : ¬n.key = key := Ne.symm h
      simp [listed, Std.ExtTreeMap.getElem?_insert, Std.ExtTreeMap.getElem?_erase,
        Std.ExtTreeMap.getElem?_modify, hne]

namespace Scene

/-- The scene in which the announced notices are those after an event. -/
def listing (s : Scene) (e : Event) : Scene :=
  { s with arbiter := { s.arbiter with announced := e.listed s.arbiter.announced } }

/-- Once the announced notices are brought up to date, an event works within its notice and the
summary of the group of its notice. -/
theorem within_handleEvent (s : Scene) (g : Grouping) (now : Nat) (e : Event) :
    Within (fun n => n = e.notice ∨ g.summary e.notice.group = some n) (s.listing e)
      (s.handleEvent g now e) := by
  cases e with
  | announced n =>
      simp only [handleEvent]
      split
      · exact Within.refl _ _
      · exact (within_handBack (s.listing (.announced n)) g now n.group).mono fun _ h => .inr h
  | added n => exact Within.refl _ _
  | updated n previous =>
      simp only [handleEvent]
      split
      · exact Within.refl _ _
      · exact within_giveUp _ (s.listing (.updated n previous)) rfl rfl rfl _ _
  | removed n => exact within_giveUp _ (s.listing (.removed n)) rfl rfl rfl _ _
  | rendered n => exact (s.within_rendered n).mono fun _ h => .inl h

/-- No operation changes the settings. -/
theorem settings_perform (s : Scene) (g : Grouping) (now : Nat) (o : Operation) :
    (s.perform g now o).arbiter.settings = s.arbiter.settings := by
  cases o with
  | event e => exact (s.within_handleEvent g now e).settings
  | groupEvent e =>
      cases e with
      | formed group | dissolved group => rfl
      | suppression group on => exact (s.within_suppression g now group on).settings
  | suppression group on => exact (s.within_suppression g now group on).settings
  | change kind c => exact (s.within_handleChange g now kind c).settings
  | rendered n => exact (s.within_rendered n).settings
  | removed n | regrouped n => rfl
  | quiet on => exact Arbiter.settings_setQuiet s.arbiter on

end Scene
end AlertHandoff
