import AlertHandoff.Proofs.Ledger
import AlertHandoff.Proofs.Record
import AlertHandoff.Proofs.Takings
import AlertHandoff.Proofs.Voicing

/-! # No alert is lost

Whoever gives up an alert does so for somebody else.  `Scene.Releases` says of an operation which
alerts it takes down and which moves it takes back, and that there are no others.  There are two
ways in which it releases any: a summary lets go of its alert for a child, or children let go of
theirs for the summary.  In both the notice for which the last one is released has that alert
afterwards, or waits for it, or it is scheduled (`no_alert_is_lost`). -/

namespace AlertHandoff

/-- The kind and the key whose alert a call takes down. -/
def Call.dismissal? : Call → Option (Kind × String)
  | .dismiss kind key => some (kind, key)
  | .raise .. | .update .. | .request .. | .release .. => none

namespace Taking

/-- The kind and the key whose alert is taken. -/
def alert? : Taking → Option (Kind × String)
  | .alert kind key => some (kind, key)
  | .move .. => none

end Taking

namespace Scene
variable {s t u : Scene} {a b : List Taking} {g : Grouping} {now : Nat} {kind : Kind}
  {group : String} {n summary : Notice}

/-! ### What is released -/

/-- Between the two scenes this is released, in this order, and nothing else: the calls that take
alerts down are those for the alerts that are released, no other key goes down, and no other move is
taken back. -/
structure Releases (s t : Scene) (released : List Taking) : Prop where
  calls : ∃ made, t.screen.calls = s.screen.calls ++ made ∧
    made.filterMap Call.dismissal? = released.filterMap Taking.alert?
  down : ∀ kind key, s.screen.isUp kind key = true → t.screen.isUp kind key = false →
    .alert kind key ∈ released
  reversed : ∀ (key : String) d, t.arbiter.pending[key]? = some d → d.isReversed = true →
    s.arbiter.pending[key]? = some d ∨ ∃ kind, .move kind key ∈ released

theorem Releases.refl (s : Scene) : s.Releases s [] where
  calls := ⟨[], (List.append_nil _).symm, rfl⟩
  down kind key hup hdown := by
    rw [hup] at hdown
    cases hdown
  reversed _ _ hd _ := .inl hd

theorem Releases.trans (h : s.Releases t a) (h' : t.Releases u b) : s.Releases u (a ++ b) where
  calls := by
    obtain ⟨made, hm, hd⟩ := h.calls
    obtain ⟨more, hn, he⟩ := h'.calls
    refine ⟨made ++ more, by rw [hn, hm, List.append_assoc], ?_⟩
    rw [List.filterMap_append, List.filterMap_append, hd, he]
  down kind key hup hdown := by
    cases ht : t.screen.isUp kind key with
    | false => exact List.mem_append_left _ (h.down kind key hup ht)
    | true => exact List.mem_append_right _ (h'.down kind key ht hdown)
  reversed key d hd hr := by
    rcases h'.reversed key d hd hr with hd | ⟨kind, hm⟩
    · exact (h.reversed key d hd hr).imp_right fun ⟨kind, hm⟩ =>
        ⟨kind, List.mem_append_left _ hm⟩
    · exact .inr ⟨kind, List.mem_append_right _ hm⟩

theorem Releases.before (h : s.Releases t []) (h' : t.Releases u a) : s.Releases u a :=
  h.trans h'

theorem Releases.after (h : s.Releases t a) (h' : t.Releases u []) : s.Releases u a := by
  simpa using h.trans h'

theorem releases_of_screen (hs : t.screen = s.screen)
    (hp : ∀ (key : String) d, t.arbiter.pending[key]? = some d → d.isReversed = true →
      s.arbiter.pending[key]? = some d) : s.Releases t [] where
  calls := ⟨[], by rw [hs, List.append_nil], rfl⟩
  down kind key hup hdown := by
    rw [hs, hup] at hdown
    cases hdown
  reversed key d hd hr := .inl (hp key d hd hr)

theorem releases_of_pending (hs : t.screen = s.screen)
    (hp : t.arbiter.pending = s.arbiter.pending) : s.Releases t [] :=
  releases_of_screen hs fun _ _ hd _ => hp ▸ hd

theorem releases_write (s : Scene) (actions : List Action) : s.Releases (s.write actions) [] :=
  releases_of_pending rfl rfl

theorem releases_clearDeferral (s : Scene) (key : String) : s.Releases (s.clearDeferral key) [] :=
  releases_of_screen rfl fun _ _ hd _ => getElem?_pending_clearDeferral hd

theorem releases_giveUp (a : Arbiter) (p : String → Deferral → Bool) (cause : Cause) :
    s.Releases { s with arbiter := a.giveUp (Keyed.extract s.arbiter.pending p) cause } [] :=
  releases_of_screen rfl fun key d hd _ => by
    simp only [Arbiter.giveUp, Keyed.getElem?_extract_snd, Option.filter_eq_some_iff] at hd
    exact hd.1

theorem releases_of_call (call : Call) (hcall : call.dismissal? = none)
    (hc : t.screen.calls = s.screen.calls ++ [call])
    (hup : ∀ kind key, s.screen.isUp kind key = true → t.screen.isUp kind key = true)
    (hp : ∀ (key : String) d, t.arbiter.pending[key]? = some d → d.isReversed = true →
      s.arbiter.pending[key]? = some d) : s.Releases t [] where
  calls := ⟨[call], hc, by simp [hcall]⟩
  down kind key hs ht := by
    rw [hup kind key hs] at ht
    cases ht
  reversed key d hd hr := .inl (hp key d hd hr)

theorem releases_release (s : Scene) (n : Notice) (kind : Kind) :
    s.Releases (s.release n kind) [] := by
  unfold release
  cases s.screen.presenter kind with
  | none => exact Releases.refl s
  | some p =>
      refine releases_of_call (.release n.row p.flag) rfl rfl (fun k key hup => ?_)
        fun _ _ hd _ => hd
      rw [← hup]
      cases k <;> rfl

theorem releases_deliver (s : Scene) (n : Notice) (source : String) (kind : Kind) :
    s.Releases (s.deliver n source kind) [] := by
  cases ho : s.outcome n kind with
  | unavailable =>
      rw [deliver_of_unavailable ho]
      exact Releases.refl s
  | shown =>
      have hne : s.outcome n kind ≠ .unavailable := by
        rw [ho]
        decide
      have hcalls := Screen.calls_alert (presenter_of_outcome hne) n
      have hup : ∀ k key, s.screen.isUp k key = true →
          (s.screen.alert kind n).isUp k key = true := fun k key h => by simp [h]
      rw [deliver_of_shown ho]
      refine (releases_clearDeferral s n.key).before
        (releases_of_call _ ?_ hcalls hup fun _ _ hd _ => hd)
      split <;> rfl
  | deferred =>
      obtain ⟨p, -, hd⟩ := deliver_of_deferred ho source
      have hpending : ∀ (key : String) d,
          (s.defer n source kind p.flag).arbiter.pending[key]? = some d → d.isReversed = true →
          s.arbiter.pending[key]? = some d := by
        intro key d hd hr
        simp only [defer, Std.ExtTreeMap.getElem?_insert] at hd
        split at hd
        · cases hd
          cases hr
        · exact hd
      rw [hd]
      by_cases hasks : s.arbiter.settings.asksForContent = true
      · have hscreen : (s.defer n source kind p.flag).screen = s.screen.request n.row p.flag :=
          if_pos hasks
        refine releases_of_call (.request n.row p.flag) rfl ?_ (fun k key hup => ?_) hpending
        · rw [hscreen]
          rfl
        · rw [hscreen, ← hup]
          cases k <;> rfl
      · exact releases_of_screen (if_neg hasks) hpending

theorem releases_move (s : Scene) (n : Notice) (source : String) (kind : Kind) :
    s.Releases (s.move n source kind) [] :=
  (s.releases_deliver n source kind).after (releases_write _ _)

/-! ### Taking releases what is taken -/

/-- It is there to be taken. -/
def Has (s : Scene) : Taking → Prop
  | .alert kind key => s.screen.isUp kind key = true
  | .move kind key => ∃ d, s.arbiter.pending[key]? = some d ∧ d.isLive = true ∧ d.kind = kind

theorem releases_take : ∀ {x : Taking}, s.Has x → s.Releases (s.take x) [x]
  | .alert kind key, h => by
      have hp := Screen.isSome_presenter_of_isUp h
      refine ⟨⟨[.dismiss kind key], ?_, rfl⟩, fun k x hup hdown => ?_, fun _ _ hd _ => .inl hd⟩
      · show (s.screen.dismiss kind key).calls = _
        rw [Screen.dismiss, Screen.calls_callPresenter, if_pos hp]
      · have hdown' : (s.screen.dismiss kind key).isUp k x = false := hdown
        rw [Screen.isUp_dismiss, hup, Bool.and_true, Bool.not_eq_false', Bool.and_eq_true,
          beq_iff_eq, beq_iff_eq] at hdown'
        rw [hdown'.1, hdown'.2]
        exact List.mem_cons_self
  | .move kind key, _ => by
      refine ⟨⟨[], (List.append_nil _).symm, rfl⟩, fun k x hup hdown => ?_, fun k d hd _ => ?_⟩
      · have hdown' : s.screen.isUp k x = false := hdown
        rw [hup] at hdown'
        cases hdown'
      · have hd' : (s.turnBack key).arbiter.pending[k]? = some d := hd
        rw [pending_turnBack] at hd'
        split at hd'
        · next hk => exact .inr ⟨kind, by rw [hk]; exact List.mem_cons_self⟩
        · exact .inl hd'

theorem has_of_take : ∀ {x y : Taking}, (s.take y).Has x → s.Has x
  | .alert k x, .alert kind key, h => by
      have hup : (s.screen.dismiss kind key).isUp k x = true := h
      rw [Screen.isUp_dismiss, Bool.and_eq_true] at hup
      exact hup.2
  | .alert _ _, .move _ _, h => h
  | .move _ _, .alert _ _, h => h
  | .move k x, .move kind key, ⟨d, hd, hl, hk⟩ => by
      have hd' : (s.turnBack key).arbiter.pending[x]? = some d := hd
      rw [pending_turnBack] at hd'
      split at hd'
      · obtain ⟨d', -, rfl⟩ := Option.map_eq_some_iff.mp hd'
        cases hl
      · exact ⟨d, hd', hl, hk⟩

theorem has_of_foldl_take {x : Taking} : ∀ {xs : List Taking} {s : Scene},
    (xs.foldl take s).Has x → s.Has x
  | [], _, h => h
  | _ :: _, _, h => has_of_take (has_of_foldl_take h)

theorem has_of_mem_alertOf {c : Notice} {x : Taking} (hx : x ∈ s.alertOf c) : s.Has x := by
  unfold alertOf at hx
  split at hx
  · obtain ⟨kind, hk, rfl⟩ := Option.map_eq_some_iff.mp hx
    exact Screen.isUp_of_kindUp? hk
  · cases hx

theorem has_of_mem_moveTo {c : Notice} {x : Taking} (hx : x ∈ s.moveTo c) : s.Has x := by
  obtain ⟨d, hd, rfl⟩ := Option.map_eq_some_iff.mp hx
  obtain ⟨hd, hl⟩ := Option.filter_eq_some_iff.mp hd
  exact ⟨d, hd, hl, rfl⟩

/-- All that is taken was there to be taken. -/
theorem has_of_mem_takings {x : Taking} : ∀ {cs : List Notice} {s : Scene},
    x ∈ s.takings cs → s.Has x
  | [], _, hx => by cases hx
  | c :: cs, s, hx => by
      rcases List.mem_append.mp hx with hx | hx
      · rcases List.mem_append.mp hx with hx | hx
        · exact has_of_mem_alertOf (Option.mem_toList.mp hx)
        · exact has_of_mem_moveTo (Option.mem_toList.mp hx)
      · exact has_of_foldl_take (has_of_mem_takings hx)

theorem releases_option {o : Option Taking} (h : ∀ x ∈ o, s.Has x) :
    s.Releases (o.toList.foldl take s) o.toList := by
  cases o with
  | none => exact Releases.refl s
  | some x => exact releases_take (h x rfl)

theorem releases_takings : ∀ (cs : List Notice) (s : Scene),
    s.Releases ((s.takings cs).foldl take s) (s.takings cs)
  | [], s => Releases.refl s
  | c :: cs, s => by
      have halert : s.Releases ((s.alertOf c).toList.foldl take s) (s.alertOf c).toList :=
        releases_option fun x hx => has_of_mem_alertOf hx
      have hmove := releases_option (s := (s.alertOf c).toList.foldl take s)
        fun x (hx : x ∈ ((s.alertOf c).toList.foldl take s).moveTo c) => has_of_mem_moveTo hx
      have hfrom := halert.trans hmove
      rw [← foldl_takingsFrom] at hfrom
      have hsame : (s.alertOf c).toList ++ (((s.alertOf c).toList.foldl take s).moveTo c).toList =
          s.takingsFrom c := by
        simp only [takingsFrom, moveTo, arbiter_alertOf]
      rw [hsame] at hfrom
      rw [takings, List.foldl_append]
      exact hfrom.trans (releases_takings cs _)

/-- The scenes have the same screen, and the same moves wait. -/
def Matches (s t : Scene) : Prop :=
  t.screen = s.screen ∧ t.arbiter.pending = s.arbiter.pending

theorem Matches.take (h : s.Matches t) : ∀ x : Taking, (s.take x).Matches (t.take x)
  | .alert kind key => ⟨congrArg (·.dismiss kind key) h.1, h.2⟩
  | .move _ key => ⟨h.1, congrArg (Deferrals.mark · key true) h.2⟩

theorem Matches.foldl_take : ∀ (xs : List Taking) {s t : Scene}, s.Matches t →
    (xs.foldl Scene.take s).Matches (xs.foldl Scene.take t)
  | [], _, _, h => h
  | x :: xs, _, _, h => Matches.foldl_take xs (h.take x)

/-- What is taken depends on the screen and the moves that wait alone. -/
theorem Matches.takings : ∀ (cs : List Notice) {s t : Scene}, s.Matches t →
    t.takings cs = s.takings cs
  | [], _, _, _ => rfl
  | c :: cs, s, t, h => by
      have hfrom : t.takingsFrom c = s.takingsFrom c := by
        simp only [takingsFrom, alertOf, moveTo, h.1, h.2]
      rw [Scene.takings, Scene.takings, hfrom, Matches.takings cs (h.foldl_take _)]

/-! ### Nothing is lost -/

/-- The notice has an alert of the kind, or a live move of one waits for its content. -/
def Secures (s : Scene) (n : Notice) (kind : Kind) : Prop :=
  s.screen.isUp kind n.key = true ∨
    ∃ d, s.arbiter.pending[n.key]? = some d ∧ d.isLive = true ∧ d.kind = kind

/-- Between the two scenes nothing is released; or the alert of a summary is, and the child for
which it is released is secured; or something is taken from the children, and the summary is secured
or the last of it scheduled for the summary, as it was taken. -/
inductive GivesOn (s : Scene) (g : Grouping) (t : Scene) : Prop
  | nothing (h : s.Releases t [])
  | forward (group : String) (summary child : Notice) (kind : Kind)
      (hs : g.summary group = some summary) (hc : heir? g summary.group = some child)
      (h : s.Releases t [.alert kind summary.key]) (hup : s.screen.isUp kind summary.key = true)
      (secured : t.Secures child kind)
  | back (group : String) (summary : Notice) (last : Taking)
      (hs : g.summary group = some summary) (h : s.Releases t (s.takings (g.children group)))
      (hlast : (s.takings (g.children group)).getLast? = some last)
      (secured : t.Secures summary last.schedule.kind ∨
        (t.arbiter.record group).schedule = some last.schedule)

/-- **Handing an alert over secures the notice**, where there is a presenter. -/
theorem secures_move (hp : (s.screen.presenter kind).isSome = true) (n : Notice) (source : String) :
    (s.move n source kind).Secures n kind := by
  cases ho : s.outcome n kind with
  | unavailable =>
      rw [outcome_eq_unavailable_iff] at ho
      rw [ho] at hp
      cases hp
  | shown =>
      refine .inl ?_
      show (s.deliver n source kind).screen.isUp kind n.key = true
      rw [isUp_deliver, ho]
      simp
  | deferred =>
      refine .inr ⟨Deferral.fresh n source kind, ?_, rfl, rfl⟩
      show (s.deliver n source kind).arbiter.pending[n.key]? = _
      rw [arbiter_deliver, ho]
      simp [Outcome.pending]

theorem givesOn_forward (hs : g.summary group = some summary) (s : Scene) (now : Nat)
    (kind : Kind) : GivesOn s g (s.forward g now summary kind) := by
  rcases s.forward_cases g now summary kind with ⟨he, -⟩ | ⟨child, hc, hmay, he⟩
  · rw [he]
    exact .nothing (Releases.refl s)
  · have hup := (mayForward_iff.mp hmay).2.2.1
    have hmark : s.Releases (s.markForward summary child kind now) [] := by
      refine releases_of_pending (screen_markForward s summary child kind now) ?_
      rw [arbiter_markForward]
    have hup' : (s.markForward summary child kind now).Has (.alert kind summary.key) := by
      show (s.markForward summary child kind now).screen.isUp kind summary.key = true
      rw [screen_markForward]
      exact hup
    have hdismiss := hmark.before (releases_take hup')
    rw [he]
    refine .forward group summary child kind hs hc (hdismiss.after (releases_move _ _ _ _)) hup
      (secures_move ?_ child summary.key)
    rw [isSome_presenter_dismiss]
    exact Screen.isSome_presenter_of_isUp hup'

theorem isSome_presenter_of_has (hserved : s.Served) : ∀ {x : Taking}, s.Has x →
    (s.screen.presenter x.schedule.kind).isSome = true
  | .alert _ _, h => Screen.isSome_presenter_of_isUp h
  | .move _ key, ⟨d, hd, _, hk⟩ => by
      have hw := hserved key (d.source, d.kind) (by rw [getElem?_waiting, hd]; rfl)
      rwa [hk] at hw

theorem isSome_presenter_take (s : Scene) (k : Kind) : ∀ x : Taking,
    ((s.take x).screen.presenter k).isSome = (s.screen.presenter k).isSome
  | .alert kind key => s.isSome_presenter_dismiss kind k key
  | .move _ _ => rfl

theorem isSome_presenter_foldl_take (k : Kind) : ∀ (xs : List Taking) (s : Scene),
    ((xs.foldl take s).screen.presenter k).isSome = (s.screen.presenter k).isSome
  | [], _ => rfl
  | x :: xs, s => (isSome_presenter_foldl_take k xs (s.take x)).trans (s.isSome_presenter_take k x)

/-- What was taken is given to the summary, or scheduled for it, and nothing more is released. -/
theorem restore_secures {taken : Schedule} (hp : (s.screen.presenter taken.kind).isSome = true)
    (g : Grouping) (group : String) (summary : Notice) :
    s.Releases (s.restore g group summary taken) [] ∧
      ((s.restore g group summary taken).Secures summary taken.kind ∨
        ((s.restore g group summary taken).arbiter.record group).schedule = some taken) := by
  have hrecord : ∀ f, s.Releases (s.modifyRecord group f) [] := fun f =>
    releases_of_pending rfl rfl
  rcases s.restore_cases g group summary taken with ⟨hup, he⟩ | ⟨-, -, he⟩ | ⟨-, -, he⟩
  · rw [he]
    exact ⟨Releases.refl s, .inl (.inl hup)⟩
  · rw [he]
    exact ⟨(hrecord _).before (releases_move _ _ _ _),
      .inl (secures_move (s := s.modifyRecord group _) hp summary taken.source)⟩
  · rw [he]
    refine ⟨(hrecord _).before (releases_write _ _), .inr ?_⟩
    have hnow := s.record_modifyRecord group group fun _ =>
      { lastForward := none, schedule := some taken }
    rw [if_pos rfl] at hnow
    exact congrArg GroupRecord.schedule hnow

theorem givesOn_handBack (hserved : s.Served) (g : Grouping) (now : Nat) (group : String) :
    GivesOn s g (s.handBack g now group) := by
  have hreleases := releases_takings (g.children group) s
  rcases s.handBack_cases g now group with
    ⟨he, -⟩ | ⟨summary, hs, -, ⟨hnone, he⟩ | ⟨taken, hsome, he⟩⟩
  · rw [he]
    exact .nothing (Releases.refl s)
  · rw [takeAll_eq] at hnone he
    have hnil : s.takings (g.children group) = [] := by simpa using hnone
    rw [he, hnil]
    exact .nothing (Releases.refl s)
  · rw [takeAll_eq] at hsome he
    obtain ⟨last, hlast, rfl⟩ := Option.map_eq_some_iff.mp hsome
    have hhas := has_of_mem_takings (List.mem_of_getLast? hlast)
    have hp := isSome_presenter_of_has hserved hhas
    rw [← isSome_presenter_foldl_take _ (s.takings (g.children group))] at hp
    obtain ⟨hrestore, hsecured⟩ := restore_secures hp g group summary
    rw [he]
    exact .back group summary last hs (hreleases.after hrestore) hlast hsecured

/-- The books may change before, except for the moves that wait. -/
theorem GivesOn.before (h : GivesOn u g t) (hu : s.Matches u) : GivesOn s g t := by
  have hnothing : s.Releases u [] := releases_of_pending hu.1 hu.2
  cases h with
  | nothing h => exact .nothing (hnothing.before h)
  | forward group summary child kind hsum hc h hup secured =>
      exact .forward group summary child kind hsum hc (hnothing.before h) (hu.1 ▸ hup) secured
  | back group summary last hsum h hlast secured =>
      rw [hu.takings] at h hlast
      exact .back group summary last hsum (hnothing.before h) hlast secured

/-- Content that has been drawn takes no alert down and no move back. -/
theorem releases_rendered (s : Scene) (n : Notice) : s.Releases (s.rendered n) [] := by
  have hclear := releases_clearDeferral s n.key
  rcases s.rendered_cases n with ⟨-, he⟩ | ⟨d, -, ⟨t, a, ht, -, he⟩ | ⟨-, -, -, he⟩⟩
  · rw [he]
    exact Releases.refl s
  · rw [he]
    rcases ht with rfl | rfl
    · exact hclear.after (releases_write _ _)
    · exact (hclear.after (releases_release _ _ _)).after (releases_write _ _)
  · rw [he]
    exact (hclear.after (releases_deliver _ _ _ _)).after (releases_write _ _)

theorem givesOn_handleSuppression (hserved : s.Served) (g : Grouping) (now : Nat) (group : String)
    (on : Bool) : GivesOn s g (s.handleSuppression g now group on) := by
  rcases s.handleSuppression_cases g now group on with ⟨he, -⟩ | ⟨summary, hs, h⟩
  · rw [he]
    exact .nothing (Releases.refl s)
  · have hdrop : s.Releases (s.unschedule group) [] := releases_of_pending rfl rfl
    rcases h with ⟨-, kind, -, he⟩ | ⟨-, -, -, he⟩ | ⟨-, -, due, -, ⟨-, he⟩ | ⟨-, he⟩⟩
    · rw [he]
      exact givesOn_forward hs s now kind
    · rw [he]
      exact givesOn_handBack hserved g now group
    · rw [he]
      exact .nothing hdrop
    · rw [he]
      exact .nothing (hdrop.before (releases_move _ _ _ _))

theorem givesOn_handleEvent (hserved : s.Served) (g : Grouping) (now : Nat) (e : Event) :
    GivesOn s g (s.handleEvent g now e) := by
  cases e with
  | added n => exact .nothing (releases_of_pending rfl rfl)
  | removed n => exact .nothing (releases_giveUp (s.arbiter.added n) _ .removed)
  | rendered n => exact .nothing (s.releases_rendered n)
  | updated n previous =>
      simp only [handleEvent]
      split
      · exact .nothing (releases_of_pending rfl rfl)
      · exact .nothing (releases_giveUp (s.arbiter.refresh n) _ .regrouped)
  | announced n =>
      simp only [handleEvent]
      split
      · exact .nothing (releases_of_pending rfl rfl)
      · exact (givesOn_handBack (s := { s with arbiter := s.arbiter.announce n }) hserved g now
          n.group).before ⟨rfl, rfl⟩

/-- **Every operation gives on what it releases.** -/
theorem givesOn_perform (hserved : s.Served) (g : Grouping) (now : Nat) (o : Operation) :
    GivesOn s g (s.perform g now o) := by
  cases o with
  | event e => exact givesOn_handleEvent hserved g now e
  | suppression group on => exact givesOn_handleSuppression hserved g now group on
  | rendered n => exact .nothing (s.releases_rendered n)
  | removed n => exact .nothing (releases_giveUp (s.arbiter.added n) _ .removed)
  | regrouped n => exact .nothing (releases_giveUp s.arbiter _ .regrouped)
  | groupEvent e =>
      cases e with
      | suppression group on => exact givesOn_handleSuppression hserved g now group on
      | formed group | dissolved group => exact .nothing (releases_of_pending rfl rfl)
  | change kind c =>
      rcases s.handleChange_cases g now kind c with ⟨he, -⟩ | ⟨n, summary, -, hs, -, he⟩
      · show GivesOn s g (s.handleChange g now kind c)
        rw [he]
        exact .nothing (Releases.refl s)
      · show GivesOn s g (s.handleChange g now kind c)
        rw [he]
        exact givesOn_forward hs s now kind
  | quiet on =>
      refine .nothing (releases_of_screen rfl fun key d hd _ => ?_)
      have hd' : (s.arbiter.setQuiet on).pending[key]? = some d := hd
      rw [Arbiter.pending_setQuiet] at hd'
      split at hd'
      · rw [Std.ExtTreeMap.getElem?_filter', Option.filter_eq_some_iff] at hd'
        exact hd'.1
      · exact hd'

/-! ### Reachable scenes -/

/-- No presenter is unregistered by the deed.  It may be replaced. -/
def Retains (s : Scene) : Deed → Prop
  | .arrange screen =>
    ∀ k, (s.screen.presenter k).isSome = true → (screen.presenter k).isSome = true
  | .perform .. | .read | .report => True

theorem served_act (hserved : s.Served) : ∀ {d : Deed}, s.Retains d → (s.act d).Served
  | .perform g now o, _ => (s.follows_perform g now o hserved).2
  | .report, _ => hserved
  | .arrange _, h => fun key x hx => h x.2 (hserved key x hx)
  | .read, _ => fun key x hx => by
      show (s.screen.read.presenter x.2).isSome = true
      rw [Screen.presenter_read, Option.isSome_map]
      exact hserved key x hx

theorem served_course : ∀ {ds : List Deed} {s : Scene}, s.Served → Throughout Retains s ds →
    (s.course ds).Served
  | [], _, h, _ => h
  | d :: _, s, h, hds => served_course (s := s.act d) (served_act h hds.1) hds.2

end Scene

/-- **No alert is lost.**  In every scene that is reached without unregistering a presenter, and
whatever the grouping, an operation releases nothing, or it gives on what it releases: the child to
which a summary hands its alert, or the summary to which alerts are taken back, has an alert of the
kind that was released last, or waits for it, or it is scheduled for the summary. -/
theorem no_alert_is_lost (settings : Settings) (screen : Screen) (past : List Deed)
    (hpast : Scene.Throughout Scene.Retains { arbiter := { settings }, screen } past) (g : Grouping)
    (now : Nat) (o : Scene.Operation) :
    let s := ({ arbiter := { settings }, screen } : Scene).course past
    s.GivesOn g (s.perform g now o) := by
  intro s
  refine Scene.givesOn_perform (Scene.served_course (fun key x hx => ?_) hpast) g now o
  rw [Scene.getElem?_waiting] at hx
  simp at hx

/-- The child `c` is up, and `d` is about to join its group: what `c` lets go of is scheduled. -/
theorem released_alert_is_scheduled :
    let s := ({} : Scene).course [.arrange { headsUp := some { flag := 4, up := {"c"} } }]
    let t := s.perform Cast.duo 0 (.event (.announced (Cast.troupe.notice "d")))
    s.GivesOn Cast.duo t ∧ s.screen.isUp .headsUp "c" = true ∧ t.screen.isUp .headsUp "c" = false ∧
      (t.arbiter.record "g").schedule = some ⟨.headsUp, "c"⟩ := by
  intro s t
  have hgiven := no_alert_is_lost {} {} [.arrange { headsUp := some { flag := 4, up := {"c"} } }]
    ⟨fun k hk => by (cases k <;> cases hk), trivial⟩ Cast.duo 0
    (.event (.announced (Cast.troupe.notice "d")))
  exact ⟨hgiven, by decide +kernel⟩

end AlertHandoff
