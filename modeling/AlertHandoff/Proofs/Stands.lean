import AlertHandoff.Proofs.Cast
import AlertHandoff.Proofs.Reach
import AlertHandoff.Proofs.Within

/-! # Runs in which every key keeps its place

If all notices that the host names come from one cast, so does everything that is announced,
tracked, in the inbox or in the news (`Cast.Speaks`), in every session of a run (`speaks_run`).
`Cast.Stands` collects what is then known of every event that a flush handles, and
`Session.moments_keep` is the induction over these events. -/

namespace AlertHandoff
namespace Cast
variable {c : Cast} {r : Roster} {g : String} {n : Notice}

/-! ### Scenes -/

/-- Whatever is announced, is so under its own key and comes from the cast, as does whatever is
reported to have come up. -/
structure Knows (c : Cast) (s : Scene) : Prop where
  announced : ∀ (key : String) n, s.arbiter.announced[key]? = some n → n.key = key ∧ c.Admits n
  raised : ∀ k n, (k, .raised n) ∈ s.screen.news → c.Admits n

theorem Knows.within {s t : Scene} {P : Notice → Prop} (hs : c.Knows s) (h : s.Within P t)
    (hp : ∀ n, P n → c.Admits n) : c.Knows t where
  announced := by
    rw [h.announced]
    exact hs.announced
  raised k n hn := by
    rcases h.raised k n hn with hn | hn
    · exact hs.raised k n hn
    · exact hp n hn

theorem Knows.listing {s : Scene} (hs : c.Knows s) {e : Event} (he : c.Admits e.notice) :
    c.Knows (s.listing e) where
  raised := hs.raised
  announced key n hn := by
    have hl : (e.listed s.arbiter.announced)[key]? = some n := hn
    cases e with
    | rendered m => exact hs.announced key n hl
    | announced m =>
        simp only [Event.listed, Std.ExtTreeMap.getElem?_insert] at hl
        split at hl
        · next hc =>
          cases hl
          exact ⟨Std.LawfulEqCmp.eq_of_compare hc, he⟩
        · exact hs.announced key n hl
    | added m | removed m =>
        simp only [Event.listed, Std.ExtTreeMap.getElem?_erase] at hl
        split at hl
        · cases hl
        · exact hs.announced key n hl
    | updated m previous =>
        simp only [Event.listed, Std.ExtTreeMap.getElem?_modify] at hl
        split at hl
        · next hc =>
          obtain ⟨_, -, rfl⟩ := Option.map_eq_some_iff.mp hl
          exact ⟨Std.LawfulEqCmp.eq_of_compare hc, he⟩
        · exact hs.announced key n hl

theorem Keeps.admits_of_member (h : c.Keeps r) (hn : Scene.Member r.grouping g n) :
    c.Admits n := by
  rcases hn with hn | hn
  · exact (h.summary hn).2.1
  · exact h.admits_of_mem_children hn

theorem Keeps.group_of_member (h : c.Keeps r) (hn : Scene.Member r.grouping g n) :
    n.group = g := by
  rcases hn with hn | hn
  · exact (h.summary hn).2.2.1
  · exact (h.mem_children.mp hn).2.1

theorem Knows.read {s : Scene} (hs : c.Knows s) :
    c.Knows { s with screen := s.screen.read } where
  announced := hs.announced
  raised k n hn := by
    have hn' : (k, Change.raised n) ∈ s.screen.read.news := hn
    rw [Screen.news_read] at hn'
    cases hn'

theorem Knows.quiesce {s : Scene} (hs : c.Knows s) (hr : c.Keeps r) (now : Nat) :
    c.Knows (s.quiesce r.grouping now) := by
  refine Scene.quiesce_keeps _ now (I := fun _ s => c.Knows s) ?_ (fun _ _ => Knows.read)
    (fun _ h => h) hs
  intro x _ t ht
  refine ht.within (t.within_handleChange r.grouping now x.1 x.2) ?_
  rintro n ⟨group, hn⟩
  exact hr.admits_of_mem_children hn

theorem Knows.handleEvent {s : Scene} (hs : c.Knows s) (hr : c.Keeps r) {e : Event}
    (he : c.Admits e.notice) (now : Nat) : c.Knows (s.handleEvent r.grouping now e) := by
  refine (hs.listing he).within (s.within_handleEvent r.grouping now e) ?_
  rintro n (rfl | hn)
  · exact he
  · exact hr.admits_of_member (.inl hn)

theorem Keeps.within_handleGroup (hr : c.Keeps r) (s : Scene) (now : Nat) (e : GroupEvent) :
    s.Within (Scene.Member r.grouping e.group) (s.handleGroup r.grouping now e) :=
  s.within_handleGroup now fun _ hn => hr.group_of_member (.inl hn)

theorem Knows.handleGroup {s : Scene} (hs : c.Knows s) (hr : c.Keeps r) (e : GroupEvent)
    (now : Nat) : c.Knows (s.handleGroup r.grouping now e) :=
  hs.within (hr.within_handleGroup s now e) fun _ hn => hr.admits_of_member hn

theorem books_quiesce (s : Scene) (g : Grouping) (now : Nat) :
    (s.quiesce g now).arbiter.settings = s.arbiter.settings ∧
      (s.quiesce g now).arbiter.quiet = s.arbiter.quiet ∧
      (s.quiesce g now).arbiter.announced = s.arbiter.announced := by
  refine Scene.quiesce_keeps _ now (I := fun _ t => t.arbiter.settings = s.arbiter.settings ∧
    t.arbiter.quiet = s.arbiter.quiet ∧ t.arbiter.announced = s.arbiter.announced)
    ?_ (fun _ _ h => h) (fun _ h => h) ⟨rfl, rfl, rfl⟩
  intro x _ t ⟨hs, hq, ha⟩
  have hw := t.within_handleChange g now x.1 x.2
  exact ⟨hw.settings.trans hs, hw.quiet.trans hq, hw.announced.trans ha⟩

theorem books_replay (g : Grouping) (now : Nat) : ∀ (es : List GroupEvent) (s : Scene),
    (Session.replay g now s es).arbiter.settings = s.arbiter.settings ∧
      (Session.replay g now s es).arbiter.quiet = s.arbiter.quiet ∧
      (Session.replay g now s es).arbiter.announced = s.arbiter.announced
  | [], _ => ⟨rfl, rfl, rfl⟩
  | e :: es, s => by
      have hevent : (s.handleGroup g now e).arbiter.settings = s.arbiter.settings ∧
          (s.handleGroup g now e).arbiter.quiet = s.arbiter.quiet ∧
          (s.handleGroup g now e).arbiter.announced = s.arbiter.announced := by
        cases e with
        | formed group | dissolved group => exact ⟨rfl, rfl, rfl⟩
        | suppression group on =>
            have hw := s.within_suppression g now group on
            exact ⟨hw.settings, hw.quiet, hw.announced⟩
      obtain ⟨hs, hq, ha⟩ := books_quiesce (s.handleGroup g now e) g now
      obtain ⟨hs', hq', ha'⟩ := books_replay g now es ((s.handleGroup g now e).quiesce g now)
      exact ⟨hs'.trans (hs.trans hevent.1), hq'.trans (hq.trans hevent.2.1),
        ha'.trans (ha.trans hevent.2.2)⟩

/-- Handling group events one by one keeps what each of them keeps, starting without news. -/
theorem replay_keeps {I : Scene → Prop} (hr : c.Keeps r) (now : Nat) :
    ∀ {es : List GroupEvent} {s : Scene}, c.Knows s → s.screen.news = [] → I s →
      (∀ e ∈ es, ∀ t, c.Knows t → t.screen.news = [] → I t →
        I ((t.handleGroup r.grouping now e).quiesce r.grouping now)) →
      c.Knows (Session.replay r.grouping now s es) ∧
        (Session.replay r.grouping now s es).screen.news = [] ∧
        I (Session.replay r.grouping now s es)
  | [], s, hs, hn, hi, _ => ⟨hs, hn, hi⟩
  | e :: es, s, hs, hn, hi, h => by
      have hk := (hs.handleGroup hr e now).quiesce hr now
      have hnews := Scene.news_quiesce (s.handleGroup r.grouping now e) r.role_of_mem_children now
      have hi' := h e List.mem_cons_self s hs hn hi
      have hrest := replay_keeps hr now hk hnews hi' fun x hx => h x (List.mem_cons_of_mem e hx)
      exact hrest

/-! ### Moments -/

end Cast

namespace Scene

/-- The scene with other records of the groups. -/
def withRecords (s : Scene) (groups : Keyed GroupRecord) : Scene :=
  { s with arbiter := { s.arbiter with groups } }

/-- The scenes remember the same of every group. -/
def SameRecords (s t : Scene) : Prop := ∀ group, s.arbiter.record group = t.arbiter.record group

theorem sameRecords_modifyRecord (s : Scene) (group : String) :
    (s.modifyRecord group id).SameRecords s := by
  intro g
  rw [record_modifyRecord]
  exact ite_self _

end Scene

namespace Session

theorem replay_append (g : Grouping) (now : Nat) (s : Scene) (a b : List GroupEvent) :
    replay g now s (a ++ b) = replay g now (replay g now s a) b := by
  simp [replay]

/-- That groups come into being or cease to exist changes only their records, and that they come
into being leaves what is remembered of them. -/
theorem replay_records (g : Grouping) (now : Nat) : ∀ {es : List GroupEvent} {s : Scene},
    (∀ e ∈ es, ∃ group, e = .formed group ∨ e = .dissolved group) → s.screen.news = [] →
      ∃ groups, replay g now s es = s.withRecords groups ∧
        ((∀ e ∈ es, ∃ group, e = .formed group) → (s.withRecords groups).SameRecords s)
  | [], s, _, _ => ⟨s.arbiter.groups, rfl, fun _ _ => rfl⟩
  | e :: es, s, he, hn => by
      obtain ⟨groups, hg, hsame⟩ : ∃ groups, s.handleGroup g now e = s.withRecords groups ∧
          ((∃ group, e = .formed group) → (s.withRecords groups).SameRecords s) := by
        obtain ⟨group, rfl | rfl⟩ := he e List.mem_cons_self
        · exact ⟨_, rfl, fun _ => Scene.sameRecords_modifyRecord s group⟩
        · refine ⟨_, rfl, ?_⟩
          rintro ⟨_, hf⟩
          cases hf
      have hn' : (s.handleGroup g now e).screen.news = [] := by
        rw [hg]
        exact hn
      have hq := (Scene.quiesce_of_no_news hn' g now).trans hg
      rw [hg] at hn'
      have he' : ∀ x ∈ es, ∃ group, x = .formed group ∨ x = .dissolved group :=
        fun x hx => he x (List.mem_cons_of_mem e hx)
      obtain ⟨groups', hr, hrest⟩ := replay_records g now he' hn'
      refine ⟨groups', Eq.trans ?_ hr, fun hf group => ?_⟩
      · rw [← hq]
        rfl
      · have hfirst := hsame (hf e List.mem_cons_self) group
        have hthen := hrest (fun x hx => hf x (List.mem_cons_of_mem e hx)) group
        exact hthen.trans hfirst

end Session

namespace Cast
variable {c : Cast}

/-- What is known of an event about to be handled: all notices are those of the cast, and all news
has been handled. -/
structure Stands (c : Cast) (m : Moment) : Prop where
  keeps : c.Keeps m.roster
  knows : c.Knows m.scene
  news : m.scene.screen.news = []
  admits : c.Admits m.event.notice

namespace Stands
variable {m : Moment}

theorem next (h : c.Stands m) : c.Keeps m.next := keeps_next h.keeps h.admits

theorem knows_after (h : c.Stands m) : c.Knows m.after :=
  (h.knows.handleEvent h.keeps h.admits m.now).quiesce h.keeps m.now

theorem knows_withRecords (h : c.Stands m) (groups : Keyed GroupRecord) :
    c.Knows (m.after.withRecords groups) :=
  ⟨h.knows_after.announced, h.knows_after.raised⟩

theorem news_after (_ : c.Stands m) : m.after.screen.news = [] :=
  Scene.news_quiesce _ m.roster.role_of_mem_children m.now

theorem result (h : c.Stands m) : c.Knows m.result ∧ m.result.screen.news = [] := by
  obtain ⟨hk, hn, -⟩ : c.Knows m.result ∧ m.result.screen.news = [] ∧ True :=
    replay_keeps (I := fun _ => True) h.next m.now h.knows_after h.news_after trivial
      fun _ _ _ _ _ _ => trivial
  exact ⟨hk, hn⟩

/-- Apart from what it does to records, an event brings about at most that the suppression of its
group changes. -/
theorem result_eq (h : c.Stands m) :
    ∃ before after, (m.after.withRecords before).SameRecords m.after ∧
      m.result = (Session.replay m.next.grouping m.now (m.after.withRecords before)
        (shift m.roster m.next m.event.notice.group)).withRecords after := by
  obtain ⟨formed, dissolved, ht, hf, hd⟩ := track_cases h.keeps h.admits
  have hformed : ∀ x ∈ formed, ∃ group, x = .formed group ∨ x = .dissolved group :=
    fun x hx => ⟨_, .inl (hf x hx)⟩
  have hdissolved : ∀ x ∈ dissolved, ∃ group, x = .formed group ∨ x = .dissolved group :=
    fun x hx => ⟨_, .inr (hd x hx)⟩
  obtain ⟨before, hb, hsame⟩ := Session.replay_records m.next.grouping m.now hformed h.news_after
  have hk := h.knows_withRecords before
  have hmid := replay_keeps (I := fun _ => True) h.next m.now hk h.news_after trivial
    (fun _ _ _ _ _ _ => trivial : ∀ e ∈ shift m.roster m.next m.event.notice.group, _)
  obtain ⟨after, ha, -⟩ := Session.replay_records m.next.grouping m.now hdissolved hmid.2.1
  refine ⟨before, after, hsame fun x hx => ⟨_, hf x hx⟩, ?_⟩
  unfold Moment.result
  rw [ht, Session.replay_append, Session.replay_append, hb]
  exact ha

end Stands

/-- Handling an event leaves the settings and quiet mode, and brings the announced notices up to
date. -/
theorem books_after (m : Moment) :
    m.after.arbiter.settings = m.scene.arbiter.settings ∧
      m.after.arbiter.quiet = m.scene.arbiter.quiet ∧
      m.after.arbiter.announced = m.event.listed m.scene.arbiter.announced := by
  have hw := m.scene.within_handleEvent m.roster.grouping m.now m.event
  obtain ⟨hs, hq, ha⟩ :=
    books_quiesce (m.scene.handleEvent m.roster.grouping m.now m.event) m.roster.grouping m.now
  exact ⟨hs.trans hw.settings, hq.trans hw.quiet, ha.trans hw.announced⟩

theorem books_result (m : Moment) :
    m.result.arbiter.settings = m.scene.arbiter.settings ∧
      m.result.arbiter.quiet = m.scene.arbiter.quiet ∧
      m.result.arbiter.announced = m.event.listed m.scene.arbiter.announced := by
  obtain ⟨hs, hq, ha⟩ := books_after m
  obtain ⟨hs', hq', ha'⟩ :=
    books_replay m.next.grouping m.now (m.roster.track m.event).1 m.after
  exact ⟨hs'.trans hs, hq'.trans hq, ha'.trans ha⟩

/-! ### Sessions -/

/-- All notices of the session are those of the cast. -/
structure Speaks (c : Cast) (s : Session) : Prop where
  roster : ∀ r, s.roster = some r → c.Keeps r
  knows : c.Knows s.scene
  inbox : ∀ e ∈ s.inbox, c.Admits e.notice

end Cast

/-- The notices that a request names. -/
def Request.notices : Request → List Notice
  | .host (.raise _ n) => [n]
  | .send e => [e.notice]
  | _ => []

namespace Session
variable {c : Cast}

theorem mem_inbox_of_mem_momentsFrom {now : Nat} : ∀ {es : List Event} {x : Roster × Scene}
    {m : Moment}, m ∈ momentsFrom now x es → m.event ∈ es
  | [], _, _, h => by cases h
  | e :: es, x, m, h => by
      rcases List.mem_cons.mp h with rfl | h
      · exact List.mem_cons_self
      · exact List.mem_cons_of_mem e (mem_inbox_of_mem_momentsFrom h)

/-- **Induction over the events of a flush**: what holds once the host's changes have been handled
and is kept at every event holds at every event and in the end. -/
theorem moments_keep {P : Roster → Scene → Prop} {s : Session} {roster : Roster}
    (hs : c.Speaks s) (hr : s.roster = some roster)
    (h₀ : P roster (s.scene.quiesce roster.grouping s.clock.now))
    (hm : ∀ m ∈ s.moments, c.Stands m → P m.roster m.scene → P m.next m.result) :
    (∀ m ∈ s.moments, c.Stands m ∧ P m.roster m.scene) ∧ c.Keeps (s.flushed roster).1 ∧
      c.Knows (s.flushed roster).2 ∧ P (s.flushed roster).1 (s.flushed roster).2 := by
  have hms : s.moments = momentsFrom s.clock.now
      (roster, s.scene.quiesce roster.grouping s.clock.now) s.inbox := by
    simp [moments, hr]
  rw [hms] at hm ⊢
  have hk := hs.roster roster hr
  have hstands : ∀ m ∈ momentsFrom s.clock.now
      (roster, s.scene.quiesce roster.grouping s.clock.now) s.inbox,
      (c.Keeps m.roster ∧ c.Knows m.scene ∧ m.scene.screen.news = []) → c.Stands m := by
    intro m hm hst
    exact ⟨hst.1, hst.2.1, hst.2.2, hs.inbox _ (mem_inbox_of_mem_momentsFrom hm)⟩
  have h := @momentsFrom_keeps
    (fun r x => (c.Keeps r ∧ c.Knows x ∧ x.screen.news = []) ∧ P r x) s.clock.now s.inbox
    (roster, s.scene.quiesce roster.grouping s.clock.now) ?_ ?_
  · exact ⟨fun m hm => ⟨hstands m hm (h.1 m hm).1, (h.1 m hm).2⟩, h.2.1.1, h.2.1.2.1, h.2.2⟩
  · exact ⟨⟨hk, hs.knows.quiesce hk _, Scene.news_quiesce _ roster.role_of_mem_children _⟩, h₀⟩
  · intro m hmem hst
    have hS := hstands m hmem hst.1
    exact ⟨⟨hS.next, hS.result⟩, hm m hmem hS hst.2⟩

/-! ### What a host does -/

theorem raised_mem_news_host {s : Screen} {x : HostCall} {k : Kind} {n : Notice}
    (h : (k, .raised n) ∈ (s.host x).1.news) :
    (k, .raised n) ∈ s.news ∨ ∃ kind, x = .raise kind n := by
  cases x with
  | register kind flag =>
      rw [Screen.mem_news, Screen.host_register_fst] at h
      obtain ⟨p, hp, hc⟩ := h
      split at hp
      · cases hp
        cases hc
      · exact .inl (Screen.mem_news.mpr ⟨p, hp, hc⟩)
  | raise kind m =>
      rcases Screen.mem_news_raise h with h | h
      · exact .inl h
      · cases h
        exact .inr ⟨kind, rfl⟩
  | update kind key alert => exact .inl (Screen.mem_news_update h)
  | dismiss kind key =>
      rcases Screen.mem_news_dismiss h with h | h
      · exact .inl h
      · cases h
  | drain kind =>
      simp only [Screen.host, Screen.drain] at h
      split at h
      · exact .inl h
      · rw [Screen.mem_news, Screen.presenter_setPresenter] at h
        obtain ⟨p, hp, hc⟩ := h
        split at hp
        · cases hp
          cases hc
        · exact .inl (Screen.mem_news.mpr ⟨p, hp, hc⟩)
  | prepare row flag on => exact .inl h

/-- What is in the news of a kind stays there unless the host registers a presenter for the kind or
reads its feed. -/
theorem mem_news_host {s : Screen} {x : HostCall} {k : Kind} {ch : Change}
    (hr : ∀ flag, x ≠ .register k flag) (hd : x ≠ .drain k) (h : (k, ch) ∈ s.news) :
    (k, ch) ∈ (s.host x).1.news := by
  cases x with
  | register kind flag =>
      have hne : k ≠ kind := by
        rintro rfl
        exact hr flag rfl
      rw [Screen.mem_news, Screen.host_register_fst, if_neg hne]
      exact Screen.mem_news.mp h
  | raise kind m => exact Scene.news_raise_subset s kind m _ h
  | update kind key alert => exact Scene.news_update_subset s kind key alert _ h
  | dismiss kind key => exact Scene.news_dismiss_subset s kind key _ h
  | drain kind =>
      have hne : k ≠ kind := by
        rintro rfl
        exact hd rfl
      simp only [Screen.host, Screen.drain]
      split
      · exact h
      · rw [Screen.mem_news, Screen.presenter_setPresenter, if_neg hne]
        exact Screen.mem_news.mp h
  | prepare row flag on => exact h

/-- A key comes up only by a call of the host that raises its alert, and then it is in the news. -/
theorem isUp_host {s : Screen} {x : HostCall} {k : Kind} {key : String}
    (h : (s.host x).1.isUp k key = true) :
    s.isUp k key = true ∨
      ∃ n, x = .raise k n ∧ n.key = key ∧ (k, .raised n) ∈ (s.host x).1.news := by
  cases hs : s.isUp k key with
  | true => exact .inl rfl
  | false =>
  cases x with
  | register kind flag =>
      unfold Screen.isUp at h hs
      rw [Screen.host_register_fst] at h
      split at h
      · simp [Presenter.isUp] at h
      · rw [hs] at h
        cases h
  | raise kind m =>
      simp only [Screen.host, Screen.isUp_raise, hs, Bool.false_or, Bool.and_eq_true,
        beq_iff_eq] at h
      obtain ⟨⟨rfl, rfl⟩, hp⟩ := h
      exact .inr ⟨m, rfl, rfl, Scene.raised_mem_news_raise hp hs⟩
  | update kind key' alert =>
      simp only [Screen.host, Screen.isUp_update, hs] at h
      cases h
  | dismiss kind key' => simp [Screen.host, hs] at h
  | drain kind =>
      have hd : (s.drain kind).isUp k key = s.isUp k key := by
        unfold Screen.drain
        split
        · rfl
        · next p hp =>
          unfold Screen.isUp
          rw [Screen.presenter_setPresenter]
          split
          · next hk =>
            rw [hk, hp]
            rfl
          · rfl
      have h' : (s.drain kind).isUp k key = true := h
      rw [hd, hs] at h'
      cases h'
  | prepare row flag on =>
      have hp : (s.prepare row flag on).isUp k key = s.isUp k key := by
        simp [Screen.isUp, Screen.prepare]
      have h' : (s.prepare row flag on).isUp k key = true := h
      rw [hp, hs] at h'
      cases h'

theorem speaks_create (c : Cast) (settings : Settings) (clock : Clock) :
    c.Speaks (create settings clock) where
  roster r hr := by cases hr
  knows := by
    refine ⟨fun key n h => ?_, fun k n h => ?_⟩
    · simp [create] at h
    · cases k <;> cases h
  inbox e he := by cases he

theorem speaks_step {s : Session} (h : c.Speaks s) {r : Request}
    (hr : ∀ n ∈ r.notices, c.Admits n) : c.Speaks (s.step r).1 := by
  cases r with
  | host x =>
      refine ⟨h.roster, ⟨h.knows.announced, fun k n hn => ?_⟩, h.inbox⟩
      rcases raised_mem_news_host hn with hn | ⟨kind, rfl⟩
      · exact h.knows.raised k n hn
      · exact hr n (List.mem_singleton_self n)
  | advance micros => exact ⟨h.roster, h.knows, h.inbox⟩
  | close => exact ⟨h.roster, h.knows, h.inbox⟩
  | bind =>
      simp only [step, bind]
      split
      · exact h
      · refine ⟨fun r hr => ?_, h.knows, h.inbox⟩
        cases hr
        exact Cast.keeps_empty c
  | send e =>
      simp only [step, send]
      split
      · exact h
      · refine ⟨h.roster, h.knows, fun x hx => ?_⟩
        rcases List.mem_append.mp hx with hx | hx
        · exact h.inbox x hx
        · rw [List.mem_singleton.mp hx]
          exact hr e.notice (List.mem_singleton_self _)
  | quiet on =>
      refine ⟨h.roster, ⟨?_, h.knows.raised⟩, h.inbox⟩
      intro key n hn
      have hn' : (s.scene.arbiter.setQuiet on).announced[key]? = some n := hn
      rw [Arbiter.announced_setQuiet] at hn'
      exact h.knows.announced key n hn'
  | flush =>
      simp only [step]
      cases hro : s.roster with
      | none =>
          rw [flush_of_none hro]
          exact h
      | some roster =>
          have hk := moments_keep (P := fun _ _ => True) h hro trivial fun _ _ _ _ => trivial
          rw [flush_of_some hro]
          refine ⟨fun r hr => ?_, ⟨hk.2.2.1.announced, hk.2.2.1.raised⟩, fun e he => ?_⟩
          · cases hr
            exact hk.2.1
          · cases he

theorem speaks_run {c : Cast} : ∀ {s : Session} {rs : List Request}, c.Speaks s →
    (∀ r ∈ rs, ∀ n ∈ r.notices, c.Admits n) → c.Speaks (s.run rs)
  | _, [], h, _ => h
  | s, r :: rs, h, hr => by
      have hs := speaks_step h (hr r List.mem_cons_self)
      have hrun := speaks_run hs fun x hx => hr x (List.mem_cons_of_mem r hx)
      exact hrun

end Session
end AlertHandoff
