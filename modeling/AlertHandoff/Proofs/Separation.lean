import AlertHandoff.Proofs.DividedRoster
import AlertHandoff.Proofs.Ledger
import AlertHandoff.Proofs.Lockstep
import AlertHandoff.Proofs.Settling
import AlertHandoff.Proofs.Stands

/-! # Groups do not interfere

Fix a division and a group.  Two sessions are alike if their notices keep to the division and they
agree about the group (`Session.Alike`).  A request that is about another group changes nothing in
this (`Session.Alike.step_of_ne`), and a request that is about the group, or about all groups at
once, leads from sessions that are alike to sessions that are alike again (`Session.Alike.step`):
the feeds, the deferrals and the inbox are shared by all groups, but what is handled of other groups
in between is confined to those.  So a run looks to a group as if only the requests that are about
the group or about all had been made: `groups_do_not_interfere`. -/

namespace AlertHandoff
variable {d : Division} {g : String}

namespace Scene
variable {s s' t u : Scene} {G G' : Grouping}

/-- The scenes keep to the division and agree about the group. -/
structure Alike (d : Division) (g : String) (s t : Scene) : Prop where
  left : s.Divided d
  right : t.Divided d
  agree : s.Agree d g t

theorem Alike.symm (h : s.Alike d g t) : t.Alike d g s := ⟨h.right, h.left, h.agree.symm⟩

theorem Alike.trans (h : s.Alike d g t) (h' : t.Alike d g u) : s.Alike d g u :=
  ⟨h.left, h'.right, h.agree.trans h'.agree⟩

theorem alike_self (hs : s.Divided d) : s.Alike d g s := ⟨hs, hs, .refl d g s⟩

/-- Work in another group changes nothing. -/
theorem Alike.skip (h : s.Alike d g t) {x : String} (hc : s.Confined d x s') (hx : x ≠ g) :
    s'.Alike d g t := by
  obtain ⟨hs', ha⟩ := hc h.left
  exact ⟨hs', h.right, (ha g (Ne.symm hx)).symm.trans h.agree⟩

theorem Alike.read (h : s.Alike d g t) :
    ({ s with screen := s.screen.read } : Scene).Alike d g { t with screen := t.screen.read } where
  left := h.left.withScreen fun k n hn => by simp at hn
  right := h.right.withScreen fun k n hn => by simp at hn
  agree := ⟨h.agree.arbiter, h.agree.screen.read⟩

theorem Divided.setQuiet (hs : s.Divided d) (on : Bool) :
    ({ s with arbiter := s.arbiter.setQuiet on } : Scene).Divided d where
  pending key r hr := by
    rw [Arbiter.pending_setQuiet] at hr
    split at hr
    · rw [Std.ExtTreeMap.getElem?_filter', Option.filter_eq_some_iff] at hr
      exact hs.pending key r hr.1
    · exact hs.pending key r hr
  schedule group due hd := by
    by_cases hon : s.arbiter.quiet = on
    · have hsame : (s.arbiter.setQuiet on).groups = s.arbiter.groups :=
        (Arbiter.groups_setQuiet s.arbiter on).trans (if_pos hon)
      rw [Arbiter.record, hsame] at hd
      exact hs.schedule group due hd
    · rw [Scene.record_setQuiet hon] at hd
      cases hd
  announced key n hn := by
    rw [Arbiter.announced_setQuiet] at hn
    exact hs.announced key n hn
  raised := hs.raised

/-! ### Rounds -/

/-- The news about the group, in order. -/
def newsOf (d : Division) (g : String) (xs : List (Kind × Change)) : List (Kind × Change) :=
  xs.filter fun x => d.ofChange x.2 == g

theorem Agree.newsOf (h : s.Agree d g t) :
    newsOf d g s.screen.news = newsOf d g t.screen.news := by
  have hnews : ∀ s : Screen, Scene.newsOf d g s.news =
      Kind.all.flatMap fun k => ((s.feed k).filter (d.ofChange · == g)).map (k, ·) := by
    intro s
    simp only [Scene.newsOf, Screen.news, Kind.all, Screen.feed, List.flatMap_cons,
      List.flatMap_nil, List.filter_append, List.filter_map, List.filter_nil, Function.comp_def]
  rw [hnews, hnews]
  simp only [h.screen.feed]

/-- Handling changes one after the other shows the group only the changes that are about it. -/
theorem Alike.foldl_handleChange (hG : G.Agree g G') (hd : G.Divided d) (hd' : G'.Divided d)
    (now : Nat) : ∀ (xs : List (Kind × Change)) {s t : Scene}, s.Alike d g t →
      (∀ x ∈ xs, ∀ n, x.2 = .raised n → d.Admits n) →
      (xs.foldl (fun s x => s.handleChange G now x.1 x.2) s).Alike d g
        ((Scene.newsOf d g xs).foldl (fun t x => t.handleChange G' now x.1 x.2) t)
  | [], _, _, h, _ => h
  | x :: xs, s, t, h, hx => by
      have hadm := hx x List.mem_cons_self
      have hrest : ∀ y ∈ xs, ∀ n, y.2 = .raised n → d.Admits n :=
        fun y hy => hx y (List.mem_cons_of_mem x hy)
      have hs := s.confined_handleChange hd now x.1 hadm
      unfold Scene.newsOf
      by_cases hg : d.ofChange x.2 = g
      · have ht := t.confined_handleChange hd' now x.1 hadm
        rw [List.filter_cons_of_pos (by simpa using hg)]
        refine Alike.foldl_handleChange hG hd hd' now xs ⟨(hs h.left).1, (ht h.right).1, ?_⟩ hrest
        refine h.agree.handleChange h.left h.right hG hd' now x.1 fun n hn => ?_
        refine (hadm n hn).belongs ?_
        rw [hn] at hg
        exact hg
      · rw [List.filter_cons_of_neg (by simpa using hg)]
        exact Alike.foldl_handleChange hG hd hd' now xs (h.skip hs hg) hrest

theorem Divided.raised_mem_news (hs : s.Divided d) :
    ∀ x ∈ s.screen.news, ∀ n, x.2 = .raised n → d.Admits n := by
  rintro ⟨k, c⟩ hx n rfl
  exact hs.raised k n (Screen.mem_feed.mpr hx)

theorem Alike.round (h : s.Alike d g t) (hG : G.Agree g G') (hd : G.Divided d) (hd' : G'.Divided d)
    (now : Nat) : (s.round G now).Alike d g (t.round G' now) := by
  have hs := Alike.foldl_handleChange hG hd hd' now s.screen.news h.read h.left.raised_mem_news
  have ht := Alike.foldl_handleChange (g := g) (G := G') ⟨rfl, rfl, rfl⟩ hd' hd' now t.screen.news
    (alike_self h.read.right) h.right.raised_mem_news
  rw [h.agree.newsOf] at hs
  exact hs.trans ht.symm

end Scene

/-- The rosters keep to the division and agree about the group. -/
structure Roster.Alike (d : Division) (g : String) (r r' : Roster) : Prop where
  left : r.Divided d
  right : r'.Divided d
  agree : r.Agree d g r'

theorem Roster.Alike.grouping {r r' : Roster} (h : r.Alike d g r') :
    r.grouping.Agree g r'.grouping :=
  h.agree.grouping h.left h.right

theorem Scene.Alike.quiesce {s t : Scene} (h : s.Alike d g t) {r r' : Roster}
    (hr : r.Alike d g r') (now : Nat) :
    (s.quiesce r.grouping now).Alike d g (t.quiesce r'.grouping now) := by
  rw [quiesce_eq_round_round s r.role_of_mem_children,
    quiesce_eq_round_round t r'.role_of_mem_children]
  have hround := h.round hr.grouping hr.left.grouping hr.right.grouping now
  exact hround.round hr.grouping hr.left.grouping hr.right.grouping now

/-! ### Events -/

namespace Session

variable {r r' : Roster} {s t : Scene}

theorem alike_replay_of_ne (hr : r.Alike d g r') (now : Nat) :
    ∀ (es : List GroupEvent) {s : Scene}, s.Alike d g t → t.screen.news = [] →
      (∀ e ∈ es, e.group ≠ g) → (replay r.grouping now s es).Alike d g t
  | [], _, h, _, _ => h
  | e :: es, s, h, hn, he => by
      have hc := s.confined_handleGroup hr.left.grouping now e
      have hq := (h.skip hc (he e List.mem_cons_self)).quiesce hr now
      rw [Scene.quiesce_of_no_news hn] at hq
      exact alike_replay_of_ne hr now es hq hn fun x hx => he x (List.mem_cons_of_mem e hx)

theorem alike_replay (hr : r.Alike d g r') (now : Nat) :
    ∀ (es : List GroupEvent) {s t : Scene}, s.Alike d g t → (∀ e ∈ es, e.group = g) →
      (replay r.grouping now s es).Alike d g (replay r'.grouping now t es)
  | [], _, _, h, _ => h
  | e :: es, s, t, h, he => by
      have hs := (s.confined_handleGroup hr.left.grouping now e h.left).1
      have ht := (t.confined_handleGroup hr.right.grouping now e h.right).1
      have ha := h.agree.handleGroup h.left h.right hr.grouping hr.right.grouping now
        (he e List.mem_cons_self)
      have hq := Scene.Alike.quiesce ⟨hs, ht, ha⟩ hr now
      exact alike_replay hr now es hq fun x hx => he x (List.mem_cons_of_mem e hx)

/-- What events are handled with is alike, and no news is left. -/
structure Matches (d : Division) (g : String) (x y : Roster × Scene) : Prop where
  roster : x.1.Alike d g y.1
  scene : x.2.Alike d g y.2
  left : x.2.screen.news = []
  right : y.2.screen.news = []

variable {x y z : Roster × Scene}

theorem Matches.symm (h : Matches d g x y) : Matches d g y x where
  roster := ⟨h.roster.right, h.roster.left, h.roster.agree.symm⟩
  scene := h.scene.symm
  left := h.right
  right := h.left

theorem Matches.trans (h : Matches d g x y) (h' : Matches d g y z) : Matches d g x z where
  roster := ⟨h.roster.left, h'.roster.right, h.roster.agree.trans h'.roster.agree⟩
  scene := h.scene.trans h'.scene
  left := h.left
  right := h'.right

/-- The event of a notice of another group changes nothing. -/
theorem Matches.skip (h : Matches d g x y) (now : Nat) {e : Event} (he : d.Admits e.notice)
    (hg : d.ofKey e.notice.key ≠ g) : Matches d g (handle now x e) y := by
  have hb : d.Belongs (d.ofKey e.notice.key) e.notice := he.belongs rfl
  have hroster : (x.1.next e).Alike d g y.1 :=
    ⟨h.roster.left.next he, h.roster.right,
      (Roster.agree_next h.roster.left he hg).symm.trans h.roster.agree⟩
  have hc := x.2.confined_handleEvent h.roster.left.grouping now hb
  have hq := (h.scene.skip hc hg).quiesce h.roster now
  rw [Scene.quiesce_of_no_news h.right] at hq
  refine ⟨hroster, ?_, news_handle now x e, h.right⟩
  refine alike_replay_of_ne hroster now _ hq h.right fun z hz => ?_
  rw [h.roster.left.group_of_mem_track hb hz]
  exact hg

theorem Matches.handle (h : Matches d g x y) (now : Nat) {e : Event} (he : d.Belongs g e.notice) :
    Matches d g (handle now x e) (handle now y e) := by
  have hroster : (x.1.next e).Alike d g (y.1.next e) :=
    ⟨h.roster.left.next he.admits, h.roster.right.next he.admits,
      h.roster.agree.next h.roster.left h.roster.right e⟩
  have hs := (x.2.confined_handleEvent h.roster.left.grouping now he h.scene.left).1
  have ht := (y.2.confined_handleEvent h.roster.right.grouping now he h.scene.right).1
  have ha := h.scene.agree.handleEvent h.scene.left h.scene.right h.roster.grouping
    h.roster.right.grouping now he
  have hq := Scene.Alike.quiesce ⟨hs, ht, ha⟩ h.roster now
  refine ⟨hroster, ?_, news_handle now x e, news_handle now y e⟩
  unfold Session.handle
  dsimp only
  rw [← h.roster.agree.track h.roster.left h.roster.right he]
  exact alike_replay hroster now _ hq fun z hz => h.roster.left.group_of_mem_track he hz

/-- The events about the group, in order. -/
def eventsOf (d : Division) (g : String) (es : List Event) : List Event :=
  es.filter fun e => d.ofKey e.notice.key == g

/-- Handling events one after the other shows the group only the events that are about it. -/
theorem Matches.foldl_handle (now : Nat) : ∀ (es : List Event) {x y : Roster × Scene},
    Matches d g x y → (∀ e ∈ es, d.Admits e.notice) →
      Matches d g (es.foldl (Session.handle now) x) ((eventsOf d g es).foldl (Session.handle now) y)
  | [], _, _, h, _ => h
  | e :: es, x, y, h, he => by
      have hadm := he e List.mem_cons_self
      have hrest : ∀ z ∈ es, d.Admits z.notice := fun z hz => he z (List.mem_cons_of_mem e hz)
      unfold eventsOf
      by_cases hg : d.ofKey e.notice.key = g
      · rw [List.filter_cons_of_pos (by simpa using hg)]
        exact Matches.foldl_handle now es (h.handle now (hadm.belongs hg)) hrest
      · rw [List.filter_cons_of_neg (by simpa using hg)]
        exact Matches.foldl_handle now es (h.skip now hadm hg) hrest

end Session

/-! ### Requests -/

/-- The group that a request is about, if it is about one. -/
def Division.ofRequest (d : Division) : Request → Option String
  | .host c => d.ofCall c
  | .send e => some (d.ofKey e.notice.key)
  | .advance _ | .bind | .close | .flush | .quiet _ => none

/-- The request is about the group, or about no one group. -/
def Division.reaches (d : Division) (g : String) (r : Request) : Bool :=
  (d.ofRequest r).all (· == g)

namespace Session

/-- The notices of the sessions keep to the division, and the sessions agree about the group. -/
structure Alike (d : Division) (g : String) (s t : Session) : Prop where
  scene : s.scene.Alike d g t.scene
  roster : Option.Rel (Roster.Alike d g) s.roster t.roster
  inbox : eventsOf d g s.inbox = eventsOf d g t.inbox
  left : ∀ e ∈ s.inbox, d.Admits e.notice
  right : ∀ e ∈ t.inbox, d.Admits e.notice
  isClosed : s.isClosed = t.isClosed
  clock : s.clock = t.clock

variable {s t : Session} {r : Request}

theorem alike_create (d : Division) (g : String) (settings : Settings) (clock : Clock) :
    (create settings clock).Alike d g (create settings clock) where
  scene := by
    refine Scene.alike_self ⟨fun key r h => ?_, fun group due h => ?_, fun key n h => ?_,
      fun k n h => ?_⟩
    · simp [create] at h
    · simp [create, Arbiter.record] at h
    · simp [create] at h
    · cases k <;> cases h
  roster := .none
  inbox := rfl
  left e he := by cases he
  right e he := by cases he
  isClosed := rfl
  clock := rfl

theorem Alike.flushed (h : s.Alike d g t) {r r' : Roster} (hr : r.Alike d g r') :
    Matches d g (s.flushed r) (t.flushed r') := by
  have hq := h.scene.quiesce hr s.clock.now
  have hstart : Matches d g (r, s.scene.quiesce r.grouping s.clock.now)
      (r', t.scene.quiesce r'.grouping s.clock.now) :=
    ⟨hr, hq, Scene.news_quiesce _ r.role_of_mem_children _,
      Scene.news_quiesce _ r'.role_of_mem_children _⟩
  have hs := Matches.foldl_handle s.clock.now s.inbox hstart h.left
  have ht := Matches.foldl_handle s.clock.now t.inbox (hstart.symm.trans hstart) h.right
  rw [h.inbox] at hs
  unfold Session.flushed
  rw [← h.clock]
  exact hs.trans ht.symm

/-- Both sessions hand out the same about the group. -/
def SameReport (d : Division) (g : String) (a b : Reply) : Prop :=
  a.journal.filter (d.concerns g) = b.journal.filter (d.concerns g)

theorem Alike.rosters (h : s.Alike d g t) :
    (s.roster = none ∧ t.roster = none) ∨
      ∃ r r', s.roster = some r ∧ t.roster = some r' ∧ r.Alike d g r' := by
  have hr := h.roster
  cases hs : s.roster with
  | none =>
      rw [hs] at hr
      cases ht : t.roster with
      | none => exact .inl ⟨rfl, rfl⟩
      | some r' =>
          rw [ht] at hr
          cases hr
  | some r =>
      rw [hs] at hr
      cases ht : t.roster with
      | none =>
          rw [ht] at hr
          cases hr
      | some r' =>
          rw [ht] at hr
          cases hr with
          | some hr => exact .inr ⟨r, r', rfl, rfl, hr⟩

theorem Alike.flush (h : s.Alike d g t) :
    s.flush.1.Alike d g t.flush.1 ∧ SameReport d g s.flush.2 t.flush.2 := by
  rcases h.rosters with ⟨hs, ht⟩ | ⟨r, r', hs, ht, hr⟩
  · rw [flush_of_none hs, flush_of_none ht]
    exact ⟨h, rfl⟩
  · have hf := h.flushed hr
    obtain ⟨hl, hr, ha⟩ := hf.scene
    rw [flush_of_some hs, flush_of_some ht]
    refine ⟨?_, ha.arbiter.journal⟩
    exact {
      scene := ⟨{ hl with }, { hr with }, ha.arbiter.withJournal rfl, ha.screen⟩
      roster := .some hf.roster
      inbox := rfl
      left := fun e he => by cases he
      right := fun e he => by cases he
      isClosed := h.isClosed
      clock := h.clock }

theorem Alike.bind (h : s.Alike d g t) : s.bind.1.Alike d g t.bind.1 := by
  unfold Session.bind
  rcases h.rosters with ⟨hs, ht⟩ | ⟨r, r', hs, ht, hr⟩
  · have hempty : ({} : Roster).Alike d g {} :=
      ⟨Roster.divided_empty d, Roster.divided_empty d, .refl d g _⟩
    rw [hs, ht]
    exact { h with roster := .some hempty }
  · rw [hs, ht]
    exact h

theorem divided_host {x : Scene} (hx : x.Divided d) {c : HostCall}
    (hc : ∀ n ∈ (Request.host c).notices, d.Admits n) :
    ({ x with screen := (x.screen.host c).1 } : Scene).Divided d := by
  refine hx.withScreen fun k n hn => ?_
  rw [Screen.mem_feed] at hn ⊢
  rcases raised_mem_news_host hn with hn | ⟨kind, rfl⟩
  · exact .inl hn
  · exact .inr (hc n List.mem_cons_self)

/-- A request about another group changes nothing, and hands nothing out. -/
theorem Alike.step_of_ne (h : s.Alike d g t) (hr : ∀ n ∈ r.notices, d.Admits n)
    (hg : d.reaches g r = false) :
    (s.step r).1.Alike d g t ∧ (s.step r).2.journal = [] := by
  cases r with
  | host c =>
      obtain ⟨x, hx, hne⟩ : ∃ x, d.ofCall c = some x ∧ x ≠ g := by
        cases hx : d.ofCall c with
        | none => simp [Division.reaches, Division.ofRequest, hx] at hg
        | some x => exact ⟨x, rfl, by simpa [Division.reaches, Division.ofRequest, hx] using hg⟩
      have hscreen := (s.scene.screen.agree_host hx hne).symm.trans h.scene.agree.screen
      exact ⟨{ h with scene :=
        ⟨divided_host h.scene.left hr, h.scene.right, h.scene.agree.arbiter, hscreen⟩ }, rfl⟩
  | send e =>
      have hne : d.ofKey e.notice.key ≠ g := by
        simpa [Division.reaches, Division.ofRequest] using hg
      simp only [Session.step, Session.send]
      split
      · exact ⟨h, rfl⟩
      · refine ⟨{ h with
          inbox := ?_
          left := fun x hx => ?_ }, rfl⟩
        · rw [← h.inbox]
          simp [eventsOf, hne]
        · rcases List.mem_append.mp hx with hx | hx
          · exact h.left x hx
          · rw [List.mem_singleton.mp hx]
            exact hr e.notice List.mem_cons_self
  | advance micros | bind | close | flush | quiet on => cases hg

/-- A request that is about the group, or about all, keeps sessions alike. -/
theorem Alike.step (h : s.Alike d g t) (hr : ∀ n ∈ r.notices, d.Admits n)
    (hg : d.reaches g r = true) :
    (s.step r).1.Alike d g (t.step r).1 ∧ SameReport d g (s.step r).2 (t.step r).2 := by
  cases r with
  | host c =>
      have hx : ∀ x, d.ofCall c = some x → x = g := by
        intro x hx
        simpa [Division.reaches, Division.ofRequest, hx] using hg
      exact ⟨{ h with scene := ⟨divided_host h.scene.left hr, divided_host h.scene.right hr,
        h.scene.agree.arbiter, h.scene.agree.screen.host hx⟩ }, rfl⟩
  | advance micros => exact ⟨{ h with clock := congrArg (·.advance micros) h.clock }, rfl⟩
  | bind =>
      refine ⟨h.bind, ?_⟩
      have hreply : ∀ s : Session, s.bind.2.journal = [] := by
        intro s
        unfold Session.bind
        split <;> rfl
      simp only [SameReport, Session.step, hreply]
  | send e =>
      have hnew : d.Admits e.notice := hr e.notice List.mem_cons_self
      simp only [Session.step, Session.send, h.isClosed]
      split
      · exact ⟨h, rfl⟩
      · refine ⟨{ h with
          inbox := ?_
          left := fun x hx => ?_
          right := fun x hx => ?_
          isClosed := rfl }, rfl⟩
        · have hi := h.inbox
          unfold eventsOf at hi ⊢
          rw [List.filter_append, List.filter_append, hi]
        · rcases List.mem_append.mp hx with hx | hx
          · exact h.left x hx
          · rwa [List.mem_singleton.mp hx]
        · rcases List.mem_append.mp hx with hx | hx
          · exact h.right x hx
          · rwa [List.mem_singleton.mp hx]
  | close => exact ⟨{ h with isClosed := rfl }, rfl⟩
  | flush => exact h.flush
  | quiet on =>
      exact ⟨{ h with scene := ⟨h.scene.left.setQuiet on, h.scene.right.setQuiet on,
        h.scene.agree.arbiter.setQuiet on, h.scene.agree.screen⟩ }, rfl⟩

theorem Alike.run : ∀ (rs : List Request) {s t : Session}, s.Alike d g t →
    (∀ r ∈ rs, ∀ n ∈ r.notices, d.Admits n) →
    (s.run rs).Alike d g (t.run (rs.filter (d.reaches g))) ∧
      (s.reported rs).filter (d.concerns g) =
        (t.reported (rs.filter (d.reaches g))).filter (d.concerns g)
  | [], _, _, h, _ => ⟨h, rfl⟩
  | r :: rs, s, t, h, hr => by
      have hadm := hr r List.mem_cons_self
      have hrest : ∀ x ∈ rs, ∀ n ∈ x.notices, d.Admits n :=
        fun x hx => hr x (List.mem_cons_of_mem r hx)
      cases hg : d.reaches g r with
      | true =>
          obtain ⟨hstep, hsame⟩ := h.step hadm hg
          obtain ⟨hrun, hrep⟩ := Alike.run rs hstep hrest
          rw [List.filter_cons_of_pos hg]
          refine ⟨hrun, ?_⟩
          simp only [Session.reported, List.filter_append, hrep]
          rw [hsame]
      | false =>
          obtain ⟨hstep, hnil⟩ := h.step_of_ne hadm hg
          obtain ⟨hrun, hrep⟩ := Alike.run rs hstep hrest
          rw [List.filter_cons_of_neg (by simp [hg])]
          refine ⟨hrun, ?_⟩
          simp only [Session.reported, hnil, List.nil_append, hrep]

end Session

/-- **Groups do not interfere.**  Where all notices of a run keep to a division, everything about a
group is at every step of the run as if no request about another group had been made: the deferrals
that lead to a key of the group, the record of the group, the keys of the group that alert on each
kind, the answers of the roster for the group, the rows of the group with what was asked of them,
and what has been written into the journal about the group.  Requests about no one group stay: the
clock, binding, closing, flushes, quiet mode, and the host registering a presenter or reading its
feed. -/
theorem groups_do_not_interfere (d : Division) (g : String) (settings : Settings) (clock : Clock)
    (rs : List Request) (h : ∀ r ∈ rs, ∀ n ∈ r.notices, d.Admits n) :
    ∀ past, past <+: rs →
      let session := Session.create settings clock
      let alone := past.filter (d.reaches g)
      let s := session.run past
      let t := session.run alone
      (∀ key : String, d.ofKey key = g →
        s.scene.arbiter.pending[key]? = t.scene.arbiter.pending[key]?) ∧
      s.scene.arbiter.groups[g]? = t.scene.arbiter.groups[g]? ∧
      (∀ kind key, d.ofKey key = g → s.scene.screen.isUp kind key = t.scene.screen.isUp kind key) ∧
      s.roster.map (fun r => (r.suppressed g, r.summary g, r.children g, r.hasGroup g)) =
        t.roster.map (fun r => (r.suppressed g, r.summary g, r.children g, r.hasGroup g)) ∧
      (∀ row, d.ofRow row = g → s.scene.screen.rows row = t.scene.screen.rows row) ∧
      (session.reported past ++ s.scene.arbiter.journal).filter (d.concerns g) =
        (session.reported alone ++ t.scene.arbiter.journal).filter (d.concerns g) := by
  intro past hpast session alone s t
  have hadm : ∀ r ∈ past, ∀ n ∈ r.notices, d.Admits n := fun r hr => h r (hpast.subset hr)
  have hstart : session.Alike d g session := Session.alike_create d g settings clock
  obtain ⟨hrun, hrep⟩ := hstart.run past hadm
  obtain ⟨ha, hscreen⟩ := hrun.scene.agree
  refine ⟨ha.pending, ha.groups, hscreen.up, ?_, hscreen.rows, ?_⟩
  · rcases hrun.rosters with ⟨hs, ht⟩ | ⟨r, r', hs, ht, hr⟩
    · rw [show s.roster = none from hs, show t.roster = none from ht]
    · rw [show s.roster = some r from hs, show t.roster = some r' from ht]
      simp only [Option.map_some, hr.agree.suppressed hr.left hr.right, hr.agree.summary hr.left,
        hr.agree.children hr.left hr.right, hr.agree.hasGroup hr.left hr.right]
  · rw [List.filter_append, List.filter_append, hrep, ha.journal]

/-- Two groups of a summary and a child: `s` and `c` in `g`, all other keys in `h`. -/
def Division.pair : Division where
  ofKey key := if key = "s" ∨ key = "c" then "g" else "h"
  ofRow row := if row = "s" ∨ row = "c" then "g" else "h"

/-- The notice of a key of the pair: the groups alert through their summaries `s` and `t`. -/
def Division.pairNotice (key : String) : Notice where
  key := key
  group := Division.pair.ofKey key
  role := if key = "s" ∨ key = "t" then .summary else .child
  policy := { scope := .summary }
  row := key

/-- Both groups hand an alert on in one flush, and a deferral of the one outlasts the removal of the
child of the other. -/
def neighbours : List Request :=
  [.host (.register .headsUp 4), .bind, .send (.added (Division.pairNotice "s")),
    .send (.added (Division.pairNotice "t")), .send (.added (Division.pairNotice "c")),
    .send (.added (Division.pairNotice "e")), .host (.prepare "e" 4 true),
    .host (.raise .headsUp (Division.pairNotice "t")),
    .host (.raise .headsUp (Division.pairNotice "s")), .flush,
    .send (.removed (Division.pairNotice "e")), .flush]

theorem neighbours_keep_apart :
    (Session.create {} {}).reported neighbours =
        [.deferred "s" "c" .headsUp, .moved "t" "e" .headsUp] ∧
      (Session.create {} {}).reported (neighbours.filter (Division.pair.reaches "g")) =
        [.deferred "s" "c" .headsUp] ∧
      ∀ key : String, Division.pair.ofKey key = "g" →
        ((Session.create {} {}).run neighbours).scene.arbiter.pending[key]? =
          ((Session.create {} {}).run
            (neighbours.filter (Division.pair.reaches "g"))).scene.arbiter.pending[key]? := by
  have hn : ∀ r ∈ neighbours, ∀ n ∈ r.notices, Division.pair.Admits n := by decide
  have h := groups_do_not_interfere Division.pair "g" {} {} neighbours hn neighbours
    (List.prefix_refl neighbours)
  exact ⟨by decide +kernel, by decide +kernel, h.1⟩

end AlertHandoff
