import AlertHandoff.Proofs.Cases
import AlertHandoff.Proofs.Cast
import AlertHandoff.Proofs.Course
import AlertHandoff.Proofs.Within

/-! # Quiet mode

While quiet mode is on the books are frozen (`Scene.Frozen`): no deferral is live and nothing is
remembered of a group.  Entering quiet mode brings this about and every operation keeps it
(`Scene.rests_act`), so that carrying out, resuming or giving up a live move cannot come up.

What is handled then, `Scene.Rests` describes: no alert comes up, is repeated or goes down, no
content is asked for, no deferral is made, and all that is called is the release of content that
arrives for a move that had been taken back.  `quiet_mode_freezes` says this of every session. -/

namespace AlertHandoff
namespace Scene

/-- No deferral is live, and nothing is remembered of a group. -/
structure Frozen (s : Scene) : Prop where
  reversed : ∀ (key : String) d, s.arbiter.pending[key]? = some d → d.isLive = false
  blank : ∀ (group : String) r, s.arbiter.groups[group]? = some r → r = {}

variable {s t u : Scene}

theorem Frozen.not_awaits (h : s.Frozen) (key : String) :
    Deferrals.awaits s.arbiter.pending key = false := by
  unfold Deferrals.awaits
  cases hd : s.arbiter.pending[key]? with
  | none => rfl
  | some d => exact h.reversed key d hd

/-- What keeps no more deferrals and records than there were keeps the books frozen. -/
theorem Frozen.of_le (h : s.Frozen)
    (hp : ∀ (key : String) d, t.arbiter.pending[key]? = some d →
      s.arbiter.pending[key]? = some d)
    (hg : ∀ (group : String) r, t.arbiter.groups[group]? = some r →
      s.arbiter.groups[group]? = some r ∨ r = {}) : t.Frozen where
  reversed key d hd := h.reversed key d (hp key d hd)
  blank group r hr := by
    rcases hg group r hr with hr | hr
    · exact h.blank group r hr
    · exact hr

/-! ### What quiet mode leaves alone -/

theorem handleChange_of_quiet (hq : s.arbiter.quiet = true) (g : Grouping) (now : Nat)
    (kind : Kind) (c : Change) : s.handleChange g now kind c = s := by
  rcases s.handleChange_cases g now kind c with ⟨he, -⟩ | ⟨n, summary, -, -, -, he⟩
  · exact he
  · rw [he, forward_of_quiet hq]

theorem handleSuppression_of_quiet (hq : s.arbiter.quiet = true) (g : Grouping) (now : Nat)
    (group : String) (on : Bool) : s.handleSuppression g now group on = s := by
  rcases s.handleSuppression_cases g now group on with ⟨he, -⟩ | ⟨summary, -, h⟩
  · exact he
  · rcases h with ⟨-, kind, -, he⟩ | ⟨-, hoff, -⟩ | ⟨-, hoff, -⟩
    · rw [he, forward_of_quiet hq]
    · rw [hq] at hoff
      cases hoff
    · rw [hq] at hoff
      cases hoff

/-- The content that arrives is for a move that had been taken back, so it is taken down. -/
theorem rendered_of_frozen (h : s.Frozen) {n : Notice} {d : Deferral}
    (hd : s.arbiter.pending[n.key]? = some d) :
    s.rendered n = ((s.clearDeferral n.key).release n d.kind).write [.reversed n.key] := by
  have hr : d.isReversed = true := by simpa [Deferral.isLive] using h.reversed n.key d hd
  simp [rendered, hd, hr]

/-! ### What happens in quiet mode -/

end Scene

/-- The action ends a move that had been taken back, or drops one whose notice is gone or has
another place. -/
def Action.isClosing : Action → Bool
  | .reversed _ | .voided _ .removed | .voided _ .regrouped => true
  | .moved .. | .deferred .. | .completed .. | .scheduled .. | .voided _ .quiet
  | .voided _ .reclaimed => false

namespace Scene
variable {s t u : Scene}

/-- The release that content drawn for a notice calls for: that of a move to the notice which had
been taken back, if its kind has a presenter. -/
def releaseFor (s : Scene) (n : Notice) : List Call :=
  match s.arbiter.pending[n.key]? with
  | none => []
  | some d =>
    if d.isReversed then (s.screen.presenter d.kind).toList.map fun p => .release n.row p.flag
    else []

/-- The releases that a list of deeds calls for. -/
def releases : Scene → List Deed → List Call
  | _, [] => []
  | s, d :: ds => d.drawn?.toList.flatMap s.releaseFor ++ (s.act d).releases ds

/-- Between the two scenes quiet mode was on, and all that was called are the given releases. -/
structure Rests (s t : Scene) (made : List Call) : Prop where
  quiet : t.arbiter.quiet = true
  frozen : t.Frozen
  up : ∀ kind key, t.screen.isUp kind key = s.screen.isUp kind key
  requested : ∀ row, (t.screen.rows row).requested = (s.screen.rows row).requested
  calls : t.screen.calls = s.screen.calls ++ made
  released : ∀ call ∈ made, ∃ row flag, call = .release row flag
  pending : ∀ (key : String) d, t.arbiter.pending[key]? = some d →
    s.arbiter.pending[key]? = some d
  journal : ∃ actions, t.arbiter.journal = s.arbiter.journal ++ actions ∧
    ∀ a ∈ actions, a.isClosing = true

theorem Rests.refl (hq : s.arbiter.quiet = true) (hf : s.Frozen) : s.Rests s [] where
  quiet := hq
  frozen := hf
  up _ _ := rfl
  requested _ := rfl
  calls := (List.append_nil _).symm
  released _ h := by cases h
  pending _ _ h := h
  journal := ⟨[], (List.append_nil _).symm, by simp⟩

theorem Rests.trans {a b : List Call} (h : s.Rests t a) (h' : t.Rests u b) :
    s.Rests u (a ++ b) where
  quiet := h'.quiet
  frozen := h'.frozen
  up kind key := (h'.up kind key).trans (h.up kind key)
  requested row := (h'.requested row).trans (h.requested row)
  calls := by rw [h'.calls, h.calls, List.append_assoc]
  released call hc := by
    rcases List.mem_append.mp hc with hc | hc
    · exact h.released call hc
    · exact h'.released call hc
  pending key d hd := h.pending key d (h'.pending key d hd)
  journal := by
    obtain ⟨x, hx, hxc⟩ := h.journal
    obtain ⟨y, hy, hyc⟩ := h'.journal
    refine ⟨x ++ y, by rw [hy, hx, List.append_assoc], fun a ha => ?_⟩
    rcases List.mem_append.mp ha with ha | ha
    · exact hxc a ha
    · exact hyc a ha

/-- Whatever leaves the screen, makes no deferral and remembers nothing of a group is rest, if it
only writes what closes moves. -/
theorem rests_of_books {a : Arbiter} (hq : s.arbiter.quiet = true) (hf : s.Frozen)
    (hqa : a.quiet = s.arbiter.quiet)
    (hp : ∀ (key : String) d, a.pending[key]? = some d → s.arbiter.pending[key]? = some d)
    (hg : ∀ (group : String) r, a.groups[group]? = some r →
      s.arbiter.groups[group]? = some r ∨ r = {})
    {actions : List Action} (hj : a.journal = s.arbiter.journal ++ actions)
    (hc : ∀ x ∈ actions, x.isClosing = true) : s.Rests { s with arbiter := a } [] where
  quiet := hqa.trans hq
  frozen := hf.of_le hp hg
  up _ _ := rfl
  requested _ := rfl
  calls := (List.append_nil _).symm
  released _ h := by cases h
  pending := hp
  journal := ⟨actions, hj, hc⟩

/-- Giving up the moves that name a notice is rest, if it was removed or has another place. -/
theorem rests_giveUp {a : Arbiter} (hq : s.arbiter.quiet = true) (hf : s.Frozen)
    (hqa : a.quiet = s.arbiter.quiet) (hg : a.groups = s.arbiter.groups)
    (hj : a.journal = s.arbiter.journal) (p : String → Deferral → Bool) {cause : Cause}
    (hc : cause = .removed ∨ cause = .regrouped) :
    s.Rests { s with arbiter := a.giveUp (Keyed.extract s.arbiter.pending p) cause } [] := by
  have hw : (a.giveUp (Keyed.extract s.arbiter.pending p) cause).journal =
      s.arbiter.journal ++ (Keyed.extract s.arbiter.pending p).1.map (.voided · cause) := by
    rw [← hj]
    rfl
  refine rests_of_books hq hf hqa ?_ ?_ hw ?_
  · intro key d hd
    simp only [Arbiter.giveUp, Keyed.getElem?_extract_snd, Option.filter_eq_some_iff] at hd
    exact hd.1
  · intro group r hr
    have hr' : a.groups[group]? = some r := hr
    rw [hg] at hr'
    exact .inl hr'
  · intro x hx
    obtain ⟨key, -, rfl⟩ := List.mem_map.mp hx
    rcases hc with rfl | rfl <;> rfl

theorem rests_rendered (hq : s.arbiter.quiet = true) (hf : s.Frozen) (n : Notice) :
    s.Rests (s.rendered n) (s.releaseFor n) := by
  cases hd : s.arbiter.pending[n.key]? with
  | none =>
      rw [rendered_of_none hd]
      have hno : s.releaseFor n = [] := by simp [releaseFor, hd]
      rw [hno]
      exact Rests.refl hq hf
  | some d =>
      have hr : d.isReversed = true := by simpa [Deferral.isLive] using hf.reversed n.key d hd
      have hclosed : s.Rests ((s.clearDeferral n.key).write [.reversed n.key]) [] :=
        rests_of_books hq hf rfl (fun _ _ h => getElem?_pending_clearDeferral h)
          (fun _ _ h => .inl h) rfl (by simp [Action.isClosing])
      rw [rendered_of_frozen hf hd]
      have hpres : (s.clearDeferral n.key).screen.presenter d.kind = s.screen.presenter d.kind :=
        rfl
      cases hp : s.screen.presenter d.kind with
      | none =>
          have hno : s.releaseFor n = [] := by simp [releaseFor, hd, hr, hp]
          have hstay : (s.clearDeferral n.key).release n d.kind = s.clearDeferral n.key := by
            simp [release, hpres, hp]
          rw [hno, hstay]
          exact hclosed
      | some p =>
          have hone : s.releaseFor n = [.release n.row p.flag] := by
            simp [releaseFor, hd, hr, hp]
          have hdown : (s.clearDeferral n.key).release n d.kind =
              { s.clearDeferral n.key with screen := s.screen.release n.row p.flag } := by
            unfold release
            rw [hpres, hp]
            rfl
          rw [hone, hdown]
          refine ⟨hclosed.quiet, ⟨hclosed.frozen.reversed, hclosed.frozen.blank⟩,
            fun kind _ => by cases kind <;> rfl, fun row => ?_, rfl, ?_, hclosed.pending,
            hclosed.journal⟩
          · simp only [Screen.release, Screen.rows_setRow, Row.release, write]
            split <;> simp_all
          · intro call hc
            exact ⟨n.row, p.flag, List.mem_singleton.mp hc⟩

theorem blank_of_formed (hf : s.Frozen) {group g : String} {r : GroupRecord}
    (hr : (s.arbiter.modifyRecord group id).groups[g]? = some r) :
    s.arbiter.groups[g]? = some r ∨ r = {} := by
  rw [Arbiter.getElem?_groups_modifyRecord] at hr
  split at hr
  · right
    cases hr
    unfold Arbiter.record
    cases ho : s.arbiter.groups[group]? with
    | none => rfl
    | some old => exact hf.blank group old ho
  · exact .inl hr

theorem rests_handleGroup (hq : s.arbiter.quiet = true) (hf : s.Frozen) (g : Grouping) (now : Nat)
    (e : GroupEvent) : s.Rests (s.handleGroup g now e) [] := by
  cases e with
  | formed group =>
      exact rests_of_books hq hf rfl (fun _ _ h => h) (fun _ _ h => blank_of_formed hf h)
        (List.append_nil _).symm (by simp)
  | suppression group on =>
      have he : s.handleGroup g now (.suppression group on) = s :=
        handleSuppression_of_quiet hq g now group on
      rw [he]
      exact Rests.refl hq hf
  | dissolved group =>
      refine rests_of_books hq hf rfl (fun _ _ h => h) ?_ (List.append_nil _).symm (by simp)
      intro x r hr
      simp only [Std.ExtTreeMap.getElem?_erase] at hr
      split at hr
      · cases hr
      · exact .inl hr

theorem rests_handleEvent (hq : s.arbiter.quiet = true) (hf : s.Frozen) (g : Grouping) (now : Nat)
    (e : Event) : s.Rests (s.handleEvent g now e)
      ((Deed.perform g now (.event e)).drawn?.toList.flatMap s.releaseFor) := by
  have hbooks : ∀ announced : Keyed Notice,
      s.Rests { s with arbiter := { s.arbiter with announced } } [] := fun _ =>
    rests_of_books hq hf rfl (fun _ _ h => h) (fun _ _ h => .inl h) (List.append_nil _).symm
      (by simp)
  cases e with
  | announced n =>
      have hstay := handBack_of_quiet (s := { s with arbiter := s.arbiter.announce n }) hq g now
        n.group
      simp only [handleEvent, hstay, ite_self]
      exact hbooks _
  | added n => exact hbooks _
  | updated n previous =>
      simp only [handleEvent]
      split
      · exact hbooks _
      · exact rests_giveUp (a := s.arbiter.refresh n) hq hf rfl rfl rfl _ (.inr rfl)
  | removed n => exact rests_giveUp (a := s.arbiter.added n) hq hf rfl rfl rfl _ (.inl rfl)
  | rendered n =>
      simp only [Deed.drawn?, Option.toList_some, List.flatMap_singleton]
      exact rests_rendered hq hf n

/-- **What is handled in quiet mode** moves no alert and makes no deferral. -/
theorem rests_act (hq : s.arbiter.quiet = true) (hf : s.Frozen) {d : Deed}
    (hd : d.isHandling = true) :
    s.Rests (s.act d) (d.drawn?.toList.flatMap s.releaseFor) := by
  cases d with
  | arrange screen | report => cases hd
  | read =>
      have hrows : ∀ row, ((s.act .read).screen.rows row).requested =
          (s.screen.rows row).requested := fun _ => rfl
      exact ⟨hq, ⟨hf.reversed, hf.blank⟩, fun kind key => Screen.isUp_read s.screen kind key, hrows,
        (List.append_nil _).symm, by simp [Deed.drawn?], fun _ _ h => h,
        ⟨[], (List.append_nil _).symm, by simp⟩⟩
  | perform g now o =>
      cases o with
      | quiet on => cases hd
      | event e => exact rests_handleEvent hq hf g now e
      | groupEvent e => exact rests_handleGroup hq hf g now e
      | suppression group on =>
          have he : s.act (.perform g now (.suppression group on)) = s :=
            handleSuppression_of_quiet hq g now group on
          rw [he]
          exact Rests.refl hq hf
      | change kind c =>
          have he : s.act (.perform g now (.change kind c)) = s :=
            handleChange_of_quiet hq g now kind c
          rw [he]
          exact Rests.refl hq hf
      | rendered n =>
          simp only [Deed.drawn?, Option.toList_some, List.flatMap_singleton]
          exact rests_rendered hq hf n
      | removed n => exact rests_giveUp (a := s.arbiter.added n) hq hf rfl rfl rfl _ (.inl rfl)
      | regrouped n => exact rests_giveUp (a := s.arbiter) hq hf rfl rfl rfl _ (.inr rfl)

theorem rests_course : ∀ {ds : List Deed} {s : Scene}, s.arbiter.quiet = true → s.Frozen →
    (∀ d ∈ ds, d.isHandling = true) → s.Rests (s.course ds) (s.releases ds)
  | [], _, hq, hf, _ => Rests.refl hq hf
  | d :: ds, s, hq, hf, hd => by
      have h := rests_act hq hf (hd d List.mem_cons_self)
      exact h.trans (rests_course h.quiet h.frozen fun x hx => hd x (List.mem_cons_of_mem d hx))

/-! ### Entering quiet mode -/

/-- If quiet mode is on, the books are frozen. -/
def Settled (s : Scene) : Prop := s.arbiter.quiet = true → s.Frozen

theorem settled_setQuiet (h : s.Settled) (on : Bool) :
    ({ s with arbiter := s.arbiter.setQuiet on } : Scene).Settled := by
  intro hq
  have hq' : (s.arbiter.setQuiet on).quiet = true := hq
  rw [Arbiter.quiet_setQuiet] at hq'
  subst hq'
  refine ⟨fun key d hd => Arbiter.not_isLive_of_setQuiet hd, fun group r hr => ?_⟩
  simp only [Arbiter.groups_setQuiet] at hr
  split at hr
  · next hon => exact (h hon).blank group r hr
  · rw [Std.ExtTreeMap.getElem?_map] at hr
    obtain ⟨_, -, rfl⟩ := Option.map_eq_some_iff.mp hr
    rfl

theorem quiet_perform (s : Scene) (g : Grouping) (now : Nat) {o : Operation}
    (ho : ∀ on, o ≠ .quiet on) : (s.perform g now o).arbiter.quiet = s.arbiter.quiet := by
  cases o with
  | quiet on => exact absurd rfl (ho on)
  | event e => exact (s.within_handleEvent g now e).quiet
  | groupEvent e =>
      cases e with
      | formed group | dissolved group => rfl
      | suppression group on => exact (s.within_suppression g now group on).quiet
  | suppression group on => exact (s.within_suppression g now group on).quiet
  | change kind c => exact (s.within_handleChange g now kind c).quiet
  | rendered n => exact (s.within_rendered n).quiet
  | removed n | regrouped n => rfl

/-- **Every operation keeps the books frozen** while quiet mode is on. -/
theorem settled_perform (h : s.Settled) (g : Grouping) (now : Nat) (o : Operation) :
    (s.perform g now o).Settled := by
  by_cases ho : ∃ on, o = .quiet on
  · obtain ⟨on, rfl⟩ := ho
    exact settled_setQuiet h on
  · intro hq
    rw [quiet_perform s g now fun on he => ho ⟨on, he⟩] at hq
    have hd : (Deed.perform g now o).isHandling = true := by
      cases o with
      | quiet on => exact absurd ⟨on, rfl⟩ ho
      | event | groupEvent | suppression | change | rendered | removed | regrouped => rfl
    exact (rests_act hq (h hq) hd).frozen

theorem settled_act (h : s.Settled) (d : Deed) : (s.act d).Settled := by
  cases d with
  | perform g now o => exact settled_perform h g now o
  | read | arrange screen | report => exact fun hq => ⟨(h hq).reversed, (h hq).blank⟩

theorem settled_course : ∀ (ds : List Deed) {s : Scene}, s.Settled → (s.course ds).Settled
  | [], _, h => h
  | d :: ds, _, h => settled_course ds (settled_act h d)

theorem settled_fresh (settings : Settings) (screen : Screen) :
    ({ arbiter := { settings }, screen } : Scene).Settled := by
  intro hq
  cases hq

theorem Leads.settled (hl : s.Leads t) (h : s.Settled) : t.Settled :=
  hl.keeps (P := Settled) (fun _ g now o h => settled_perform h g now o)
    (fun _ h => settled_act h .read) h

end Scene

namespace Session

theorem settled_step {s : Session} (h : s.scene.Settled) (r : Request) :
    (s.step r).1.scene.Settled := by
  cases r with
  | host c => exact fun hq => ⟨(h hq).reversed, (h hq).blank⟩
  | advance micros | close => exact h
  | bind =>
      simp only [step, bind]
      split <;> exact h
  | send e =>
      simp only [step, send]
      split <;> exact h
  | quiet on => exact Scene.settled_setQuiet h on
  | flush =>
      simp only [step]
      cases hr : s.roster with
      | none =>
          rw [flush_of_none hr]
          exact h
      | some roster =>
          rw [flush_of_some hr]
          intro hq
          obtain ⟨hp, hg⟩ := (s.leads_flushed roster).settled h hq
          exact ⟨hp, hg⟩

theorem settled_run : ∀ {s : Session}, s.scene.Settled → ∀ rs : List Request,
    (s.run rs).scene.Settled
  | _, h, [] => h
  | _, h, r :: rs => settled_run (settled_step h r) rs

end Session

/-- **Quiet mode freezes everything.**  At every point of a course that starts with fresh books,
with whatever groups and whatever its owner does to the screen: if quiet mode is on, no deferral is
live, so no key is waited for, and nothing is remembered of a group.  Whatever is handled from there
while quiet mode stays on: no alert comes up, is repeated or goes down, no content is asked for, no
deferral is made, the journal tells only that moves which had been taken back are closed and that
moves are dropped whose notice was removed or has another place, and all that is called is the
release of content which is drawn for a move that had been taken back.  In particular this holds
wherever the operations of a session lead, and a flush handles the events of the inbox, in order, in
this way. -/
theorem quiet_mode_freezes (settings : Settings) :
    (∀ (screen : Screen) (past : List Deed),
      let s := ({ arbiter := { settings }, screen } : Scene).course past
      s.arbiter.quiet = true →
        s.Frozen ∧ (∀ key, Deferrals.awaits s.arbiter.pending key = false) ∧
          ∀ ds, (∀ d ∈ ds, d.isHandling = true) → s.Rests (s.course ds) (s.releases ds)) ∧
    ∀ (clock : Clock) (rs : List Request),
      let session := (Session.create settings clock).run rs
      (∀ s : Scene, session.scene.Leads s → s.arbiter.quiet = true →
        s.Frozen ∧ ∀ key, Deferrals.awaits s.arbiter.pending key = false) ∧
      ∀ roster, session.roster = some roster → session.scene.arbiter.quiet = true →
        ∃ ds, (∀ d ∈ ds, d.isHandling = true) ∧ ds.filterMap Deed.event? = session.inbox ∧
          session.scene.Rests (session.flushed roster).2 (session.scene.releases ds) := by
  refine ⟨fun screen past hq => ?_, fun clock rs => ?_⟩
  · have hf := Scene.settled_course past (Scene.settled_fresh settings screen) hq
    exact ⟨hf, hf.not_awaits, fun ds hd => Scene.rests_course hq hf hd⟩
  · intro session
    have hsettled : session.scene.Settled :=
      Session.settled_run (Scene.settled_fresh settings {}) rs
    refine ⟨fun s hs hq => ?_, fun roster hr hq => ?_⟩
    · have hf := hs.settled hsettled hq
      exact ⟨hf, hf.not_awaits⟩
    · obtain ⟨ds, hd, he, hc⟩ := Session.handles_flushed hr
      refine ⟨ds, hd, he, ?_⟩
      rw [hc]
      exact Scene.rests_course hq (hsettled hq) hd

/-- The alert of `s` waits for the content of `c` and is taken back because `d` is about to join.
Then quiet mode is turned on, and the content is drawn. -/
def nightfall : List Request :=
  [.host (.register .headsUp 4), .bind, .send (.added (Cast.troupe.notice "s")),
    .host (.raise .headsUp (Cast.troupe.notice "s")),
    .send (.added (Cast.troupe.notice "c")), .send (.announced (Cast.troupe.notice "d")), .flush,
    .quiet true, .send (.rendered (Cast.troupe.notice "c"))]

theorem nightfall_only_releases :
    let session := (Session.create {} {}).run nightfall
    session.scene.arbiter.quiet = true ∧
      (session.step .flush).2 = .actions [.reversed "c"] ∧
      ∃ ds, session.scene.Rests (session.flushed (session.roster.getD {})).2
        (session.scene.releases ds) := by
  intro session
  have hq : session.scene.arbiter.quiet = true := by decide +kernel
  have hr : session.roster = some (session.roster.getD {}) := by decide +kernel
  obtain ⟨ds, -, -, hrests⟩ := ((quiet_mode_freezes {}).2 {} nightfall).2 _ hr hq
  exact ⟨hq, by decide +kernel, ds, hrests⟩

end AlertHandoff
