import AlertHandoff.Proofs.History
import AlertHandoff.Proofs.Record
import AlertHandoff.Proofs.Voicing

/-! # Alerts for which nobody asks

Whether a notice may alert is asked when it is decided that an alert goes to it.  Mostly the alert
comes at once.  But a move may be put off until the content of the notice has been drawn, and an
alert may be scheduled for a summary until its group has grown; then the alert is given to the
notice as it is by that time, and its policy is not asked again (`Scene.voices_of_unasked`).

These are the only alerts that a notice can get which may not alert, and each goes back to a deed
that asked: `late_alerts_were_decided`.  That the policy may have changed in between,
`muted_notices_alert` says of two runs. -/

namespace AlertHandoff
namespace Scene
variable {s : Scene} {d : Deed} {g : Grouping} {n : Notice} {kind : Kind}

theorem outcome_of_ready
    (h : ∃ p, s.screen.presenter kind = some p ∧ s.screen.isReady n.row p.flag = true) :
    s.outcome n kind = .shown := by
  obtain ⟨p, hp, hready⟩ := h
  simp [outcome, hp, hready]

theorem rendered_of_completes {r : Deferral} {actions : List Action} (h : s.Completes n r actions) :
    s.rendered n =
      ((s.clearDeferral n.key).deliver n r.source r.kind).write [.completed n.key r.kind] := by
  have hfits : r.fits n = true := by
    rw [Deferral.fits, h.live, Bool.true_and, Membership.describes_iff]
    exact h.place.symm
  have hshown : (s.clearDeferral n.key).outcome n r.kind = .shown := outcome_of_ready h.ready
  rw [rendered_of_fits h.pending hfits h.quiet h.down, complete, if_pos hshown]

theorem handleSuppression_of_isDue {group : String} {due : Schedule} (h : s.IsDue g group n due)
    (now : Nat) : s.handleSuppression g now group false =
      (s.unschedule group).move n due.source due.kind := by
  have hdown : (s.unschedule group).screen.isUp due.kind n.key = false := h.down
  simp [handleSuppression, h.summary, h.quiet, h.schedule, hdown]

theorem act_of_fallsDue {group : String} {due : Schedule} (h : s.FallsDue d group n due) :
    s.act d = (s.unschedule group).move n due.source due.kind := by
  obtain ⟨g, now, o, rfl, ho, h⟩ := h
  rw [← handleSuppression_of_isDue h now]
  rcases ho with rfl | rfl <;> rfl

theorem act_of_drawn (hd : d.drawn? = some n) : s.act d = s.rendered n := by
  cases d with
  | read | arrange screen | report => cases hd
  | perform g now o =>
      cases o with
      | event e =>
          cases e with
          | rendered m =>
              cases hd
              rfl
          | announced | added | updated | removed => cases hd
      | rendered m =>
          cases hd
          rfl
      | groupEvent | suppression | change | removed | regrouped | quiet => cases hd

/-- The deed gives an alert that was decided on before, and whether the notice may alert is not
asked: its content has been drawn and completes the move that waited for it, or it is a summary
whose scheduled alert falls due. -/
inductive Unasked (s : Scene) (d : Deed) (n : Notice) : Kind → Prop
  | drawn (r : Deferral) (hd : d.drawn? = some n)
      (h : s.Completes n r [.completed n.key r.kind]) : Unasked s d n r.kind
  | due (group : String) (due : Schedule) (h : s.FallsDue d group n due)
      (ho : s.outcome n due.kind = .shown) : Unasked s d n due.kind

/-- **What is not asked does not matter**: the alert is given, whatever the policy of the notice. -/
theorem voices_of_unasked (h : s.Unasked d n kind) : s.Voices (s.act d) n kind := by
  cases h with
  | drawn r hd h =>
      have hclear : s.Lowers (s.clearDeferral n.key) := s.lowers_books _ rfl
      have hshown : (s.clearDeferral n.key).outcome n r.kind = .shown := outcome_of_ready h.ready
      have ha : (Action.completed n.key r.kind).alert? = some (r.kind, n.key) := rfl
      rw [act_of_drawn hd, rendered_of_completes h]
      exact voices_deliver hshown hclear r.source ha
  | due group due h ho =>
      have hu : s.Lowers (s.unschedule group) := s.lowers_books _ rfl
      have hshown : (s.unschedule group).outcome n due.kind = .shown := ho
      rw [act_of_fallsDue h]
      exact voices_move hshown hu due.source

theorem asks_perform (s : Scene) (g : Grouping) (now : Nat) (o : Operation) :
    let d := Deed.perform g now o
    s.Mute (s.act d) ∨ ∃ n kind, s.Voices (s.act d) n kind ∧
      ((d.Names n ∧ n.policy.canAlert = true) ∨ s.Unasked d n kind) := by
  intro d
  have hhandle : d.isHandling = true → s.Mute (s.act d) ∨ ∃ n kind, s.Voices (s.act d) n kind ∧
      ((d.Names n ∧ n.policy.canAlert = true) ∨ s.Unasked d n kind) := by
    intro hd
    rcases s.voiced_elected hd with h | ⟨n, kind, (hn | ⟨group, due, hdue⟩) | ⟨hdrawn, r, hr⟩, h⟩
    · exact .inl h
    · exact .inr ⟨n, kind, h, .inl hn⟩
    · by_cases ho : s.outcome n due.kind = .shown
      · have hlate := Unasked.due group due hdue ho
        exact .inr ⟨n, due.kind, voices_of_unasked hlate, .inr hlate⟩
      · have hu : s.Lowers (s.unschedule group) := s.lowers_books _ rfl
        rw [act_of_fallsDue hdue]
        exact .inl (mute_move (u := s.unschedule group) ho hu due.source)
    · have hlate := Unasked.drawn r hdrawn hr
      exact .inr ⟨n, r.kind, voices_of_unasked hlate, .inr hlate⟩
  cases o with
  | quiet on => exact .inl (s.mute_setQuiet on)
  | event | groupEvent | suppression | change | rendered | removed | regrouped =>
      exact hhandle rfl

/-! ### Decisions -/

/-- The deed puts a move to the key off and just this is written.  The notice to which it leads is
one of the groups that may alert, or a summary whose scheduled alert falls due. -/
def Grants (key : String) (r : Deferral) (s : Scene) (d : Deed) : Prop :=
  s.written d = [.deferred r.source key r.kind] ∧
    ∃ n, n.key = key ∧ r = Deferral.fresh n r.source r.kind ∧ s.Elects d n

def schedule (s : Scene) (group : String) : Option Schedule := (s.arbiter.record group).schedule

theorem schedules_of_schedule {group : String} {due : Schedule}
    (h : (s.act d).schedule group = some due) :
    Schedules group due s d ∨ s.schedule group = some due := by
  have hturns := s.turns_act d group
  unfold schedule at h ⊢
  generalize (s.act d).arbiter.record group = r at hturns h
  cases hturns with
  | kept | moved | returned => exact .inr h
  | quieted | dissolved | unscheduled => cases h
  | scheduled d group due' hs =>
      cases h
      exact .inl hs

theorem grants_of_pending {key : String} {r : Deferral}
    (h : (s.act d).arbiter.pending[key]? = some r) (hl : r.isLive = true) :
    Grants key r s d ∨ s.arbiter.pending[key]? = some r := by
  rcases (s.tells_elected d).1 key r h hl with ⟨hold, -⟩ | ⟨hw, n, hn, hk, hr⟩
  · exact .inr hold
  · exact .inl ⟨hw, n, hk, hr, hn⟩

end Scene

/-- **Alerts for which nobody asks were decided on before.**  In every course that starts with new
books, with whatever groups and whatever its owner does to the screen: an operation is mute, or it
alerts for one notice, which is one of the groups by which it is done and may alert, or one that is
not asked; and one that is not asked gets the alert, whatever its policy.

If a move waits for content, an earlier deed put it off and wrote just this: to a notice that was
one of its groups and could alert, or to a summary whose scheduled alert fell due.  If an alert is
scheduled, an earlier check scheduled it and wrote just this: for a summary that alone could alert.
What was decided stood on record all the time since then.  The history of a session is such a
course, whatever is asked of the session. -/
theorem late_alerts_were_decided (settings : Settings) :
    let new : Scene := { arbiter := { settings } }
    (∀ (past : List Deed) (g : Grouping) (now : Nat) (o : Scene.Operation),
      let s := new.course past
      let d := Deed.perform g now o
      (s.Mute (s.act d) ∨ ∃ n kind, s.Voices (s.act d) n kind ∧
        ((d.Names n ∧ n.policy.canAlert = true) ∨ s.Unasked d n kind)) ∧
      ∀ n kind, s.Unasked d n kind → s.Voices (s.act d) n kind) ∧
    (∀ (past : List Deed) (key : String) (r : Deferral),
      (new.course past).arbiter.pending[key]? = some r → r.isLive = true →
        new.Since (Scene.Grants key r) (fun t _ => t.arbiter.pending[key]? = some r) past) ∧
    (∀ (past : List Deed) (group : String) (due : Schedule),
      (new.course past).schedule group = some due →
        new.Since (Scene.Schedules group due) (fun t _ => t.schedule group = some due) past) ∧
    ∀ (clock : Clock) (rs : List Request),
      let s := Session.create settings clock
      s.scene = new ∧ s.scene.course (s.history rs) = (s.run rs).scene := by
  intro new
  have hall : ∀ past, new.Throughout (fun _ _ => True) past := fun _ =>
    Scene.throughout_of_mem fun _ _ _ => trivial
  refine ⟨fun past g now o => ?_, fun past key r hr hl => ?_, fun past group due hdue => ?_,
    fun clock rs => ⟨rfl, Session.course_history rs _⟩⟩
  · exact ⟨(new.course past).asks_perform g now o, fun n kind => Scene.voices_of_unasked⟩
  · have hnew : new.arbiter.pending[key]? ≠ some r := by simp [new]
    exact Scene.since_stands (P := fun t => t.arbiter.pending[key]? = some r)
      (fun t d _ h => Scene.grants_of_pending h hl) (hall past) hr hnew
  · have hnew : new.schedule group ≠ some due := by simp [new, Scene.schedule, Arbiter.record]
    exact Scene.since_stands (P := (·.schedule group = some due))
      (fun t d _ h => Scene.schedules_of_schedule h) (hall past) hdue hnew

/-- The alert of `s` goes to its only child `c`, whose content is missing.  Then `c` is muted, and
its content is drawn. -/
def mutedChild : List Request :=
  let s := Cast.troupe.notice "s"
  let c := Cast.troupe.notice "c"
  let muted : Notice := { c with policy := .mute }
  [.host (.register .headsUp 4), .bind, .send (.added s), .send (.added c),
    .host (.raise .headsUp s), .flush, .send (.updated muted c.membership), .flush,
    .host (.prepare "c" 4 true), .send (.rendered muted)]

/-- The alert of `s` moves to its only child `c`, is taken back as `d` is about to join, and is
scheduled.  Then `s` is muted, and `d` joins. -/
def mutedSummary : List Request :=
  let s := Cast.troupe.notice "s"
  let c := Cast.troupe.notice "c"
  let d := Cast.troupe.notice "d"
  let muted : Notice := { s with policy := .mute }
  [.host (.register .headsUp 4), .bind, .host (.prepare "c" 4 true), .host (.prepare "s" 4 true),
    .send (.added s), .send (.added c), .host (.raise .headsUp s), .flush, .send (.announced d),
    .flush, .send (.updated muted s.membership), .flush, .send (.added d)]

/-- Notices that may not alert get alerts all the same: a child that was muted while its content was
being drawn, and a summary that was muted while its alert was scheduled. -/
theorem muted_notices_alert :
    let s := (Session.create {} {}).run mutedChild
    let t := (Session.create {} {}).run mutedSummary
    (∃ n, s.table.entries["c"]? = some n ∧ n.policy.canAlert = false) ∧
      (s.step .flush).2 = .actions [.completed "c" .headsUp] ∧
      (s.step .flush).1.scene.screen.calls = s.scene.screen.calls ++ [.raise .headsUp "c"] ∧
      (∃ n, t.table.entries["s"]? = some n ∧ n.policy.canAlert = false) ∧
      (t.step .flush).2 = .actions [.moved "c" "s" .headsUp] ∧
      (t.step .flush).1.scene.screen.calls = t.scene.screen.calls ++ [.raise .headsUp "s"] := by
  refine ⟨⟨{ Cast.troupe.notice "c" with policy := .mute }, ?_, rfl⟩, ?_, ?_,
    ⟨{ Cast.troupe.notice "s" with policy := .mute }, ?_, rfl⟩, ?_, ?_⟩ <;>
    decide +kernel

end AlertHandoff
