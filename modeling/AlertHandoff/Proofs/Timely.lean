import AlertHandoff.Proofs.History
import AlertHandoff.Proofs.Record

/-! # Alerts are taken back in time

A record says when an alert of its group was last moved on in such a way that it may be taken back.
It is written by such moves only (`Scene.Forwards`), and cleared when quiet mode is turned on or
off, when the group is dissolved, and when an alert that was taken back is alerted, put off or
scheduled for the summary.  So as long as a reading stands in the record, the deeds since that move
did none of this (`Scene.Spares`), which `since_forwards` says of every course.

With a window in the settings a check takes nothing unless such a reading stands, and less time than
the window has passed since then: `hand_backs_keep_to_the_window`. -/

namespace AlertHandoff

theorem Deed.le_of_pairwise {before between : List Deed} {opening last : Deed} {time now : Nat}
    (h : ((before ++ opening :: (between ++ [last])).filterMap reading?).Pairwise (· ≤ ·))
    (ho : opening.reading? = some time) (hl : last.reading? = some now) : time ≤ now := by
  rw [List.filterMap_append, List.pairwise_append, List.filterMap_cons_some ho,
    List.pairwise_cons] at h
  refine h.2.1.1 now ?_
  rw [List.mem_filterMap]
  exact ⟨last, by simp, hl⟩

namespace Scene
variable {s t : Scene} {d : Deed} {g : Grouping} {now time : Nat} {group : String}

/-- When an alert of the group was last moved on in such a way that it may be taken back. -/
def lastForward (s : Scene) (group : String) : Option Nat := (s.arbiter.record group).lastForward

theorem Checks.reading (h : s.Checks d g now group t) : d.reading? = some now := by
  cases h <;> rfl

/-- The deed moves an alert of the group on, at the reading of the clock, in such a way that it may
be taken back. -/
def Forwards (s : Scene) (d : Deed) (group : String) (time : Nat) : Prop :=
  ∃ g o, d = .perform g time o ∧ Moves g group s (s.act d)

theorem Forwards.reading (h : s.Forwards d group time) : d.reading? = some time := by
  obtain ⟨g, o, rfl, -⟩ := h
  rfl

/-- The deed neither turns quiet mode on or off nor dissolves the group, and if it checks whether
alerts of the group are to be taken back, none is alerted, put off or scheduled. -/
structure Spares (group : String) (s : Scene) (d : Deed) : Prop where
  quiet : (s.act d).arbiter.quiet = s.arbiter.quiet
  stays : ∀ g now, d ≠ .perform g now (.groupEvent (.dissolved group))
  idle : ∀ g now t, s.Checks d g now group t → s.written d = []

/-- **What leaves a reading in the record spares the group.** -/
theorem spares_of_lastForward (h : (s.act d).lastForward group = some time) :
    s.Spares group d where
  quiet := by
    cases d with
    | read | arrange screen | report => rfl
    | perform g now o =>
        by_cases ho : ∃ on, o = .quiet on
        · obtain ⟨on, rfl⟩ := ho
          have hq : s.arbiter.quiet = on := Decidable.byContradiction fun hon => by
            have hnone : (s.act (.perform g now (.quiet on))).lastForward group = none :=
              congrArg GroupRecord.lastForward (record_setQuiet hon group)
            rw [h] at hnone
            cases hnone
          exact (Arbiter.quiet_setQuiet s.arbiter on).trans hq.symm
        · exact quiet_perform s g now fun on he => ho ⟨on, he⟩
  stays := by
    rintro g now rfl
    simp [lastForward, Arbiter.record, act, perform, handleGroup] at h
  idle := by
    intro g now t hc
    refine written_of_journal ?_
    rw [hc.act, List.append_nil, ← hc.same.2.1]
    rw [hc.act, lastForward] at h
    rcases t.record_handBack g now group group with ⟨-, hj⟩ | ⟨-, he⟩ | ⟨-, n, taken, -, -, he, -⟩
    · exact hj rfl
    · rw [he] at h
      cases h
    · rw [he] at h
      cases h

theorem forwards_of_lastForward (hd : d.Uses fun g _ => g.Coherent)
    (h : (s.act d).lastForward group = some time) :
    s.Forwards d group time ∨ s.lastForward group = some time := by
  have hturns := s.turns_act d group
  unfold lastForward at h ⊢
  generalize (s.act d).arbiter.record group = r at hturns h
  cases hturns with
  | kept | unscheduled => exact .inr h
  | quieted | dissolved | returned | scheduled => cases h
  | moved g now o group hm =>
      cases h
      exact .inl ⟨g, o, rfl, hm hd⟩

/-! ### Courses -/

/-- **Every reading goes back to a move** in a course that starts with an empty record, and the
deeds since then spared the group. -/
theorem since_forwards {ds : List Deed} (hd : ∀ d ∈ ds, d.Uses fun g _ => g.Coherent)
    (hnone : s.lastForward group = none) (h : (s.course ds).lastForward group = some time) :
    s.Since (Forwards · · group time) (Spares group) ds := by
  refine since_of_step (P := (·.lastForward group = some time))
    (R := fun _ d => d.Uses fun g _ => g.Coherent) (fun t d hu ht => ?_)
    (throughout_of_mem fun _ => hd) h ?_
  · exact (forwards_of_lastForward hu ht).imp_right fun hold => ⟨hold, spares_of_lastForward ht⟩
  · intro ht
    rw [hnone] at ht
    cases ht

theorem settings_act (s : Scene) (d : Deed) : (s.act d).arbiter.settings = s.arbiter.settings := by
  cases d with
  | perform g now o => exact s.settings_perform g now o
  | read | arrange screen | report => rfl

theorem settings_course : ∀ (ds : List Deed) (s : Scene),
    (s.course ds).arbiter.settings = s.arbiter.settings
  | [], _ => rfl
  | d :: ds, s => (settings_course ds (s.act d)).trans (s.settings_act d)

theorem Checks.lastForward {w : UInt64} (h : s.Checks d g now group t)
    (hw : s.arbiter.settings.window = some w) (hne : t.handBack g now group ≠ t) :
    ∃ time, s.lastForward group = some time ∧ now - time < 1000 * w.toNat := by
  rcases t.handBack_cases g now group with ⟨he, -⟩ | ⟨summary, -, hmay, -⟩
  · exact absurd he hne
  · have hreturn := (mayHandBack_iff.mp hmay).2.2.1
    rw [h.same.2.2, hw, GroupRecord.mayReturn_some_iff] at hreturn
    obtain ⟨time, ht, hlt⟩ := hreturn
    exact ⟨time, (congrArg _ (record_of_groups h.same.1 group)).symm.trans ht, hlt⟩

end Scene

/-- **Alerts are taken back only in time.**  With a window in the settings: in every course that
starts with new books, with groups whose summaries are their own, whatever its owner does to the
screen, and with a clock that does not go back, whenever a check whether alerts of a group are to be
taken back changes anything at all (it dismisses the alert of a child, takes back the move that
waits for one, or schedules the alert of the summary), an earlier deed moved an alert of the group
on, from its summary, which alone may alert, to a child that was not up on that kind, and wrote that
the alert was moved or put off.  Less time than the window has passed since then, so that the window
is not empty, and all deeds in between spared the group.  The history of a session is such a course,
whatever is asked of the session. -/
theorem hand_backs_keep_to_the_window (settings : Settings) (w : UInt64)
    (hw : settings.window = some w) :
    (∀ (past : List Deed) (last : Deed) (g : Grouping) (now : Nat) (group : String) (t : Scene),
      let s : Scene := { arbiter := { settings } }
      (∀ d ∈ past, d.Uses fun g _ => g.Coherent) →
      ((past ++ [last]).filterMap Deed.reading?).Pairwise (· ≤ ·) →
      (s.course past).Checks last g now group t → t.handBack g now group ≠ t →
        (s.course past).act last = t.handBack g now group ∧ w ≠ 0 ∧
          ∃ time, time ≤ now ∧ now - time < 1000 * w.toNat ∧
            s.Since (Scene.Forwards · · group time) (Scene.Spares group) past) ∧
    ∀ (clock : Clock) (rs : List Request),
      let s := Session.create settings clock
      s.scene.course (s.history rs) = (s.run rs).scene ∧
        (∀ d ∈ s.history rs, d.Uses fun g _ => g.Coherent) ∧
        ((s.history rs).filterMap Deed.reading?).Pairwise (· ≤ ·) := by
  constructor
  · intro past last g now group t s hpast hclock hcheck hne
    have hsettings : (s.course past).arbiter.settings.window = some w := by
      rw [Scene.settings_course past]
      exact hw
    obtain ⟨time, ht, hlt⟩ := hcheck.lastForward hsettings hne
    have hnew : s.lastForward group = none := by simp [s, Scene.lastForward, Arbiter.record]
    have hsince := Scene.since_forwards hpast hnew ht
    refine ⟨hcheck.act, ?_, time, ?_, hlt, hsince⟩
    · rintro rfl
      exact absurd hlt (Nat.not_lt_zero _)
    · obtain ⟨before, opening, between, rfl, hopen, -⟩ := hsince
      rw [List.append_assoc, List.cons_append] at hclock
      exact Deed.le_of_pairwise hclock hopen.reading hcheck.reading
  · intro clock rs s
    have hi : s.table.Indexed := Roster.indexed_empty
    refine ⟨Session.course_history rs s, fun d hd => ?_, Session.pairwise_readings rs hi⟩
    refine (Session.uses_history rs hi d hd).mono ?_
    rintro g now ⟨⟨r, hr, rfl⟩, -⟩
    exact hr.coherent

/-- The alert of `s` goes to its only child `c` as soon as that is there.  Later `d` is about to
join. -/
def timely : List Request :=
  [.host (.register .headsUp 4), .bind, .send (.added (Cast.troupe.notice "s")),
    .host (.raise .headsUp (Cast.troupe.notice "s")), .send (.added (Cast.troupe.notice "c")),
    .flush, .advance 50000, .send (.announced (Cast.troupe.notice "d"))]

theorem timely_hand_back :
    let new := Session.create { window := some 100 } {}
    let s := new.run timely
    (s.step .flush).2 = .actions [.scheduled "g" .headsUp] ∧
      ∃ time, 50000 - time < 100000 ∧
        new.scene.Since (Scene.Forwards · · "g" time) (Scene.Spares "g") (new.history timely) := by
  intro new s
  obtain ⟨hwindow, hsession⟩ := hand_backs_keep_to_the_window { window := some 100 } 100 rfl
  obtain ⟨hcourse, huses, -⟩ := hsession {} timely
  have hcheck := Scene.Checks.announced (s := new.scene.course (new.history timely))
    s.table.grouping 50000 (Cast.troupe.notice "d") rfl
  obtain ⟨-, -, time, -, hlt, hsince⟩ :=
    hwindow _ _ _ _ _ _ huses (by decide +kernel) hcheck (by
      intro he
      have hj := congrArg (fun t : Scene => t.arbiter.journal) he
      revert hj
      rw [hcourse]
      decide +kernel)
  exact ⟨by decide +kernel, time, hlt, hsince⟩

end AlertHandoff
