import AlertHandoff.Proofs.Ledger
import AlertHandoff.Proofs.Promise
import AlertHandoff.Proofs.Registry

/-! # What becomes of the record of a group

The record of a group says when an alert was last moved on in such a way that it may be taken back,
and which alert is scheduled for the summary.  `Scene.Turns` lists all that a deed can make of it,
and under which guard: the reading is written by moves only, and an alert is scheduled by checks
only.  That nothing else happens to a record is `Scene.turns_act`. -/

namespace AlertHandoff

theorem Screen.isSome_presenter_of_isUp {s : Screen} {kind : Kind} {key : String}
    (h : s.isUp kind key = true) : (s.presenter kind).isSome = true := by
  unfold isUp at h
  cases hp : s.presenter kind with
  | none => simp [hp] at h
  | some p => rfl

namespace Scene
variable {s t : Scene} {d : Deed} {g : Grouping} {now : Nat} {group x : String}

/-! ### Moving an alert on -/

/-- An alert of the group is moved on, by the grouping: from its summary, which alone may alert, to
a child that is not up on that kind.  Just this is written. -/
def Moves (g : Grouping) (group : String) (s t : Scene) : Prop :=
  ∃ summary child kind, g.summary group = some summary ∧ summary.policy.summaryOnly = true ∧
    child ∈ g.children group ∧ s.screen.isUp kind summary.key = true ∧
    s.screen.isUp kind child.key = false ∧
    (t.arbiter.journal = s.arbiter.journal ++ [.moved summary.key child.key kind] ∨
      t.arbiter.journal = s.arbiter.journal ++ [.deferred summary.key child.key kind])

theorem record_forward {summary : Notice} (hs : g.summary group = some summary) (s : Scene)
    (now : Nat) (kind : Kind) (x : String) :
    (s.forward g now summary kind).arbiter.record x = s.arbiter.record x ∨
      ((s.forward g now summary kind).arbiter.record x =
          { s.arbiter.record x with lastForward := some now } ∧
        (g.Coherent → Moves g x s (s.forward g now summary kind))) := by
  rcases s.forward_cases g now summary kind with ⟨he, -⟩ | ⟨child, hc, hmay, he⟩
  · rw [he]
    exact .inl rfl
  · have hup := (mayForward_iff.mp hmay).2.2.1
    rw [he, record_of_groups (groups_move _ child summary.key kind)]
    by_cases hmark : summary.policy.summaryOnly = true ∧ s.screen.isUp kind child.key = false
    · have hm : s.markForward summary child kind now =
          s.modifyRecord summary.group fun r => { r with lastForward := some now } := by
        simp [markForward, hmark.1, hmark.2]
      have hrecord := s.record_modifyRecord summary.group x fun r =>
        { r with lastForward := some now }
      rw [hm]
      split at hrecord
      · next hx =>
        subst hx
        refine .inr ⟨hrecord, fun hg => ?_⟩
        have hself : g.summary summary.group = some summary := by rwa [hg group summary hs]
        have hmem := (mem_children_of_heir? hc).1
        refine ⟨summary, child, kind, hself, hmark.1, hmem, hup, hmark.2, ?_⟩
        -- The summary is up, so that there is a presenter.
        refine journal_move ?_ child summary.key
        rw [isSome_presenter_dismiss]
        exact Screen.isSome_presenter_of_isUp hup
      · exact .inl hrecord
    · have hm : s.markForward summary child kind now = s := by
        simp only [markForward]
        rw [if_neg]
        simpa using hmark
      rw [hm]
      exact .inl rfl

/-! ### Taking alerts back -/

/-- The deed checks, by the grouping and the reading of the clock, whether alerts of the group are
to be taken back; the check meets the second scene. -/
inductive Checks (s : Scene) : Deed → Grouping → Nat → String → Scene → Prop
  | announced (g : Grouping) (now : Nat) (n : Notice) (hn : n.isHead = false) :
      Checks s (.perform g now (.event (.announced n))) g now n.group
        { s with arbiter := s.arbiter.announce n }
  | suppression (g : Grouping) (now : Nat) (group : String) (o : Operation)
      (ho : o = .groupEvent (.suppression group false) ∨ o = .suppression group false)
      (hd : (s.arbiter.record group).schedule = none) :
      Checks s (.perform g now o) g now group s

theorem Checks.act (h : s.Checks d g now group t) : s.act d = t.handBack g now group := by
  cases h with
  | announced g now n hn => simp [Scene.act, perform, handleEvent, hn]
  | suppression g now group o ho hd =>
      have hact : s.act (.perform g now o) = s.handleSuppression g now group false := by
        rcases ho with rfl | rfl <;> rfl
      rw [hact]
      unfold handleSuppression
      cases hs : g.summary group with
      | none => simp [handBack, hs]
      | some summary =>
          cases hq : s.arbiter.quiet with
          | true => simp [handBack_of_quiet hq]
          | false => simp [hd]

/-- The check meets a scene with the same records, screen and journal, and the same settings. -/
theorem Checks.same (h : s.Checks d g now group t) :
    t.arbiter.groups = s.arbiter.groups ∧ t.arbiter.journal = s.arbiter.journal ∧
      t.arbiter.settings = s.arbiter.settings := by
  cases h <;> exact ⟨rfl, rfl, rfl⟩

/-- The deed checks whether alerts of the group are to be taken back to its summary, which alone may
alert, and just that the alert is scheduled is written. -/
def Schedules (group : String) (due : Schedule) (s : Scene) (d : Deed) : Prop :=
  s.written d = [.scheduled group due.kind] ∧
    ∃ g now t n, s.Checks d g now group t ∧ g.summary group = some n ∧
      n.policy.summaryOnly = true

/-- A check leaves all other records.  It leaves that of its group too, and writes nothing; or it
drops the reading, or replaces the record by what it schedules for the summary. -/
theorem record_handBack (s : Scene) (g : Grouping) (now : Nat) (group x : String) :
    ((s.handBack g now group).arbiter.record x = s.arbiter.record x ∧
        (x = group → (s.handBack g now group).arbiter.journal = s.arbiter.journal)) ∨
      (x = group ∧ (s.handBack g now group).arbiter.record x =
        { s.arbiter.record x with lastForward := none }) ∨
      (x = group ∧ ∃ n taken, g.summary group = some n ∧ n.policy.summaryOnly = true ∧
        (s.handBack g now group).arbiter.record x =
          { lastForward := none, schedule := some taken } ∧
        (s.handBack g now group).arbiter.journal =
          s.arbiter.journal ++ [.scheduled group taken.kind]) := by
  have htake := record_of_groups (s.groups_takeAll (g.children group)) x
  have hwritten := s.journal_takeAll (g.children group)
  rcases s.handBack_cases g now group with
    ⟨he, -⟩ | ⟨summary, hs, hmay, ⟨-, he⟩ | ⟨taken, -, he⟩⟩
  · rw [he]
    exact .inl ⟨rfl, fun _ => rfl⟩
  · rw [he]
    exact .inl ⟨htake, fun _ => hwritten⟩
  · rw [he, ← htake, ← hwritten]
    generalize (s.takeAll (g.children group)).1 = u
    rcases u.restore_cases g group summary taken with ⟨-, he⟩ | ⟨-, -, he⟩ | ⟨-, -, he⟩
    · rw [he]
      exact .inl ⟨rfl, fun _ => rfl⟩
    · rw [he, record_of_groups (groups_move _ summary taken.source taken.kind),
        record_modifyRecord]
      split
      · next hx => exact .inr (.inl ⟨hx, rfl⟩)
      · next hx => exact .inl ⟨rfl, fun hx' => absurd hx' hx⟩
    · have hrecord := u.record_modifyRecord group x fun _ =>
        { lastForward := none, schedule := some taken }
      rw [he]
      split at hrecord
      · next hx =>
        exact .inr (.inr ⟨hx, summary, taken, hs, (mayHandBack_iff.mp hmay).2.1, hrecord, rfl⟩)
      · next hx => exact .inl ⟨hrecord, fun hx' => absurd hx' hx⟩

/-! ### Deeds -/

/-- All that the deed can make of the record of a group. -/
inductive Turns (s : Scene) : Deed → String → GroupRecord → Prop
  | kept (d : Deed) (group : String) : Turns s d group (s.arbiter.record group)
  | quieted (g : Grouping) (now : Nat) (on : Bool) (group : String) (hon : s.arbiter.quiet ≠ on) :
      Turns s (.perform g now (.quiet on)) group {}
  | dissolved (g : Grouping) (now : Nat) (group : String) :
      Turns s (.perform g now (.groupEvent (.dissolved group))) group {}
  | moved (g : Grouping) (now : Nat) (o : Operation) (group : String)
      (hm : g.Coherent → Moves g group s (s.act (.perform g now o))) :
      Turns s (.perform g now o) group { s.arbiter.record group with lastForward := some now }
  | unscheduled (g : Grouping) (now : Nat) (o : Operation) (group : String)
      (ho : o = .groupEvent (.suppression group false) ∨ o = .suppression group false) :
      Turns s (.perform g now o) group { s.arbiter.record group with schedule := none }
  | returned (d : Deed) (g : Grouping) (now : Nat) (group : String) (t : Scene)
      (hc : s.Checks d g now group t) :
      Turns s d group { s.arbiter.record group with lastForward := none }
  | scheduled (d : Deed) (group : String) (due : Schedule) (h : Schedules group due s d) :
      Turns s d group { lastForward := none, schedule := some due }

theorem turns_of_groups (h : t.arbiter.groups = s.arbiter.groups) (d : Deed) (x : String) :
    s.Turns d x (t.arbiter.record x) := by
  rw [record_of_groups h]
  exact .kept d x

theorem turns_of_forward {summary : Notice} {o : Operation} {kind : Kind}
    (hs : g.summary group = some summary)
    (he : s.act (.perform g now o) = s.forward g now summary kind) (x : String) :
    s.Turns (.perform g now o) x ((s.act (.perform g now o)).arbiter.record x) := by
  rcases record_forward hs s now kind x with h | ⟨h, hm⟩
  · rw [he, h]
    exact .kept _ x
  · rw [← he] at h hm
    rw [h]
    exact .moved g now o x hm

theorem Checks.turns (hc : s.Checks d g now group t) (x : String) :
    s.Turns d x ((s.act d).arbiter.record x) := by
  obtain ⟨hgroups, hjournal, -⟩ := hc.same
  have hsame := record_of_groups hgroups x
  rcases t.record_handBack g now group x with ⟨h, -⟩ | ⟨rfl, h⟩ | ⟨rfl, n, due, hn, honly, h, hj⟩
  · rw [hc.act, h, hsame]
    exact .kept d x
  · rw [hc.act, h, hsame]
    exact .returned d g now x t hc
  · rw [hc.act, h]
    have hwritten : s.written d = [.scheduled x due.kind] :=
      written_of_journal (by rw [hc.act, hj, hjournal])
    exact .scheduled d x due ⟨hwritten, g, now, t, n, hc, hn, honly⟩

theorem turns_suppression {o : Operation} {on : Bool}
    (ho : o = .groupEvent (.suppression group on) ∨ o = .suppression group on) (x : String) :
    s.Turns (.perform g now o) x ((s.act (.perform g now o)).arbiter.record x) := by
  have hact : s.act (.perform g now o) = s.handleSuppression g now group on := by
    rcases ho with rfl | rfl <;> rfl
  have hdrop : on = false →
      s.Turns (.perform g now o) x ((s.unschedule group).arbiter.record x) := by
    rintro rfl
    rw [record_unschedule]
    split
    · next hx =>
      subst hx
      exact .unscheduled g now o x ho
    · exact .kept _ x
  rcases s.handleSuppression_cases g now group on with ⟨he, -⟩ | ⟨summary, hs, h⟩
  · rw [hact, he]
    exact .kept _ x
  · rcases h with ⟨-, kind, -, he⟩ | ⟨rfl, -, hnone, -⟩ | ⟨hoff, -, due, -, ⟨-, he⟩ | ⟨-, he⟩⟩
    · exact turns_of_forward hs (hact.trans he) x
    · exact (Checks.suppression g now group o ho hnone).turns x
    · rw [hact, he]
      exact hdrop hoff
    · rw [hact, he, record_of_groups (groups_move _ summary due.source due.kind)]
      exact hdrop hoff

theorem turns_groupEvent (s : Scene) (g : Grouping) (now : Nat) (e : GroupEvent) (x : String) :
    s.Turns (.perform g now (.groupEvent e)) x ((s.handleGroup g now e).arbiter.record x) := by
  cases e with
  | suppression group on => exact turns_suppression (.inl rfl) x
  | formed group =>
      have hsame := s.record_modifyRecord group x id
      rw [id, ite_self] at hsame
      rw [handleGroup, hsame]
      exact .kept _ x
  | dissolved group =>
      rw [record_dissolved]
      split
      · next hx =>
        subst hx
        exact .dissolved g now x
      · exact .kept _ x

theorem turns_event (s : Scene) (g : Grouping) (now : Nat) (e : Event) (x : String) :
    s.Turns (.perform g now (.event e)) x ((s.handleEvent g now e).arbiter.record x) := by
  cases e with
  | rendered n => exact turns_of_groups (s.groups_rendered n) _ x
  | added n | removed n => exact turns_of_groups rfl _ x
  | announced n =>
      cases hn : n.isHead with
      | true =>
          refine turns_of_groups ?_ _ x
          simp [handleEvent, hn, Arbiter.announce]
      | false => exact (Checks.announced g now n hn).turns x
  | updated n previous =>
      refine turns_of_groups ?_ _ x
      simp only [handleEvent]
      split <;> rfl

theorem turns_setQuiet (s : Scene) (g : Grouping) (now : Nat) (on : Bool) (x : String) :
    s.Turns (.perform g now (.quiet on)) x ((s.arbiter.setQuiet on).record x) := by
  by_cases hon : s.arbiter.quiet = on
  · have hsame : (s.arbiter.setQuiet on).groups = s.arbiter.groups :=
      (Arbiter.groups_setQuiet s.arbiter on).trans (if_pos hon)
    exact turns_of_groups (t := { s with arbiter := s.arbiter.setQuiet on }) hsame _ x
  · rw [record_setQuiet hon]
    exact .quieted g now on x hon

/-- **What becomes of a record** by a deed: it stays as it was; it is cleared, as quiet mode is
turned on or off or the group is dissolved; the reading of the clock is written into it, as an alert
of the group is moved on; what was scheduled is dropped, as the suppression has ended; or a check
drops the reading, or schedules an alert. -/
theorem turns_act (s : Scene) (d : Deed) (x : String) :
    s.Turns d x ((s.act d).arbiter.record x) := by
  cases d with
  | read | arrange screen | report => exact turns_of_groups rfl _ x
  | perform g now o =>
      cases o with
      | event e => exact s.turns_event g now e x
      | groupEvent e => exact s.turns_groupEvent g now e x
      | suppression group on => exact turns_suppression (.inr rfl) x
      | quiet on => exact s.turns_setQuiet g now on x
      | rendered n => exact turns_of_groups (s.groups_rendered n) _ x
      | removed n | regrouped n => exact turns_of_groups rfl _ x
      | change kind c =>
          rcases s.handleChange_cases g now kind c with ⟨he, -⟩ | ⟨n, summary, -, hs, -, he⟩
          · exact turns_of_groups (congrArg (·.arbiter.groups) he) _ x
          · have hact : s.act (.perform g now (.change kind c)) = s.forward g now summary kind := he
            exact turns_of_forward hs hact x

end Scene
end AlertHandoff
