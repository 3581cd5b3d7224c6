import AlertHandoff.Proofs.Cases
import AlertHandoff.Session.Quiescence

/-! # What operations do not look at

No operation reads the journal, and the moments that the records hold are only ever compared with
the reading of the clock.  So on a scene whose journal starts with other actions and whose moments
are told by another clock (`Scene.recast`), every operation is carried out in the same way, if the
other clock is read as well.

The comparison is made with a window only, and then the other clock must measure the same times
(`Settings.Suits`).  Without a window any clock will do, one that stands still as well as one that
runs backwards. -/

namespace AlertHandoff

/-- The record with its moment told by another clock. -/
def GroupRecord.retime (r : GroupRecord) (f : Nat → Nat) : GroupRecord :=
  { r with lastForward := r.lastForward.map f }

@[simp] theorem GroupRecord.schedule_retime (r : GroupRecord) (f : Nat → Nat) :
    (r.retime f).schedule = r.schedule := rfl

/-- Another clock serves as well: there is no window to compare times with, or it measures the same
times. -/
def Settings.Suits (settings : Settings) (f : Nat → Nat) : Prop :=
  settings.window = none ∨ ∀ now time, f now - f time = now - time

theorem Settings.suits_id (settings : Settings) : settings.Suits id := .inr fun _ _ => rfl

theorem GroupRecord.mayReturn_retime {settings : Settings} {f : Nat → Nat}
    (h : settings.Suits f) (r : GroupRecord) (now : Nat) :
    (r.retime f).mayReturn settings.window (f now) = r.mayReturn settings.window now := by
  cases hw : settings.window with
  | none => rfl
  | some w =>
      rcases h with h | h
      · rw [hw] at h
        cases h
      · cases ht : r.lastForward <;> simp [mayReturn, retime, ht, h]

namespace Scene

/-- The scene with some actions written before everything in its journal, and with the moments in
its records told by another clock. -/
def recast (s : Scene) (past : List Action) (f : Nat → Nat) : Scene :=
  { s with arbiter := { s.arbiter with
      journal := past ++ s.arbiter.journal
      groups := s.arbiter.groups.map fun _ r => r.retime f } }

variable (s : Scene) (past : List Action) (f : Nat → Nat)

/-- Without anything before the journal, and by the same clock, the scene is what it was. -/
@[simp] theorem recast_id : s.recast [] id = s := by
  have hgroups : (s.arbiter.groups.map fun _ r => r.retime id) = s.arbiter.groups := by
    apply Std.ExtTreeMap.ext_getElem?
    intro x
    simp [GroupRecord.retime]
  rw [recast, hgroups, List.nil_append]

@[simp] theorem screen_recast : (s.recast past f).screen = s.screen := rfl

@[simp] theorem pending_recast : (s.recast past f).arbiter.pending = s.arbiter.pending := rfl

@[simp] theorem quiet_recast : (s.recast past f).arbiter.quiet = s.arbiter.quiet := rfl

@[simp] theorem settings_recast : (s.recast past f).arbiter.settings = s.arbiter.settings := rfl

@[simp] theorem record_recast (group : String) :
    (s.recast past f).arbiter.record group = (s.arbiter.record group).retime f := by
  simp only [Arbiter.record, recast, Std.ExtTreeMap.getElem?_map]
  cases s.arbiter.groups[group]? <;> rfl

@[simp] theorem outcome_recast (n : Notice) (kind : Kind) :
    (s.recast past f).outcome n kind = s.outcome n kind := rfl

@[simp] theorem mayForward_recast (g : Grouping) (summary : Notice) (kind : Kind) :
    (s.recast past f).mayForward g summary kind = s.mayForward g summary kind := rfl

theorem mayHandBack_recast {f : Nat → Nat} (hf : s.arbiter.settings.Suits f) (g : Grouping)
    (now : Nat) (group : String) (summary : Notice) :
    (s.recast past f).mayHandBack g (f now) group summary =
      s.mayHandBack g now group summary := by
  simp only [mayHandBack, record_recast, settings_recast, GroupRecord.mayReturn_retime hf]
  rfl

/-! ### Books, presenters and rows -/

@[simp] theorem recast_write (actions : List Action) :
    (s.recast past f).write actions = (s.write actions).recast past f := by
  simp [recast, write, Arbiter.write]

/-- A record is changed alike if the other clock tells the changed moments. -/
theorem recast_modifyRecord {f : Nat → Nat} {h h' : GroupRecord → GroupRecord}
    (hh : ∀ r : GroupRecord, h' (r.retime f) = (h r).retime f) (group : String) :
    (s.recast past f).modifyRecord group h' = (s.modifyRecord group h).recast past f := by
  have hrecord := s.record_recast past f group
  have hgroups : (s.recast past f).arbiter.groups.insert group
      (h' ((s.recast past f).arbiter.record group)) =
        (s.arbiter.groups.insert group (h (s.arbiter.record group))).map
          fun _ r => r.retime f := by
    apply Std.ExtTreeMap.ext_getElem?
    intro x
    rw [hrecord, hh]
    by_cases hx : group = x <;>
      simp [recast, Std.ExtTreeMap.getElem?_insert, Std.ExtTreeMap.getElem?_map, hx]
  simp only [modifyRecord, Arbiter.modifyRecord, hgroups]
  rfl

@[simp] theorem recast_unschedule (group : String) :
    (s.recast past f).unschedule group = (s.unschedule group).recast past f := by
  have hgroups : (s.recast past f).arbiter.groups.modify group
      (fun r => { r with schedule := none }) =
        (s.arbiter.groups.modify group fun r => { r with schedule := none }).map
          fun _ r => r.retime f := by
    apply Std.ExtTreeMap.ext_getElem?
    intro x
    by_cases hx : group = x
    · subst hx
      simp [recast, Std.ExtTreeMap.getElem?_map, Option.map_map, Function.comp_def,
        GroupRecord.retime]
    · simp [recast, Std.ExtTreeMap.getElem?_modify, Std.ExtTreeMap.getElem?_map, hx]
  simp only [unschedule, hgroups]
  rfl

@[simp] theorem recast_clearDeferral (key : String) :
    (s.recast past f).clearDeferral key = (s.clearDeferral key).recast past f := rfl

@[simp] theorem recast_dismiss (kind : Kind) (key : String) :
    (s.recast past f).dismiss kind key = (s.dismiss kind key).recast past f := rfl

@[simp] theorem recast_deliver (n : Notice) (source : String) (kind : Kind) :
    (s.recast past f).deliver n source kind = (s.deliver n source kind).recast past f := by
  unfold deliver
  rw [screen_recast]
  split
  · rfl
  · split <;> rfl

@[simp] theorem recast_move (n : Notice) (source : String) (kind : Kind) :
    (s.recast past f).move n source kind = (s.move n source kind).recast past f := by
  simp [move]

/-! ### Moving an alert on and taking it back -/

theorem recast_markForward (summary child : Notice) (kind : Kind) (now : Nat) :
    (s.recast past f).markForward summary child kind (f now) =
      (s.markForward summary child kind now).recast past f := by
  unfold markForward
  rw [screen_recast]
  split
  · exact s.recast_modifyRecord past (fun _ => rfl) summary.group
  · rfl

theorem recast_forward (g : Grouping) (now : Nat) (summary : Notice) (kind : Kind) :
    (s.recast past f).forward g (f now) summary kind =
      (s.forward g now summary kind).recast past f := by
  unfold forward
  rw [mayForward_recast]
  split
  · split
    · rfl
    · rw [recast_markForward, recast_dismiss, recast_move]
  · rfl

theorem recast_takeAlert (child : Notice) (taken : Option Schedule) :
    takeAlert child (s.recast past f) taken =
      ((takeAlert child s taken).1.recast past f, (takeAlert child s taken).2) := by
  unfold takeAlert
  rw [screen_recast]
  split
  · split <;> rfl
  · rfl

theorem recast_takeDeferral (child : Notice) (taken : Option Schedule) :
    takeDeferral child (s.recast past f) taken =
      ((takeDeferral child s taken).1.recast past f, (takeDeferral child s taken).2) := by
  unfold takeDeferral
  rw [pending_recast]
  split
  · rfl
  · split <;> rfl

theorem recast_takeAll (children : List Notice) :
    (s.recast past f).takeAll children =
      ((s.takeAll children).1.recast past f, (s.takeAll children).2) := by
  have hfold : ∀ acc : Scene × Option Schedule,
      children.foldl takeFrom (acc.1.recast past f, acc.2) =
        ((children.foldl takeFrom acc).1.recast past f, (children.foldl takeFrom acc).2) := by
    induction children with
    | nil => exact fun _ => rfl
    | cons child children ih =>
        intro acc
        rw [List.foldl_cons, List.foldl_cons, ← ih]
        refine congrArg (children.foldl takeFrom) ?_
        unfold takeFrom
        dsimp only
        rw [recast_takeAlert, recast_takeDeferral]
  exact hfold (s, none)

theorem recast_restore (g : Grouping) (group : String) (summary : Notice) (taken : Schedule) :
    (s.recast past f).restore g group summary taken =
      (s.restore g group summary taken).recast past f := by
  unfold restore
  rw [screen_recast]
  split
  · rfl
  · split
    · rw [s.recast_modifyRecord past (h := fun r => { r with lastForward := none })
        (fun _ => rfl), recast_move]
    · rw [s.recast_modifyRecord past (h := fun _ => { lastForward := none, schedule := some taken })
        (fun _ => rfl), recast_write]

section suits
variable {f} (hf : s.arbiter.settings.Suits f)
include hf

theorem recast_handBack (g : Grouping) (now : Nat) (group : String) :
    (s.recast past f).handBack g (f now) group = (s.handBack g now group).recast past f := by
  unfold handBack
  split
  · rfl
  · rw [s.mayHandBack_recast past hf]
    split
    · rw [recast_takeAll]
      rcases s.takeAll (g.children group) with ⟨t, _ | taken⟩
      · rfl
      · exact t.recast_restore past f g group _ taken
    · rfl

end suits

/-! ### Content that has been drawn -/

@[simp] theorem recast_release (n : Notice) (kind : Kind) :
    (s.recast past f).release n kind = (s.release n kind).recast past f := by
  unfold release
  rw [screen_recast]
  split <;> rfl

theorem recast_complete (n : Notice) (d : Deferral) :
    (s.recast past f).complete n d = (s.complete n d).recast past f := by
  unfold complete
  rw [recast_deliver, recast_write]
  rfl

theorem recast_rendered (n : Notice) :
    (s.recast past f).rendered n = (s.rendered n).recast past f := by
  unfold rendered
  rw [pending_recast]
  split
  · rfl
  · next d _ =>
    dsimp only
    rw [recast_clearDeferral]
    generalize s.clearDeferral n.key = t
    rw [quiet_recast, screen_recast]
    split
    · simp
    · split
      · simp
      · split
        · simp
        · split
          · simp
          · exact t.recast_complete past f n d

/-! ### Operations -/

theorem recast_handleChange (g : Grouping) (now : Nat) (kind : Kind) (c : Change) :
    (s.recast past f).handleChange g (f now) kind c =
      (s.handleChange g now kind c).recast past f := by
  unfold handleChange
  split
  · rfl
  · split
    · split
      · rfl
      · split
        · exact s.recast_forward past f g now _ kind
        · rfl
    · rfl

theorem recast_setQuiet (on : Bool) :
    (s.recast past f).arbiter.setQuiet on =
      (recast { s with arbiter := s.arbiter.setQuiet on } past f).arbiter := by
  have hgroups : (s.recast past f).arbiter.groups.map (fun _ _ => ({} : GroupRecord)) =
      (s.arbiter.groups.map fun _ _ => {}).map fun _ (r : GroupRecord) => r.retime f := by
    apply Std.ExtTreeMap.ext_getElem?
    intro x
    simp [recast, Std.ExtTreeMap.getElem?_map, GroupRecord.retime]
  simp only [Arbiter.setQuiet, quiet_recast, hgroups]
  split <;> split <;> simp [recast, Arbiter.giveUp]

section suits
variable {f} (hf : s.arbiter.settings.Suits f)
include hf

theorem recast_handleSuppression (g : Grouping) (now : Nat) (group : String) (on : Bool) :
    (s.recast past f).handleSuppression g (f now) group on =
      (s.handleSuppression g now group on).recast past f := by
  unfold handleSuppression
  rw [screen_recast, quiet_recast, record_recast, GroupRecord.schedule_retime]
  split
  · rfl
  · next summary _ =>
    split
    · split
      · rfl
      · exact s.recast_forward past f g now summary _
    · split
      · rfl
      · split
        · exact s.recast_handBack past hf g now group
        · next due _ =>
          dsimp only
          rw [recast_unschedule, screen_recast]
          split
          · rfl
          · exact recast_move _ past f summary due.source due.kind

theorem recast_handleGroup (g : Grouping) (now : Nat) (e : GroupEvent) :
    (s.recast past f).handleGroup g (f now) e = (s.handleGroup g now e).recast past f := by
  cases e with
  | formed group => exact s.recast_modifyRecord past (fun _ => rfl) group
  | dissolved group =>
      have hgroups : (s.recast past f).arbiter.groups.erase group =
          (s.arbiter.groups.erase group).map fun _ r => r.retime f := by
        apply Std.ExtTreeMap.ext_getElem?
        intro x
        by_cases hx : group = x <;>
          simp [recast, Std.ExtTreeMap.getElem?_erase, Std.ExtTreeMap.getElem?_map, hx]
      simp only [handleGroup, hgroups]
      rfl
  | suppression group on => exact s.recast_handleSuppression past hf g now group on

theorem recast_handleEvent (g : Grouping) (now : Nat) (e : Event) :
    (s.recast past f).handleEvent g (f now) e = (s.handleEvent g now e).recast past f := by
  cases e with
  | announced n =>
      simp only [handleEvent]
      split
      · rfl
      · exact recast_handBack { s with arbiter := s.arbiter.announce n } past hf g now n.group
  | added n => rfl
  | updated n previous =>
      simp only [handleEvent]
      split
      · rfl
      · simp [recast, Arbiter.regroup, Arbiter.refresh, Arbiter.giveUp]
  | removed n => simp [handleEvent, recast, Arbiter.remove, Arbiter.added, Arbiter.giveUp]
  | rendered n => exact s.recast_rendered past f n

/-- **Operations look neither at the journal nor at the clock itself.** -/
theorem recast_perform (g : Grouping) (now : Nat) (o : Operation) :
    (s.recast past f).perform g (f now) o = (s.perform g now o).recast past f := by
  cases o with
  | event e => exact s.recast_handleEvent past hf g now e
  | groupEvent e => exact s.recast_handleGroup past hf g now e
  | suppression group on => exact s.recast_handleSuppression past hf g now group on
  | change kind c => exact s.recast_handleChange past f g now kind c
  | rendered n => exact s.recast_rendered past f n
  | removed n => exact s.recast_handleEvent past hf g now (.removed n)
  | regrouped n => simp [perform, recast, Arbiter.regroup, Arbiter.giveUp]
  | quiet on =>
      simp only [perform, recast_setQuiet]
      rfl

end suits

end Scene
end AlertHandoff
