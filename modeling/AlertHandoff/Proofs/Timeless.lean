import AlertHandoff.Proofs.Batching
import AlertHandoff.Proofs.Cast
import AlertHandoff.Proofs.Recast
import AlertHandoff.Proofs.Within
import AlertHandoff.Session.Overview
import Mathlib.Data.List.Forall2

/-! # Without a window time does not matter

A clock may read anything, also from one operation to the next.  `Timed` is a scene together with
what the clock will read at the operations to come, and `Session.stepOn` carries out a request with
such a clock; with a clock that stands still it is `Session.step` (`stepOn_step`).

Without a window no decision depends on what is read (`Scene.recast_perform`).  So whatever the
clock reads, a session goes through the same states as one whose clock never moves, up to the
moments in its records (`Session.still_stepOn`), and two sessions with different clocks go through
the same states as each other: `time_does_not_matter`. -/

namespace AlertHandoff

/-- A scene, and what the clock will read at the operations to come. -/
structure Timed where
  scene : Scene
  readings : Nat → Nat

namespace Timed

/-- Carries out an operation with the next reading of the clock. -/
def perform (x : Timed) (g : Grouping) (o : Scene.Operation) : Timed where
  scene := x.scene.perform g (x.readings 0) o
  readings i := x.readings (i + 1)

/-- Reads every feed and handles the changes that were in them, in order. -/
def round (x : Timed) (g : Grouping) : Timed :=
  x.scene.screen.news.foldl (fun x c => x.perform g (.change c.1 c.2))
    { x with scene := x.scene.act .read }

/-- Repeats rounds until there is no news, at most the given number of times. -/
def rounds (g : Grouping) : Nat → Timed → Timed
  | 0, x => x
  | n + 1, x => if x.scene.screen.news.isEmpty then x else rounds g n (x.round g)

/-- Handles the changes that presenters report until there are none. -/
def quiesce (x : Timed) (g : Grouping) : Timed := rounds g (x.scene.screen.news.length + 1) x

/-- Handles the events of groups, each until there is no news left. -/
def replay (g : Grouping) (x : Timed) (events : List GroupEvent) : Timed :=
  events.foldl (fun x e => (x.perform g (.groupEvent e)).quiesce g) x

/-- Handles the event of a notice. -/
def handle (x : Roster × Timed) (e : Event) : Roster × Timed :=
  let timed := (x.2.perform x.1.grouping (.event e)).quiesce x.1.grouping
  let roster := x.1.next e
  (roster, replay roster.grouping timed (x.1.track e).1)

/-- By the other clock, all readings to come are one and the same, and the scene is the second
one. -/
structure Told (past : List Action) (f : Nat → Nat) (now : Nat) (x : Timed) (s : Scene) : Prop where
  suits : x.scene.arbiter.settings.Suits f
  reads : ∀ i, f (x.readings i) = now
  scene : x.scene.recast past f = s

namespace Told
variable {past : List Action} {f : Nat → Nat} {now : Nat} {x : Timed} {s : Scene}

theorem screen (h : Told past f now x s) : x.scene.screen = s.screen := by
  rw [← h.scene]
  rfl

theorem read (h : Told past f now x s) :
    Told past f now { x with scene := x.scene.act .read } (s.act .read) := by
  refine ⟨h.suits, h.reads, ?_⟩
  rw [← h.scene]
  rfl

theorem perform (h : Told past f now x s) (g : Grouping) (o : Scene.Operation) :
    Told past f now (x.perform g o) (s.perform g now o) where
  suits := by
    rw [Timed.perform, Scene.settings_perform]
    exact h.suits
  reads i := h.reads (i + 1)
  scene := by
    rw [Timed.perform, ← Scene.recast_perform _ past h.suits, h.reads, h.scene]

theorem round (h : Told past f now x s) (g : Grouping) :
    Told past f now (x.round g) (s.round g now) := by
  have hfold : ∀ (xs : List (Kind × Change)) {x : Timed} {s : Scene}, Told past f now x s →
      Told past f now (xs.foldl (fun x c => x.perform g (.change c.1 c.2)) x)
        (xs.foldl (fun s c => s.handleChange g now c.1 c.2) s) := by
    intro xs
    induction xs with
    | nil => exact fun h => h
    | cons c xs ih => exact fun h => ih (h.perform g (.change c.1 c.2))
  unfold Timed.round Scene.round
  rw [h.screen]
  exact hfold _ h.read

theorem quiesce (h : Told past f now x s) (g : Grouping) :
    Told past f now (x.quiesce g) (s.quiesce g now) := by
  have hrounds : ∀ (n : Nat) {x : Timed} {s : Scene}, Told past f now x s →
      Told past f now (Timed.rounds g n x) (Scene.rounds g now n s) := by
    intro n
    induction n with
    | zero => exact fun h => h
    | succ n ih =>
        intro x s h
        unfold Timed.rounds Scene.rounds
        rw [h.screen]
        split
        · exact h
        · exact ih (h.round g)
  unfold Timed.quiesce Scene.quiesce
  rw [h.screen]
  exact hrounds _ h

theorem replay (h : Told past f now x s) (g : Grouping) : ∀ events : List GroupEvent,
    Told past f now (Timed.replay g x events) (Session.replay g now s events) := by
  intro events
  induction events generalizing x s with
  | nil => exact h
  | cons e events ih => exact ih ((h.perform g (.groupEvent e)).quiesce g)

theorem handle {x : Roster × Timed} {y : Roster × Scene} (hr : x.1 = y.1)
    (h : Told past f now x.2 y.2) (e : Event) :
    (Timed.handle x e).1 = (Session.handle now y e).1 ∧
      Told past f now (Timed.handle x e).2 (Session.handle now y e).2 := by
  unfold Timed.handle Session.handle
  rw [hr]
  exact ⟨rfl, ((h.perform _ (.event e)).quiesce _).replay _ _⟩

theorem foldl_handle : ∀ (es : List Event) {x : Roster × Timed} {y : Roster × Scene}, x.1 = y.1 →
    Told past f now x.2 y.2 →
      (es.foldl Timed.handle x).1 = (es.foldl (Session.handle now) y).1 ∧
        Told past f now (es.foldl Timed.handle x).2 (es.foldl (Session.handle now) y).2
  | [], _, _, hr, h => ⟨hr, h⟩
  | e :: es, _, _, hr, h => foldl_handle es (handle hr h e).1 (handle hr h e).2

end Told
end Timed

namespace Session

/-- Handles what the host did since the last time and every event in the inbox, with a clock that
has these readings. -/
def flushOn (s : Session) (readings : Nat → Nat) : Session × Reply :=
  match s.roster with
  | none => (s, .refused .notBound)
  | some roster =>
    let x := s.inbox.foldl Timed.handle
      (roster, Timed.quiesce { scene := s.scene, readings } roster.grouping)
    (s.settle (x.1, x.2.scene), .actions x.2.scene.arbiter.journal)

/-- Carries out a request with a clock that has these readings. -/
def stepOn (s : Session) (readings : Nat → Nat) : Request → Session × Reply
  | .flush => s.flushOn readings
  | r => s.step r

/-- The sessions and replies that a list of requests leads to, one after the other, each request
with the readings of the clock while it is carried out. -/
def trail : Session → List (Request × (Nat → Nat)) → List (Session × Reply)
  | _, [] => []
  | s, (r, readings) :: rs => s.stepOn readings r :: trail (s.stepOn readings r).1 rs

/-- What a flush does by the readings of its clock, told by another clock that makes all readings
the same. -/
theorem told_flushOn {s : Session} {roster : Roster} (hr : s.roster = some roster)
    (readings f : Nat → Nat) (now : Nat) (hf : s.scene.arbiter.settings.Suits f)
    (hnow : ∀ i, f (readings i) = now) :
    ∃ x, s.flushOn readings = (s.settle x, .actions x.2.arbiter.journal) ∧
      s.inbox.foldl (handle now) (roster, (s.scene.recast [] f).quiesce roster.grouping now) =
        (x.1, x.2.recast [] f) := by
  have hstart : Timed.Told [] f now { scene := s.scene, readings } (s.scene.recast [] f) :=
    ⟨hf, hnow, rfl⟩
  obtain ⟨hroster, htold⟩ :=
    Timed.Told.foldl_handle s.inbox (x := (roster, _)) (y := (roster, _)) rfl
      (hstart.quiesce roster.grouping)
  refine ⟨_, by rw [flushOn, hr], ?_⟩
  exact Prod.ext hroster.symm htold.scene.symm

/-- **A clock that stands still** during each request is the session's own. -/
theorem stepOn_step (s : Session) (r : Request) : s.stepOn (fun _ => s.clock.now) r = s.step r := by
  cases r with
  | host c | advance micros | bind | send e | close | quiet on => rfl
  | flush =>
      cases hr : s.roster with
      | none => simp [stepOn, flushOn, step, hr, flush_of_none hr]
      | some roster =>
          obtain ⟨x, hx, he⟩ := told_flushOn hr (fun _ => s.clock.now) id s.clock.now
            (Settings.suits_id _) fun _ => rfl
          rw [Scene.recast_id, Scene.recast_id] at he
          have hflushed : s.flushed roster = x := he
          rw [step_flush hr, hflushed]
          exact hx

/-! ### A clock that never moves -/

/-- The session with a clock that cannot be advanced, and which shows no time in its records. -/
def still (s : Session) : Session :=
  { s with scene := s.scene.recast [] fun _ => 0, clock := { isFree := true } }

end Session

/-- The request, but for how far the clock is advanced. -/
def Request.timeless : Request → Request
  | .advance _ => .advance 0
  | r => r

namespace Session

/-- **What the clock reads does not matter**: the session goes where it would go with a clock that
never moves, and gives the same reply. -/
theorem still_stepOn {s : Session} (hw : s.scene.arbiter.settings.window = none)
    (readings : Nat → Nat) (r : Request) :
    s.still.step r.timeless = ((s.stepOn readings r).1.still, (s.stepOn readings r).2) := by
  cases r with
  | host c | advance micros | close => rfl
  | bind =>
      have hbound : s.still.roster = s.roster := rfl
      simp only [Request.timeless, stepOn, step, bind, hbound]
      split <;> rfl
  | send e =>
      have hclosed : s.still.isClosed = s.isClosed := rfl
      simp only [Request.timeless, stepOn, step, send, hclosed]
      split <;> rfl
  | quiet on =>
      simp only [Request.timeless, stepOn, step, still, Scene.recast_setQuiet]
      rfl
  | flush =>
      cases hr : s.roster with
      | none =>
          have hr' : s.still.roster = none := hr
          simp [Request.timeless, stepOn, flushOn, step, hr, flush_of_none hr']
      | some roster =>
          have hr' : s.still.roster = some roster := hr
          obtain ⟨x, hx, he⟩ := told_flushOn hr readings (fun _ => 0) 0 (.inl hw) fun _ => rfl
          have hflushed : s.still.flushed roster = (x.1, x.2.recast [] fun _ => 0) := he
          show s.still.step .flush = ((s.flushOn readings).1.still, (s.flushOn readings).2)
          rw [step_flush hr', hflushed, hx]
          rfl

theorem settings_step (s : Session) (r : Request) :
    (s.step r).1.scene.arbiter.settings = s.scene.arbiter.settings := by
  cases r with
  | host c | advance micros | close => rfl
  | bind =>
      simp only [step, bind]
      split <;> rfl
  | send e =>
      simp only [step, send]
      split <;> rfl
  | quiet on => exact s.scene.settings_perform .empty 0 (.quiet on)
  | flush =>
      cases hr : s.roster with
      | none => rw [step, flush_of_none hr]
      | some roster =>
          rw [step_flush hr]
          exact (s.leads_flushed roster).keeps
            (P := fun t => t.arbiter.settings = s.scene.arbiter.settings)
            (fun t g now o h => (t.settings_perform g now o).trans h) (fun _ h => h) rfl

theorem settings_stepOn {s : Session} (hw : s.scene.arbiter.settings.window = none)
    (readings : Nat → Nat) (r : Request) :
    (s.stepOn readings r).1.scene.arbiter.settings = s.scene.arbiter.settings := by
  have hstill := congrArg (·.1.scene.arbiter.settings) (still_stepOn hw readings r)
  exact hstill.symm.trans (s.still.settings_step r.timeless)

/-- Nothing but the moments in their records, and what their clocks read, tells the sessions
apart. -/
structure SameButTime (s t : Session) : Prop where
  roster : s.roster = t.roster
  inbox : s.inbox = t.inbox
  isClosed : s.isClosed = t.isClosed
  screen : s.scene.screen = t.scene.screen
  settings : s.scene.arbiter.settings = t.scene.arbiter.settings
  quiet : s.scene.arbiter.quiet = t.scene.arbiter.quiet
  pending : s.scene.arbiter.pending = t.scene.arbiter.pending
  announced : s.scene.arbiter.announced = t.scene.arbiter.announced
  journal : s.scene.arbiter.journal = t.scene.arbiter.journal
  groups : s.scene.arbiter.groups.keys = t.scene.arbiter.groups.keys
  schedule : ∀ group,
    (s.scene.arbiter.record group).schedule = (t.scene.arbiter.record group).schedule
  overview : s.scene.arbiter.overview = t.scene.arbiter.overview

theorem overview_still (s : Session) :
    s.still.scene.arbiter.overview = s.scene.arbiter.overview := by
  simp only [still, Scene.recast, Arbiter.overview, Std.ExtTreeMap.toList_map, List.map_map]
  congr 1
  refine List.map_congr_left fun x _ => ?_
  simp [GroupRecord.overview, GroupRecord.retime]

theorem sameButTime_of_still {s t : Session} (h : s.still = t.still) : s.SameButTime t where
  roster := congrArg (·.roster) h
  inbox := congrArg (·.inbox) h
  isClosed := congrArg (·.isClosed) h
  screen := congrArg (·.scene.screen) h
  settings := congrArg (·.scene.arbiter.settings) h
  quiet := congrArg (·.scene.arbiter.quiet) h
  pending := congrArg (·.scene.arbiter.pending) h
  announced := congrArg (·.scene.arbiter.announced) h
  journal := congrArg (·.scene.arbiter.journal) h
  groups := by
    have hkeys : ∀ u : Session, u.still.scene.arbiter.groups.keys = u.scene.arbiter.groups.keys :=
      fun u => by rw [← Arbiter.map_group_overview, overview_still, Arbiter.map_group_overview]
    rw [← hkeys s, h, hkeys t]
  schedule group := by
    have hs : ∀ u : Session, (u.still.scene.arbiter.record group).schedule =
        (u.scene.arbiter.record group).schedule := fun u => by
      rw [still, Scene.record_recast, GroupRecord.schedule_retime]
    rw [← hs s, h, hs t]
  overview := by rw [← overview_still s, h, overview_still t]

/-- Sessions that differ in nothing but time take the same trail. -/
theorem trail_of_still (rs : List (Request × (Nat → Nat))) :
    ∀ {rs' : List (Request × (Nat → Nat))} {s t : Session},
      s.scene.arbiter.settings.window = none → s.still = t.still →
      rs.map (·.1.timeless) = rs'.map (·.1.timeless) →
      List.Forall₂ (fun x y => x.2 = y.2 ∧ x.1.SameButTime y.1) (s.trail rs) (t.trail rs') := by
  induction rs with
  | nil =>
      intro rs' s t _ _ hrs
      obtain rfl : rs' = [] := List.map_eq_nil_iff.mp hrs.symm
      exact .nil
  | cons x rs ih =>
      intro rs' s t hs h hrs
      obtain ⟨y, rs', rfl⟩ : ∃ y ys, rs' = y :: ys := by
        cases rs' with
        | nil => cases hrs
        | cons y ys => exact ⟨y, ys, rfl⟩
      obtain ⟨hr, hrs⟩ := List.cons.inj hrs
      have hr : x.1.timeless = y.1.timeless := hr
      have ht : t.scene.arbiter.settings.window = none := by
        rw [← (sameButTime_of_still h).settings]
        exact hs
      have hsteps := still_stepOn hs x.2 x.1
      rw [h, hr, still_stepOn ht y.2 y.1] at hsteps
      obtain ⟨hstill, hreply⟩ := Prod.mk.inj hsteps
      refine .cons ⟨hreply.symm, sameButTime_of_still hstill.symm⟩ (ih ?_ hstill.symm hrs)
      rw [settings_stepOn hs]
      exact hs

theorem settings_run : ∀ (rs : List Request) (s : Session),
    (s.run rs).scene.arbiter.settings = s.scene.arbiter.settings
  | [], _ => rfl
  | r :: rs, s => (settings_run rs (s.step r).1).trans (s.settings_step r)

theorem still_run : ∀ (rs : List Request) {s : Session},
    s.scene.arbiter.settings.window = none →
      (s.run rs).still = s.still.run (rs.map Request.timeless)
  | [], _, _ => rfl
  | r :: rs, s, hw => by
      have hstep := still_stepOn hw (fun _ => s.clock.now) r
      rw [stepOn_step] at hstep
      show ((s.step r).1.run rs).still = (s.still.step r.timeless).1.run (rs.map Request.timeless)
      rw [hstep]
      refine still_run rs ?_
      rw [settings_step]
      exact hw

end Session

/-- **Without a window time does not matter.**  Take two new sessions without a window, and the same
requests for both, up to how far the clocks are advanced.  Whatever the clocks read, from one
operation to the next: after every request the replies are the same (a flush hands out the same
actions), and nothing but the moments in the records tells the sessions apart; the calls on
presenters and rows are the same and in the same order, and so is what is up, what waits, what is
scheduled, which groups have a record, and the overview.  A session's own clock stands still during
each request, so this holds of two sessions with clocks of their own as well. -/
theorem time_does_not_matter {settings : Settings} (hw : settings.window = none)
    (clock clock' : Clock) :
    let new := Session.create settings
    (∀ rs rs' : List (Request × (Nat → Nat)), rs.map (·.1.timeless) = rs'.map (·.1.timeless) →
      List.Forall₂ (fun x y => x.2 = y.2 ∧ x.1.SameButTime y.1)
        ((new clock).trail rs) ((new clock').trail rs')) ∧
    (∀ (s : Session) (r : Request), s.stepOn (fun _ => s.clock.now) r = s.step r) ∧
    ∀ rs rs' : List Request, rs.map Request.timeless = rs'.map Request.timeless →
      ((new clock).run rs).SameButTime ((new clock').run rs') ∧
        ∀ r, (((new clock).run rs).step r).2 = (((new clock').run rs').step r).2 := by
  intro new
  refine ⟨fun rs rs' => Session.trail_of_still rs hw rfl, Session.stepOn_step, ?_⟩
  intro rs rs' hrs
  have hstill : ((new clock).run rs).still = ((new clock').run rs').still := by
    rw [Session.still_run rs hw, Session.still_run rs' hw, hrs]
    rfl
  refine ⟨Session.sameButTime_of_still hstill, fun r => ?_⟩
  have hreply : ∀ (c : Clock) (rs : List Request),
      (((new c).run rs).still.step r.timeless).2 = (((new c).run rs).step r).2 := by
    intro c rs
    have hnone : ((new c).run rs).scene.arbiter.settings.window = none := by
      rw [Session.settings_run]
      exact hw
    rw [Session.still_stepOn hnone (fun _ => ((new c).run rs).clock.now), Session.stepOn_step]
  rw [← hreply clock rs, hstill, hreply clock' rs']

/-- The alert of `s` goes to its only child `c`; some time later `d` is about to join. -/
def leisurely (micros : Nat) : List Request :=
  [.host (.register .headsUp 4), .bind, .send (.added (Cast.troupe.notice "s")),
    .host (.raise .headsUp (Cast.troupe.notice "s")), .send (.added (Cast.troupe.notice "c")),
    .flush, .advance micros, .send (.announced (Cast.troupe.notice "d"))]

/-- The alert is taken back at once, after a day, and by a clock that runs backwards. -/
theorem leisurely_hand_back :
    let soon := (Session.create {} {}).run (leisurely 0)
    let late := (Session.create {} { now := 1000 }).run (leisurely 86400000000)
    soon.SameButTime late ∧ (soon.step .flush).2 = (late.step .flush).2 ∧
      (late.step .flush).2 = .actions [.scheduled "g" .headsUp] ∧
      List.Forall₂ (fun x y => x.2 = y.2 ∧ x.1.SameButTime y.1)
        ((Session.create {} {}).trail
          ((leisurely 0 ++ [Request.flush]).map fun r => (r, fun _ => 0)))
        ((Session.create {} { now := 1000 }).trail
          ((leisurely 0 ++ [Request.flush]).map fun r => (r, fun i => 1000 - i))) := by
  obtain ⟨htrail, -, hrun⟩ :=
    @time_does_not_matter {} rfl {} { now := 1000 }
  obtain ⟨hsame, hreply⟩ := hrun (leisurely 0) (leisurely 86400000000) rfl
  exact ⟨hsame, hreply .flush, by decide +kernel, htrail _ _ rfl⟩

end AlertHandoff
