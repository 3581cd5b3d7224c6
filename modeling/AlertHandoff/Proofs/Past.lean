import AlertHandoff.Proofs.Cases
import AlertHandoff.Proofs.Index
import AlertHandoff.Proofs.Reach

/-! # The events of a run

`Session.past` lists the events that the flushes of a run have handled, each with the roster and the
scene it met.  What is said of these events, the roster and the scene together holds in every run if
handling one event more keeps it, and so do handling news and what happens between events
(`Enduring.run_create`).  Of the deferrals it is enough that losing some keeps it
(`past_induction`): nothing that happens between events makes a deferral. -/

namespace AlertHandoff

/-- What is known of every event that is handled in a run: the roster it meets is well formed, and
no news is left. -/
structure Moment.Sound (m : Moment) : Prop where
  indexed : m.roster.Indexed
  news : m.scene.screen.news = []

namespace Moment.Sound
variable {m : Moment}

theorem next (h : m.Sound) : m.next.Indexed := h.indexed.next m.event

end Moment.Sound

namespace Scene

/-- Of the deferrals there are in the end, all were there before. -/
def Loses (s t : Scene) : Prop :=
  ∀ (key : String) d, t.arbiter.pending[key]? = some d → s.arbiter.pending[key]? = some d

/-- What happens to a scene between events: the screen is changed by its owner, quiet mode is turned
on or off, or the journal is handed out. -/
inductive Passes : Scene → Scene → Prop
  | arrange (s : Scene) (screen : Screen) : Passes s { s with screen }
  | quiet (s : Scene) (on : Bool) : Passes s { s with arbiter := s.arbiter.setQuiet on }
  | report (s : Scene) : Passes s { s with arbiter := { s.arbiter with journal := [] } }

theorem Passes.loses {s t : Scene} (h : s.Passes t) : s.Loses t := by
  intro key d hd
  cases h with
  | arrange screen | report => exact hd
  | quiet on =>
      have hd' : (s.arbiter.setQuiet on).pending[key]? = some d := hd
      rw [Arbiter.pending_setQuiet] at hd'
      split at hd'
      · rw [Std.ExtTreeMap.getElem?_filter', Option.filter_eq_some_iff] at hd'
        exact hd'.1
      · exact hd'

end Scene

namespace Session

/-- The roster of the session, which is empty until the session is bound. -/
def table (s : Session) : Roster := s.roster.getD {}

/-- The events that a request calls for. -/
def momentsOf (s : Session) : Request → List Moment
  | .flush => s.moments
  | .host _ | .advance _ | .bind | .send _ | .close | .quiet _ => []

/-- The events that have been handled in a run, in order. -/
def past : Session → List Request → List Moment
  | _, [] => []
  | s, r :: rs => s.momentsOf r ++ past (s.step r).1 rs

/-- The property of the events so far, the roster and the scene is kept by all that is done in a
session. -/
structure Enduring (P : List Moment → Roster → Scene → Prop) : Prop where
  passes : ∀ {ms r s t}, s.Passes t → P ms r s → P ms r t
  quiesce : ∀ {ms r s} now, r.Indexed → P ms r s → P ms r (s.quiesce r.grouping now)
  moment : ∀ {ms m}, m.Sound → P ms m.roster m.scene → P (ms ++ [m]) m.next m.result

namespace Enduring
variable {P : List Moment → Roster → Scene → Prop} (hP : Enduring P)
include hP

theorem momentsFrom (now : Nat) : ∀ (es : List Event) {x : Roster × Scene} {ms : List Moment},
    x.1.Indexed → x.2.screen.news = [] → P ms x.1 x.2 →
      (es.foldl (handle now) x).1.Indexed ∧
        P (ms ++ momentsFrom now x es) (es.foldl (handle now) x).1 (es.foldl (handle now) x).2
  | [], x, ms, hi, _, h => ⟨hi, by rwa [Session.momentsFrom, List.append_nil]⟩
  | e :: es, x, ms, hi, hn, h => by
      have he := hP.moment (m := ⟨now, x.1, x.2, e⟩) ⟨hi, hn⟩ h
      have hrest := momentsFrom now es (x := handle now x e) (hi.next e) (news_handle now x e) he
      rwa [List.append_assoc] at hrest

theorem step {s : Session} {ms : List Moment} (hi : s.table.Indexed) (h : P ms s.table s.scene)
    (r : Request) : (s.step r).1.table.Indexed ∧
      P (ms ++ s.momentsOf r) (s.step r).1.table (s.step r).1.scene := by
  have hstay : ∀ t : Session, t.table = s.table → (t.scene = s.scene ∨ s.scene.Passes t.scene) →
      t.table.Indexed ∧ P (ms ++ []) t.table t.scene := by
    intro t ht hs
    rw [ht, List.append_nil]
    rcases hs with hs | hs
    · rw [hs]
      exact ⟨hi, h⟩
    · exact ⟨hi, hP.passes hs h⟩
  cases r with
  | advance micros | close => exact hstay _ rfl (.inl rfl)
  | host c => exact hstay _ rfl (.inr (.arrange s.scene _))
  | quiet on => exact hstay _ rfl (.inr (.quiet s.scene on))
  | bind =>
      simp only [Session.step, bind]
      split
      · exact hstay _ rfl (.inl rfl)
      · next hr =>
        refine hstay _ ?_ (.inl rfl)
        simp only [Bool.not_eq_true, Option.isSome_eq_false_iff, Option.isNone_iff_eq_none] at hr
        simp [table, hr]
  | send e =>
      simp only [Session.step, send]
      split <;> exact hstay _ rfl (.inl rfl)
  | flush =>
      simp only [Session.step, momentsOf, moments]
      cases hr : s.roster with
      | none =>
          rw [flush_of_none hr]
          exact hstay s rfl (.inl rfl)
      | some roster =>
          have ht : s.table = roster := by simp [table, hr]
          rw [ht] at hi h
          obtain ⟨hi', h'⟩ := hP.momentsFrom s.clock.now s.inbox
            (x := (roster, s.scene.quiesce roster.grouping s.clock.now)) hi
            (s.scene.news_quiesce roster.role_of_mem_children s.clock.now)
            (hP.quiesce s.clock.now hi h)
          rw [flush_of_some hr]
          exact ⟨hi', hP.passes (.report _) h'⟩

theorem run : ∀ (rs : List Request) {s : Session} {ms : List Moment}, s.table.Indexed →
    P ms s.table s.scene →
      P (ms ++ s.past rs) (s.run rs).table (s.run rs).scene
  | [], _, _, _, h => by rwa [past, List.append_nil]
  | r :: rs, s, ms, hi, h => by
      obtain ⟨hi', h'⟩ := hP.step hi h r
      have hrest := run rs hi' h'
      rwa [List.append_assoc] at hrest

/-- **Induction over the events of a run.** -/
theorem run_create (settings : Settings) (clock : Clock) (h : P [] {} { arbiter := { settings } })
    (rs : List Request) :
    P ((create settings clock).past rs) ((create settings clock).run rs).table
      ((create settings clock).run rs).scene := by
  have hrun := hP.run rs (s := create settings clock) Roster.indexed_empty h
  rwa [List.nil_append] at hrun

end Enduring

/-- The property of the events so far, the roster and the deferrals is kept by all that is done in a
session. -/
structure Lasting (P : List Moment → Roster → Scene → Prop) : Prop where
  loses : ∀ {ms r s t}, s.Loses t → P ms r s → P ms r t
  quiesce : ∀ {ms r s} now, r.Indexed → P ms r s → P ms r (s.quiesce r.grouping now)
  moment : ∀ {ms m}, m.Sound → P ms m.roster m.scene → P (ms ++ [m]) m.next m.result

theorem Lasting.enduring {P : List Moment → Roster → Scene → Prop} (hP : Lasting P) :
    Enduring P where
  passes h := hP.loses h.loses
  quiesce := hP.quiesce
  moment := hP.moment

theorem indexed_step {s : Session} (h : s.table.Indexed) (r : Request) :
    (s.step r).1.table.Indexed := by
  have hP : Enduring fun _ _ _ => True :=
    { passes := fun _ h => h
      quiesce := fun _ _ h => h
      moment := fun _ h => h }
  exact (@Enduring.step _ hP s [] h trivial r).1

/-- **Induction over the events of a run**, for what is said of deferrals. -/
theorem past_induction {P : List Moment → Roster → Scene → Prop} (hP : Lasting P)
    (settings : Settings) (clock : Clock) (h : P [] {} { arbiter := { settings } })
    (rs : List Request) :
    P ((create settings clock).past rs) ((create settings clock).run rs).table
      ((create settings clock).run rs).scene :=
  hP.enduring.run_create settings clock h rs

/-- Every event of a run meets a roster that is well formed, and no news. -/
theorem sound_of_mem_past (settings : Settings) (clock : Clock) (rs : List Request) :
    ∀ m ∈ (create settings clock).past rs, m.Sound := by
  have hP : Lasting fun ms _ _ => ∀ m ∈ ms, m.Sound :=
    { loses := fun _ h => h
      quiesce := fun _ _ h => h
      moment := fun hm h x hx => by
        rcases List.mem_append.mp hx with hx | hx
        · exact h x hx
        · rwa [List.mem_singleton.mp hx] }
  exact past_induction hP settings clock (by simp) rs

end Session
end AlertHandoff
