import AlertHandoff.Proofs.Course
import AlertHandoff.Proofs.Origin

/-! # The history of a session

`Session.history` lists all that is done to the scene of a session, deed by deed: what its flushes
do, the journals they hand out, the calls of the host, and the turns of quiet mode.  These deeds
lead to the scene after the run (`course_history`).  The screen is arranged by calls of the host
only (`hosted_history`), every operation is carried out with the groups of a well-formed roster
(`uses_history`), and the readings of the clock never go back (`pairwise_readings`). -/

namespace AlertHandoff

namespace Deed

/-- If the deed is an operation, the grouping and the reading of the clock have the property. -/
def Uses (Q : Grouping → Nat → Prop) : Deed → Prop
  | .perform g now _ => Q g now
  | .read | .arrange _ | .report => True

/-- The reading of the clock with which an operation is carried out. -/
def reading? : Deed → Option Nat
  | .perform _ now _ => some now
  | .read | .arrange _ | .report => none

theorem Uses.mono {Q Q' : Grouping → Nat → Prop} {d : Deed} (h : d.Uses Q)
    (hq : ∀ g now, Q g now → Q' g now) : d.Uses Q' := by
  cases d with
  | perform g now o => exact hq g now h
  | read | arrange screen | report => trivial

end Deed

namespace Scene
variable {Q : Grouping → Nat → Prop} {g : Grouping} {now : Nat}

/-- If the screen is arranged, that is done by a call of the host. -/
def Hosted (s : Scene) (d : Deed) : Prop :=
  ∀ screen, d = .arrange screen → ∃ c, screen = (s.screen.host c).1

theorem hosted_of_handling {s : Scene} {d : Deed} (h : d.isHandling = true) : s.Hosted d := by
  rintro screen rfl
  cases h

theorem uses_quiesceDeeds (h : Q g now) (s : Scene) : ∀ d ∈ s.quiesceDeeds g now, d.Uses Q := by
  have hround : ∀ t : Scene, ∀ d ∈ t.roundDeeds g now, d.Uses Q := by
    intro t d hd
    rcases List.mem_cons.mp hd with rfl | hd
    · trivial
    · obtain ⟨x, -, rfl⟩ := List.mem_map.mp hd
      exact h
  have hrounds : ∀ (n : Nat) (t : Scene), ∀ d ∈ roundsDeeds g now n t, d.Uses Q := by
    intro n
    induction n with
    | zero => exact fun t d hd => by cases hd
    | succ n ih =>
        intro t d hd
        unfold roundsDeeds at hd
        split at hd
        · cases hd
        · rcases List.mem_append.mp hd with hd | hd
          · exact hround t d hd
          · exact ih _ d hd
  exact hrounds _ s

end Scene

namespace Session
variable {Q : Grouping → Nat → Prop} {now : Nat}

/-- The deeds by which a request changes the scene. -/
def historyOf (s : Session) : Request → List Deed
  | .flush => if s.roster.isSome then s.deeds ++ [.report] else []
  | .host c => [.arrange (s.scene.screen.host c).1]
  | .quiet on => [.perform s.table.grouping s.clock.now (.quiet on)]
  | .advance _ | .bind | .send _ | .close => []

/-- All the deeds by which the scene changes in a run, in order. -/
def history : Session → List Request → List Deed
  | _, [] => []
  | s, r :: rs => s.historyOf r ++ history (s.step r).1 rs

theorem course_historyOf (s : Session) (r : Request) :
    s.scene.course (s.historyOf r) = (s.step r).1.scene := by
  cases r with
  | host c | advance micros | close | quiet on => rfl
  | bind =>
      simp only [historyOf, step, bind]
      split <;> rfl
  | send e =>
      simp only [historyOf, step, send]
      split <;> rfl
  | flush =>
      simp only [historyOf, step]
      cases hr : s.roster with
      | none =>
          rw [flush_of_none hr]
          rfl
      | some roster =>
          rw [flush_of_some hr, Option.isSome_some, if_pos rfl, Scene.course_concat,
            (does_deeds hr).course]
          rfl

/-- **The history leads to the scene after the run.** -/
theorem course_history : ∀ (rs : List Request) (s : Session),
    s.scene.course (s.history rs) = (s.run rs).scene
  | [], _ => rfl
  | r :: rs, s => by
      rw [history, Scene.course_append, course_historyOf, course_history rs]
      rfl

/-! ### Arranging the screen -/

theorem hosted_historyOf (s : Session) (r : Request) :
    s.scene.Throughout Scene.Hosted (s.historyOf r) := by
  cases r with
  | advance micros | close | bind | send e => trivial
  | host c =>
      refine ⟨?_, trivial⟩
      rintro screen he
      cases he
      exact ⟨c, rfl⟩
  | quiet on =>
      refine ⟨?_, trivial⟩
      rintro screen he
      cases he
  | flush =>
      simp only [historyOf]
      split
      · next hr =>
        obtain ⟨roster, hr⟩ := Option.isSome_iff_exists.mp hr
        refine Scene.throughout_of_mem fun t d hd => ?_
        rcases List.mem_append.mp hd with hd | hd
        · exact Scene.hosted_of_handling ((does_deeds hr).handling d hd)
        · obtain rfl := List.mem_singleton.mp hd
          exact fun screen he => by cases he
      · trivial

theorem hosted_history : ∀ (rs : List Request) (s : Session),
    s.scene.Throughout Scene.Hosted (s.history rs)
  | [], _ => trivial
  | r :: rs, s => by
      have hrest := hosted_history rs (s.step r).1
      rw [← course_historyOf] at hrest
      exact Scene.throughout_append.mpr ⟨hosted_historyOf s r, hrest⟩

/-! ### Groupings and readings -/

theorem uses_replayDeeds {g : Grouping} (h : Q g now) : ∀ (es : List GroupEvent) (s : Scene),
    ∀ d ∈ replayDeeds g now s es, d.Uses Q
  | [], _, _, hd => by cases hd
  | e :: es, s, d, hd => by
      rcases List.mem_append.mp hd with hd | hd
      · rcases List.mem_cons.mp hd with rfl | hd
        · exact h
        · exact Scene.uses_quiesceDeeds h _ d hd
      · exact uses_replayDeeds h es _ d hd

theorem uses_deedsFrom (hQ : ∀ r : Roster, r.Indexed → Q r.grouping now) :
    ∀ (es : List Event) {x : Roster × Scene}, x.1.Indexed → ∀ d ∈ deedsFrom now x es, d.Uses Q
  | [], _, _, _, hd => by cases hd
  | e :: es, x, hi, d, hd => by
      rcases List.mem_append.mp hd with hd | hd
      · rcases List.mem_append.mp hd with hd | hd
        · rcases List.mem_cons.mp hd with rfl | hd
          · exact hQ x.1 hi
          · exact Scene.uses_quiesceDeeds (hQ x.1 hi) _ d hd
        · exact uses_replayDeeds (hQ _ (hi.next e)) _ _ d hd
      · exact uses_deedsFrom hQ es (hi.next e) d hd

theorem uses_historyOf {s : Session} (hi : s.table.Indexed)
    (hQ : ∀ r : Roster, r.Indexed → Q r.grouping s.clock.now) (r : Request) :
    ∀ d ∈ s.historyOf r, d.Uses Q := by
  intro d hd
  cases r with
  | advance micros | close | bind | send e => cases hd
  | host c =>
      obtain rfl := List.mem_singleton.mp hd
      trivial
  | quiet on =>
      obtain rfl := List.mem_singleton.mp hd
      exact hQ _ hi
  | flush =>
      simp only [historyOf] at hd
      split at hd
      · next hr =>
        obtain ⟨roster, hr⟩ := Option.isSome_iff_exists.mp hr
        have ht : s.table = roster := by simp [table, hr]
        rw [ht] at hi
        rcases List.mem_append.mp hd with hd | hd
        · simp only [deeds, hr] at hd
          rcases List.mem_append.mp hd with hd | hd
          · exact Scene.uses_quiesceDeeds (hQ roster hi) _ d hd
          · exact uses_deedsFrom hQ s.inbox hi d hd
        · obtain rfl := List.mem_singleton.mp hd
          trivial
      · cases hd

/-- The clock of a session does not go back. -/
theorem clock_le_step (s : Session) (r : Request) : s.clock.now ≤ (s.step r).1.clock.now := by
  cases r with
  | host c | close | quiet on => exact Nat.le_refl _
  | advance micros =>
      simp only [step, Clock.advance]
      split
      · exact Nat.le_refl _
      · exact Nat.le_add_right _ _
  | bind =>
      simp only [step, bind]
      split <;> exact Nat.le_refl _
  | send e =>
      simp only [step, send]
      split <;> exact Nat.le_refl _
  | flush =>
      simp only [step]
      cases hr : s.roster with
      | none => exact Nat.le_of_eq (congrArg (·.1.clock.now) (flush_of_none hr)).symm
      | some roster => exact Nat.le_of_eq (congrArg (·.1.clock.now) (flush_of_some hr)).symm

/-- Operations are carried out with the groups of a well-formed roster, now or later. -/
theorem uses_history : ∀ (rs : List Request) {s : Session}, s.table.Indexed →
    ∀ d ∈ s.history rs, d.Uses fun g now => (∃ r : Roster, r.Indexed ∧ g = r.grouping) ∧
      s.clock.now ≤ now
  | [], _, _, _, hd => by cases hd
  | r :: rs, s, hi, d, hd => by
      rcases List.mem_append.mp hd with hd | hd
      · exact uses_historyOf hi (fun r hr => ⟨⟨r, hr, rfl⟩, Nat.le_refl _⟩) r d hd
      · exact (uses_history rs (indexed_step hi r) d hd).mono fun g now h =>
          ⟨h.1, Nat.le_trans (s.clock_le_step r) h.2⟩

/-- The readings of the clock in a history never go back. -/
theorem pairwise_readings : ∀ (rs : List Request) {s : Session}, s.table.Indexed →
    ((s.history rs).filterMap Deed.reading?).Pairwise (· ≤ ·)
  | [], _, _ => List.Pairwise.nil
  | r :: rs, s, hi => by
      have hnow : ∀ n ∈ (s.historyOf r).filterMap Deed.reading?, n = s.clock.now := by
        intro n hn
        obtain ⟨d, hd, hr⟩ := List.mem_filterMap.mp hn
        have hu := uses_historyOf hi (Q := fun _ now => now = s.clock.now) (fun _ _ => rfl) r d hd
        cases d <;> cases hr
        exact hu
      have hlater : ∀ n ∈ ((s.step r).1.history rs).filterMap Deed.reading?, s.clock.now ≤ n := by
        intro n hn
        obtain ⟨d, hd, hr⟩ := List.mem_filterMap.mp hn
        have hu := uses_history rs (indexed_step hi r) d hd
        cases d <;> cases hr
        exact Nat.le_trans (s.clock_le_step r) hu.2
      rw [history, List.filterMap_append, List.pairwise_append]
      refine ⟨?_, pairwise_readings rs (indexed_step hi r), ?_⟩
      · exact List.pairwise_of_forall_mem_list fun a ha b hb =>
          Nat.le_of_eq ((hnow a ha).trans (hnow b hb).symm)
      · intro a ha b hb
        rw [hnow a ha]
        exact hlater b hb

end Session
end AlertHandoff
