import AlertHandoff.Proofs.Reach

/-! # The course of a scene

Whoever works with an arbiter does four things to its scene: the arbiter carries out an operation,
the feeds are read, the screen changes in whatever way its owner likes, and the journal is handed
out.  `Scene.course` does a list of such deeds one after the other, and `Scene.written` is what one
of them adds to the journal.  `Scene.Throughout` says of a course that every deed is done in a
suitable scene.

Handling events is such a course.  `Session.deeds` lists what a flush does, deed by deed
(`does_deeds`), and `Session.chronicle` what all flushes of a run do. -/

namespace AlertHandoff

/-- What can be done to a scene. -/
inductive Deed where
  | perform (g : Grouping) (now : Nat) (o : Scene.Operation)
  | read
  | arrange (screen : Screen)
  | report

namespace Deed

/-- The deed is part of handling what happened: it does not concern quiet mode, and neither the
screen nor the journal is touched from outside. -/
def isHandling : Deed → Bool
  | .perform _ _ (.quiet _) | .arrange _ | .report => false
  | .perform .. | .read => true

/-- The event that the deed handles. -/
def event? : Deed → Option Event
  | .perform _ _ (.event e) => some e
  | _ => none

/-- The notice whose content has been drawn, according to the deed. -/
def drawn? : Deed → Option Notice
  | .perform _ _ (.event (.rendered n)) | .perform _ _ (.rendered n) => some n
  | _ => none

end Deed

namespace Scene

/-- The scene after a deed. -/
def act (s : Scene) : Deed → Scene
  | .perform g now o => s.perform g now o
  | .read => { s with screen := s.screen.read }
  | .arrange screen => { s with screen }
  | .report => { s with arbiter := { s.arbiter with journal := [] } }

/-- The scene after a list of deeds. -/
def course (s : Scene) (ds : List Deed) : Scene := ds.foldl act s

/-- What a deed adds to the journal. -/
def written (s : Scene) (d : Deed) : List Action :=
  (s.act d).arbiter.journal.drop s.arbiter.journal.length

theorem course_append (s : Scene) (a b : List Deed) :
    s.course (a ++ b) = (s.course a).course b := by
  simp [course]

theorem course_concat (s : Scene) (ds : List Deed) (d : Deed) :
    s.course (ds ++ [d]) = (s.course ds).act d := by
  simp [course]

theorem written_of_journal {s : Scene} {d : Deed} {actions : List Action}
    (h : (s.act d).arbiter.journal = s.arbiter.journal ++ actions) : s.written d = actions := by
  rw [written, h, List.drop_left]

/-- Every deed of the list is done in a scene that suits it. -/
def Throughout (P : Scene → Deed → Prop) : Scene → List Deed → Prop
  | _, [] => True
  | s, d :: ds => P s d ∧ Throughout P (s.act d) ds

theorem throughout_concat {P : Scene → Deed → Prop} : ∀ {s : Scene} {ds : List Deed} {d : Deed},
    Throughout P s (ds ++ [d]) ↔ Throughout P s ds ∧ P (s.course ds) d
  | s, [], d => by simp [Throughout, course]
  | s, x :: ds, d => by
      simp only [List.cons_append, Throughout, throughout_concat, and_assoc]
      rfl

theorem throughout_append {P : Scene → Deed → Prop} : ∀ {s : Scene} {a b : List Deed},
    Throughout P s (a ++ b) ↔ Throughout P s a ∧ Throughout P (s.course a) b
  | s, [], b => by simp [Throughout, course]
  | s, d :: a, b => by
      simp only [List.cons_append, Throughout, throughout_append, and_assoc]
      rfl

theorem throughout_of_mem {P : Scene → Deed → Prop} : ∀ {ds : List Deed} {s : Scene},
    (∀ s, ∀ d ∈ ds, P s d) → Throughout P s ds
  | [], _, _ => trivial
  | d :: _, s, h =>
      ⟨h s d List.mem_cons_self,
        throughout_of_mem fun t x hx => h t x (List.mem_cons_of_mem d hx)⟩

/-- One of the deeds does the first, and all deeds since then do the second. -/
def Since (O Q : Scene → Deed → Prop) (s : Scene) (ds : List Deed) : Prop :=
  ∃ before opening between, ds = before ++ opening :: between ∧ O (s.course before) opening ∧
    Throughout Q (s.course (before ++ [opening])) between

/-- **What holds in the end goes back to a deed**, if one deed more brings it about or leaves it as
it was, and it did not hold at the start. -/
theorem since_of_step {P : Scene → Prop} {R O Q : Scene → Deed → Prop}
    (hstep : ∀ s d, R s d → P (s.act d) → O s d ∨ (P s ∧ Q s d)) {s : Scene} {ds : List Deed}
    (hds : s.Throughout R ds) (hend : P (s.course ds)) (hstart : ¬P s) : s.Since O Q ds := by
  have hfrom : ∀ (ds : List Deed) (s : Scene), s.Throughout R ds → P (s.course ds) →
      (P s ∧ s.Throughout Q ds) ∨ s.Since O Q ds := by
    intro ds
    induction ds with
    | nil => exact fun s _ h => .inl ⟨h, trivial⟩
    | cons d ds ih =>
        intro s hds h
        rcases ih (s.act d) hds.2 h with ⟨hp, hq⟩ | ⟨before, opening, between, rfl, hO, hQ⟩
        · rcases hstep s d hds.1 hp with hO | ⟨hp, hd⟩
          · exact .inr ⟨[], d, ds, rfl, hO, hq⟩
          · exact .inl ⟨hp, hd, hq⟩
        · exact .inr ⟨d :: before, opening, between, rfl, hO, hQ⟩
  exact (hfrom ds s hds hend).resolve_left fun h => hstart h.1

/-- What holds in the end goes back to a deed that brings it about, and stands since then. -/
theorem since_stands {P : Scene → Prop} {R O : Scene → Deed → Prop}
    (hstep : ∀ s d, R s d → P (s.act d) → O s d ∨ P s) {s : Scene} {ds : List Deed}
    (hds : s.Throughout R ds) (hend : P (s.course ds)) (hstart : ¬P s) :
    s.Since O (fun t _ => P t) ds :=
  since_of_step (fun t d hd h => (hstep t d hd h).imp_right fun hp => ⟨hp, hp⟩) hds hend hstart

/-! ### Handling events -/

/-- The second scene comes from the first by handling the events, in this order, and what they bring
about. -/
def Handles (s : Scene) (es : List Event) (t : Scene) : Prop :=
  ∃ ds, (∀ d ∈ ds, d.isHandling = true) ∧ ds.filterMap Deed.event? = es ∧ t = s.course ds

/-- The deeds lead from the first scene to the second and handle the events, in this order, and what
they bring about. -/
structure Does (s : Scene) (ds : List Deed) (es : List Event) (t : Scene) : Prop where
  handling : ∀ d ∈ ds, d.isHandling = true
  events : ds.filterMap Deed.event? = es
  course : s.course ds = t

theorem Does.handles {s t : Scene} {ds : List Deed} {es : List Event} (h : s.Does ds es t) :
    s.Handles es t :=
  ⟨ds, h.handling, h.events, h.course.symm⟩

theorem Does.refl (s : Scene) : s.Does [] [] s := ⟨by simp, rfl, rfl⟩

theorem Does.trans {s t u : Scene} {ds ds' : List Deed} {es es' : List Event}
    (h : s.Does ds es t) (h' : t.Does ds' es' u) : s.Does (ds ++ ds') (es ++ es') u where
  handling d hd := by
    rcases List.mem_append.mp hd with hd | hd
    · exact h.handling d hd
    · exact h'.handling d hd
  events := by rw [List.filterMap_append, h.events, h'.events]
  course := by rw [course_append, h.course, h'.course]

theorem does_act (s : Scene) {d : Deed} (hd : d.isHandling = true) :
    s.Does [d] d.event?.toList (s.act d) where
  handling := by simpa using hd
  events := by cases he : d.event? <;> simp [he]
  course := rfl

/-- The deeds of a round: the feeds are read, and each change that was in them is handled. -/
def roundDeeds (s : Scene) (g : Grouping) (now : Nat) : List Deed :=
  .read :: s.screen.news.map fun x => .perform g now (.change x.1 x.2)

/-- The deeds of as many rounds as find some news, at most the given number. -/
def roundsDeeds (g : Grouping) (now : Nat) : Nat → Scene → List Deed
  | 0, _ => []
  | n + 1, s =>
    if s.screen.news.isEmpty then []
    else s.roundDeeds g now ++ roundsDeeds g now n (s.round g now)

/-- The deeds by which news is handled until there is none. -/
def quiesceDeeds (s : Scene) (g : Grouping) (now : Nat) : List Deed :=
  roundsDeeds g now (s.screen.news.length + 1) s

theorem does_roundDeeds (s : Scene) (g : Grouping) (now : Nat) :
    s.Does (s.roundDeeds g now) [] (s.round g now) := by
  have hfold : ∀ (xs : List (Kind × Change)) (t : Scene),
      t.Does (xs.map fun x => .perform g now (.change x.1 x.2)) []
        (xs.foldl (fun t x => t.handleChange g now x.1 x.2) t) := by
    intro xs
    induction xs with
    | nil => exact Does.refl
    | cons x xs ih =>
        intro t
        have hx := t.does_act (d := .perform g now (.change x.1 x.2)) rfl
        exact hx.trans (ih _)
  exact (s.does_act (d := .read) rfl).trans (hfold _ _)

theorem does_quiesceDeeds (s : Scene) (g : Grouping) (now : Nat) :
    s.Does (s.quiesceDeeds g now) [] (s.quiesce g now) := by
  have hrounds : ∀ (n : Nat) (t : Scene), t.Does (roundsDeeds g now n t) [] (rounds g now n t) := by
    intro n
    induction n with
    | zero => exact Does.refl
    | succ n ih =>
        intro t
        unfold roundsDeeds rounds
        split
        · exact Does.refl t
        · exact (t.does_roundDeeds g now).trans (ih _)
  exact hrounds _ s

/-- Where there is no news there is nothing to do. -/
theorem quiesceDeeds_of_no_news {s : Scene} (h : s.screen.news = []) (g : Grouping) (now : Nat) :
    s.quiesceDeeds g now = [] := by
  simp [quiesceDeeds, roundsDeeds, h]

end Scene

namespace Session

/-- The deeds by which the events of groups are handled one by one. -/
def replayDeeds (g : Grouping) (now : Nat) : Scene → List GroupEvent → List Deed
  | _, [] => []
  | s, e :: es =>
    let t := s.handleGroup g now e
    .perform g now (.groupEvent e) :: t.quiesceDeeds g now ++ replayDeeds g now (t.quiesce g now) es

/-- The deeds by which the event of a notice is handled. -/
def handleDeeds (now : Nat) (x : Roster × Scene) (e : Event) : List Deed :=
  let g := x.1.grouping
  let t := x.2.handleEvent g now e
  .perform g now (.event e) :: t.quiesceDeeds g now ++
    replayDeeds (x.1.next e).grouping now (t.quiesce g now) (x.1.track e).1

/-- The deeds by which a list of events is handled. -/
def deedsFrom (now : Nat) : Roster × Scene → List Event → List Deed
  | _, [] => []
  | x, e :: es => handleDeeds now x e ++ deedsFrom now (handle now x e) es

/-- The deeds of the next flush, in order. -/
def deeds (s : Session) : List Deed :=
  match s.roster with
  | none => []
  | some roster =>
    let t := s.scene.quiesce roster.grouping s.clock.now
    s.scene.quiesceDeeds roster.grouping s.clock.now ++ deedsFrom s.clock.now (roster, t) s.inbox

/-- The deeds that a request calls for. -/
def deedsOf (s : Session) : Request → List Deed
  | .flush => s.deeds
  | .host _ | .advance _ | .bind | .send _ | .close | .quiet _ => []

/-- The deeds of all flushes of a run, in order. -/
def chronicle : Session → List Request → List Deed
  | _, [] => []
  | s, r :: rs => s.deedsOf r ++ chronicle (s.step r).1 rs

theorem does_replayDeeds (g : Grouping) (now : Nat) : ∀ (es : List GroupEvent) (s : Scene),
    s.Does (replayDeeds g now s es) [] (replay g now s es)
  | [], s => Scene.Does.refl s
  | e :: es, s => by
      have he := s.does_act (d := .perform g now (.groupEvent e)) rfl
      exact (he.trans (Scene.does_quiesceDeeds _ g now)).trans (does_replayDeeds g now es _)

theorem does_handleDeeds (now : Nat) (x : Roster × Scene) (e : Event) :
    x.2.Does (handleDeeds now x e) [e] (handle now x e).2 := by
  have he := x.2.does_act (d := .perform x.1.grouping now (.event e)) rfl
  exact (he.trans (Scene.does_quiesceDeeds _ _ now)).trans (does_replayDeeds _ now _ _)

theorem does_deedsFrom (now : Nat) : ∀ (es : List Event) (x : Roster × Scene),
    x.2.Does (deedsFrom now x es) es (es.foldl (handle now) x).2
  | [], x => Scene.Does.refl x.2
  | e :: es, x => (does_handleDeeds now x e).trans (does_deedsFrom now es _)

/-- **What a flush does**: its deeds handle the events of the inbox, in order, and what they bring
about. -/
theorem does_deeds {s : Session} {roster : Roster} (h : s.roster = some roster) :
    s.scene.Does s.deeds s.inbox (s.flushed roster).2 := by
  have hd : s.deeds = s.scene.quiesceDeeds roster.grouping s.clock.now ++
      deedsFrom s.clock.now (roster, s.scene.quiesce roster.grouping s.clock.now) s.inbox := by
    simp [deeds, h]
  rw [hd]
  exact (s.scene.does_quiesceDeeds roster.grouping s.clock.now).trans
    (does_deedsFrom s.clock.now s.inbox (roster, _))

theorem deeds_of_none {s : Session} (h : s.roster = none) : s.deeds = [] := by
  simp [deeds, h]

/-- A flush handles the events of the inbox, in order, and what they bring about. -/
theorem handles_flushed {s : Session} {roster : Roster} (h : s.roster = some roster) :
    s.scene.Handles s.inbox (s.flushed roster).2 :=
  (does_deeds h).handles

theorem chronicle_append : ∀ (s : Session) (a b : List Request),
    s.chronicle (a ++ b) = s.chronicle a ++ (s.run a).chronicle b
  | _, [], _ => rfl
  | s, r :: rs, b => by
      simp only [List.cons_append, chronicle, chronicle_append, List.append_assoc]
      rfl

end Session
end AlertHandoff
