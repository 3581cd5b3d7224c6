import AlertHandoff.Proofs.Course
import AlertHandoff.Proofs.Recast

/-! # Flushing often and flushing once

No operation reads the journal: on a scene whose journal starts with other actions
(`Scene.preface`), everything is done in the same way.  And when an event has been handled no news
is left, so that a flush which comes next finds nothing to do before its own events.  So it makes
no difference whether events are handled by one flush or by one flush each
(`batching_is_unobservable`). -/

namespace AlertHandoff
namespace Scene

/-- The scene with some actions written before everything in its journal. -/
def preface (s : Scene) (past : List Action) : Scene :=
  { s with arbiter := { s.arbiter with journal := past ++ s.arbiter.journal } }

variable (s : Scene) (past : List Action)

/-! ### Operations do not read the journal -/

theorem preface_eq_recast : s.preface past = s.recast past id := by
  have hgroups : (s.arbiter.groups.map fun _ r => r.retime id) = s.arbiter.groups :=
    congrArg (·.arbiter.groups) s.recast_id
  rw [recast, hgroups]
  rfl

theorem preface_report : (s.act .report).preface s.arbiter.journal = s := by
  simp [preface, act]

theorem preface_perform (g : Grouping) (now : Nat) (o : Operation) :
    (s.preface past).perform g now o = (s.perform g now o).preface past := by
  rw [preface_eq_recast, preface_eq_recast]
  exact s.recast_perform past s.arbiter.settings.suits_id g now o

theorem preface_handleChange (g : Grouping) (now : Nat) (kind : Kind) (c : Change) :
    (s.preface past).handleChange g now kind c = (s.handleChange g now kind c).preface past :=
  s.preface_perform past g now (.change kind c)

theorem preface_handleGroup (g : Grouping) (now : Nat) (e : GroupEvent) :
    (s.preface past).handleGroup g now e = (s.handleGroup g now e).preface past :=
  s.preface_perform past g now (.groupEvent e)

theorem preface_handleEvent (g : Grouping) (now : Nat) (e : Event) :
    (s.preface past).handleEvent g now e = (s.handleEvent g now e).preface past :=
  s.preface_perform past g now (.event e)

theorem preface_round (g : Grouping) (now : Nat) :
    (s.preface past).round g now = (s.round g now).preface past := by
  have hfold : ∀ (xs : List (Kind × Change)) (t : Scene),
      xs.foldl (fun t x => t.handleChange g now x.1 x.2) (t.preface past) =
        (xs.foldl (fun t x => t.handleChange g now x.1 x.2) t).preface past := by
    intro xs
    induction xs with
    | nil => exact fun _ => rfl
    | cons x xs ih =>
        intro t
        rw [List.foldl_cons, List.foldl_cons, preface_handleChange, ih]
  exact hfold s.screen.news { s with screen := s.screen.read }

theorem preface_quiesce (g : Grouping) (now : Nat) :
    (s.preface past).quiesce g now = (s.quiesce g now).preface past ∧
      (s.preface past).quiesceDeeds g now = s.quiesceDeeds g now := by
  have hrounds : ∀ (n : Nat) (t : Scene),
      rounds g now n (t.preface past) = (rounds g now n t).preface past ∧
        roundsDeeds g now n (t.preface past) = roundsDeeds g now n t := by
    intro n
    induction n with
    | zero => exact fun _ => ⟨rfl, rfl⟩
    | succ n ih =>
        intro t
        unfold rounds roundsDeeds
        show (if t.screen.news.isEmpty = true then _ else _) = _ ∧
          (if t.screen.news.isEmpty = true then _ else _) = _
        split
        · exact ⟨rfl, rfl⟩
        · rw [preface_round, (ih _).1, (ih _).2]
          exact ⟨rfl, rfl⟩
  exact hrounds _ s

end Scene

namespace Session
variable (past : List Action)

theorem preface_replay (g : Grouping) (now : Nat) : ∀ (es : List GroupEvent) (s : Scene),
    replay g now (s.preface past) es = (replay g now s es).preface past ∧
      replayDeeds g now (s.preface past) es = replayDeeds g now s es
  | [], _ => ⟨rfl, rfl⟩
  | e :: es, s => by
      have he := s.preface_handleGroup past g now e
      obtain ⟨hq, hd⟩ := (s.handleGroup g now e).preface_quiesce past g now
      obtain ⟨hr, hrd⟩ := preface_replay g now es ((s.handleGroup g now e).quiesce g now)
      constructor
      · show replay g now (((s.preface past).handleGroup g now e).quiesce g now) es = _
        rw [he, hq, hr]
        rfl
      · simp only [replayDeeds]
        rw [he, hq, hd, hrd]

theorem preface_handle (now : Nat) (r : Roster) (s : Scene) (e : Event) :
    handle now (r, s.preface past) e =
        ((handle now (r, s) e).1, (handle now (r, s) e).2.preface past) ∧
      handleDeeds now (r, s.preface past) e = handleDeeds now (r, s) e := by
  have he := s.preface_handleEvent past r.grouping now e
  obtain ⟨hq, hd⟩ := (s.handleEvent r.grouping now e).preface_quiesce past r.grouping now
  obtain ⟨hr, hrd⟩ := preface_replay past (r.next e).grouping now (r.track e).1
    ((s.handleEvent r.grouping now e).quiesce r.grouping now)
  constructor
  · simp only [handle]
    rw [he, hq, hr]
  · simp only [handleDeeds]
    rw [he, hq, hd, hrd]

theorem preface_foldl_handle (now : Nat) : ∀ (es : List Event) (x : Roster × Scene),
    es.foldl (handle now) (x.1, x.2.preface past) =
        ((es.foldl (handle now) x).1, (es.foldl (handle now) x).2.preface past) ∧
      deedsFrom now (x.1, x.2.preface past) es = deedsFrom now x es
  | [], _ => ⟨rfl, rfl⟩
  | e :: es, x => by
      obtain ⟨hh, hd⟩ := preface_handle past now x.1 x.2 e
      obtain ⟨hf, hfd⟩ := preface_foldl_handle now es (handle now x e)
      constructor
      · rw [List.foldl_cons, List.foldl_cons, hh, hf]
      · simp only [deedsFrom]
        rw [hh, hd, hfd]

/-! ### A flush in between -/

/-- The events of a list that the inbox takes. -/
def admitted (s : Session) (es : List Event) : List Event := if s.isClosed then [] else es

theorem run_send (s : Session) : ∀ es : List Event,
    s.run (es.map .send) = { s with inbox := s.inbox ++ s.admitted es }
  | [] => by simp [run, admitted]
  | e :: es => by
      have hrun : s.run ((e :: es).map .send) = (s.send e).1.run (es.map .send) := rfl
      rw [hrun, run_send]
      unfold send admitted
      split <;> simp_all

theorem reported_send : ∀ (s : Session) (es : List Event), s.reported (es.map .send) = []
  | _, [] => rfl
  | s, e :: es => by
      have he : (s.send e).2.journal = [] := by
        unfold send
        split <;> rfl
      show (s.send e).2.journal ++ (s.send e).1.reported (es.map .send) = []
      rw [he, reported_send, List.append_nil]

theorem chronicle_send : ∀ (s : Session) (es : List Event), s.chronicle (es.map .send) = []
  | _, [] => rfl
  | s, e :: es => chronicle_send (s.send e).1 es

/-- Nothing is left unread by a flush. -/
theorem news_flushed (s : Session) (roster : Roster) : (s.flushed roster).2.screen.news = [] := by
  unfold flushed
  rcases List.eq_nil_or_concat s.inbox with h | ⟨es, e, h⟩
  · rw [h]
    exact s.scene.news_quiesce roster.role_of_mem_children s.clock.now
  · rw [h, List.concat_eq_append, List.foldl_append]
    exact news_handle s.clock.now _ e

theorem deedsFrom_append (now : Nat) : ∀ (a b : List Event) (x : Roster × Scene),
    deedsFrom now x (a ++ b) = deedsFrom now x a ++ deedsFrom now (a.foldl (handle now) x) b
  | [], _, _ => rfl
  | e :: a, b, x => by
      simp only [List.cons_append, deedsFrom, deedsFrom_append, List.foldl_cons, List.append_assoc]

/-- The session with the given events in its inbox. -/
def holding (s : Session) (es : List Event) : Session := { s with inbox := es }

/-- The session with a roster and a scene in which its inbox has been handled, once the journal has
been handed out. -/
def settle (s : Session) (x : Roster × Scene) : Session :=
  { s with scene := x.2.act .report, roster := some x.1, inbox := [] }

section flush
variable {s : Session} {roster : Roster}

theorem step_flush (h : s.roster = some roster) :
    s.step .flush =
      (s.settle (s.flushed roster), .actions (s.flushed roster).2.arbiter.journal) :=
  flush_of_some h

theorem flushed_append (s : Session) (roster : Roster) (es : List Event) :
    (s.holding (s.inbox ++ es)).flushed roster =
      es.foldl (handle s.clock.now) (s.flushed roster) :=
  List.foldl_append

/-- What is handled after a flush is handled as if there had been none, but for the journal. -/
theorem flushed_settle (s : Session) (roster : Roster) (es : List Event) :
    let x := s.flushed roster
    let y := ((s.settle x).holding es).flushed x.1
    (s.holding (s.inbox ++ es)).flushed roster = (y.1, y.2.preface x.2.arbiter.journal) ∧
      deedsFrom s.clock.now x es = ((s.settle x).holding es).deeds := by
  intro x y
  have hnews : (x.2.act .report).screen.news = [] := s.news_flushed roster
  have hy : y = es.foldl (handle s.clock.now) (x.1, x.2.act .report) := by
    show es.foldl (handle s.clock.now) (x.1, (x.2.act .report).quiesce x.1.grouping s.clock.now) = _
    rw [Scene.quiesce_of_no_news hnews]
  have hd : ((s.settle x).holding es).deeds =
      deedsFrom s.clock.now (x.1, x.2.act .report) es := by
    show (x.2.act .report).quiesceDeeds x.1.grouping s.clock.now ++
      deedsFrom s.clock.now (x.1, (x.2.act .report).quiesce x.1.grouping s.clock.now) es = _
    rw [Scene.quiesceDeeds_of_no_news hnews, Scene.quiesce_of_no_news hnews, List.nil_append]
  obtain ⟨hf, hfd⟩ :=
    preface_foldl_handle x.2.arbiter.journal s.clock.now es (x.1, x.2.act .report)
  rw [Scene.preface_report] at hf hfd
  exact ⟨by rw [flushed_append, hy, ← hf], by rw [hd, ← hfd]⟩

/-- The deeds of a flush and of the next one are those of a single flush. -/
theorem deeds_settle (h : s.roster = some roster) (es : List Event) :
    (s.holding (s.inbox ++ es)).deeds =
      s.deeds ++ ((s.settle (s.flushed roster)).holding es).deeds := by
  rw [← (s.flushed_settle roster es).2]
  simp only [deeds, h, holding, deedsFrom_append, List.append_assoc]
  rfl

end flush

/-- Nothing tells two lists of requests apart: they lead to the same session, the same actions are
handed out, and the same deeds are done. -/
structure Interchangeable (s : Session) (a b : List Request) : Prop where
  run : s.run a = s.run b
  reported : s.reported a = s.reported b
  chronicle : s.chronicle a = s.chronicle b

theorem Interchangeable.symm {s : Session} {a b : List Request} (h : s.Interchangeable a b) :
    s.Interchangeable b a :=
  ⟨h.run.symm, h.reported.symm, h.chronicle.symm⟩

theorem Interchangeable.trans {s : Session} {a b c : List Request} (h : s.Interchangeable a b)
    (h' : s.Interchangeable b c) : s.Interchangeable a c :=
  ⟨h.run.trans h'.run, h.reported.trans h'.reported, h.chronicle.trans h'.chronicle⟩

theorem Interchangeable.after {s : Session} {a b : List Request} (before : List Request)
    (h : (s.run before).Interchangeable a b) :
    s.Interchangeable (before ++ a) (before ++ b) where
  run := by rw [run_append, run_append, h.run]
  reported := by rw [reported_append, reported_append, h.reported]
  chronicle := by rw [chronicle_append, chronicle_append, h.chronicle]

/-- The events are sent, and then one flush handles them all. -/
def batch (es : List Event) : List Request := es.map .send ++ [.flush]

/-- Each event is handled by a flush of its own before the next one is sent. -/
def oneByOne (es : List Event) : List Request := es.flatMap fun e => [.send e, .flush]

theorem run_batch {s : Session} {roster : Roster} (h : s.roster = some roster)
    (es : List Event) :
    let u := s.holding (s.inbox ++ s.admitted es)
    s.run (batch es) = s.settle (u.flushed roster) ∧
      s.reported (batch es) = (u.flushed roster).2.arbiter.journal ∧
      s.chronicle (batch es) = u.deeds := by
  intro u
  unfold batch
  have hu : s.run (es.map .send) = u := s.run_send es
  have hflush := step_flush (s := u) h
  refine ⟨?_, ?_, ?_⟩
  · rw [run_append, hu]
    exact congrArg Prod.fst hflush
  · rw [reported_append, hu, reported_send, List.nil_append]
    show (u.step .flush).2.journal ++ [] = _
    rw [hflush, List.append_nil]
    rfl
  · rw [chronicle_append, hu, chronicle_send, List.nil_append]
    exact List.append_nil _

/-- **A flush before some events are sent changes nothing**, since another one follows. -/
theorem interchangeable_flush {s : Session} (h : s.roster.isSome = true) (es : List Event) :
    s.Interchangeable ([.flush] ++ batch es) (batch es) := by
  obtain ⟨roster, hr⟩ := Option.isSome_iff_exists.mp h
  have hflush := step_flush hr
  have hx := (s.flushed_settle roster (s.admitted es)).1
  obtain ⟨hrun, hrep, hchr⟩ := run_batch hr es
  have hr' : (s.settle (s.flushed roster)).roster = some (s.flushed roster).1 := rfl
  obtain ⟨hrun', hrep', hchr'⟩ := run_batch hr' es
  refine ⟨?_, ?_, ?_⟩
  · show (s.step .flush).1.run (batch es) = s.run (batch es)
    rw [hflush, hrun, hx]
    exact hrun'
  · show (s.step .flush).2.journal ++ (s.step .flush).1.reported (batch es) = s.reported (batch es)
    rw [hflush, hrep, hx]
    exact congrArg ((s.flushed roster).2.arbiter.journal ++ ·) hrep'
  · show s.deeds ++ (s.step .flush).1.chronicle (batch es) = s.chronicle (batch es)
    rw [hflush, hchr, deeds_settle hr]
    exact congrArg (s.deeds ++ ·) hchr'

theorem Interchangeable.cancel {s : Session} {before a b : List Request}
    (h : s.Interchangeable (before ++ a) (before ++ b)) : (s.run before).Interchangeable a b where
  run := by simpa only [run_append] using h.run
  reported := List.append_cancel_left (by simpa only [reported_append] using h.reported)
  chronicle := List.append_cancel_left (by simpa only [chronicle_append] using h.chronicle)

theorem isSome_roster_send {s : Session} (h : s.roster.isSome = true) (e : Event) :
    (s.send e).1.roster.isSome = true := by
  unfold send
  split <;> exact h

theorem isSome_roster_flush {s : Session} (h : s.roster.isSome = true) :
    (s.step .flush).1.roster.isSome = true := by
  obtain ⟨roster, hr⟩ := Option.isSome_iff_exists.mp h
  rw [step_flush hr]
  rfl

theorem interchangeable_oneByOne : ∀ (es : List Event) {s : Session} (e : Event),
    s.roster.isSome = true → s.Interchangeable (batch (e :: es)) (oneByOne (e :: es))
  | [], _, _, _ => ⟨rfl, rfl, rfl⟩
  | e' :: es, s, e, h => by
      have ht := isSome_roster_send h e
      -- The events after the first are flushed together, once it has been flushed on its own.
      have hrest := (interchangeable_oneByOne es e' (isSome_roster_flush ht)).after [.flush]
      exact ((interchangeable_flush ht (e' :: es)).symm.trans hrest).after [.send e]

/-- **Batching is unobservable.**  In a session that is bound, events that are handled by one flush
and events that are handled by one flush each lead to the same session (books, roster, presenters,
rows and the calls on them), the same actions are handed out and the same deeds are done: they
handle what waited in the inbox and then the events that were taken, each once and in order.  For no
events at all this says that a second flush changes nothing. -/
theorem batching_is_unobservable {s : Session} (h : s.roster.isSome = true) :
    (∀ es, es ≠ [] → s.Interchangeable (batch es) (oneByOne es)) ∧
      (∀ es, (s.step .flush).1.Interchangeable (batch es) (oneByOne es)) ∧
      ∀ es, ∃ x : Roster × Scene,
        s.scene.Does (s.chronicle (batch es)) (s.inbox ++ s.admitted es) x.2 ∧
          s.run (batch es) = s.settle x ∧ s.reported (batch es) = x.2.arbiter.journal := by
  obtain ⟨roster, hr⟩ := Option.isSome_iff_exists.mp h
  refine ⟨?_, ?_, ?_⟩
  · intro es hes
    obtain ⟨e, es, rfl⟩ := List.exists_cons_of_ne_nil hes
    exact interchangeable_oneByOne es e h
  · intro es
    cases es with
    | nil => exact (interchangeable_flush h []).cancel
    | cons e es => exact interchangeable_oneByOne es e (isSome_roster_flush h)
  · intro es
    obtain ⟨hrun, hrep, hchr⟩ := run_batch hr es
    refine ⟨_, ?_, hrun, hrep⟩
    rw [hchr]
    exact does_deeds (s := s.holding (s.inbox ++ s.admitted es)) hr

/-- The alert of the summary goes to the first child and comes back with the second one, in one
flush as in three. -/
theorem batching_two_children :
    let policy : Policy := { scope := .summary }
    let summary : Notice := { key := "s", group := "g", role := .summary, policy, row := "s" }
    let child (key : String) : Notice := { key, group := "g", role := .child, policy, row := key }
    let session := (create {} {}).run
      [.host (.register .headsUp 4), .bind, .host (.prepare "s" 4 true),
        .host (.prepare "c" 4 true), .host (.raise .headsUp summary)]
    let events := [.added summary, .added (child "c"), .added (child "d")]
    session.roster.isSome = true ∧
      session.Interchangeable (batch events) (oneByOne events) ∧
      session.reported (oneByOne events) =
        [.moved "s" "c" .headsUp, .moved "c" "s" .headsUp] :=
  ⟨by decide, (batching_is_unobservable (by decide)).1 _ (by simp), by decide +kernel⟩

end Session
end AlertHandoff
