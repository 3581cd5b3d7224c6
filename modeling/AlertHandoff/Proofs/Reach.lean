import AlertHandoff.Session.Basic

/-! # What a session does to its scene

Whatever a session handles, it changes its scene only by operations of the arbiter and by reading
the feeds of the presenters.  `Scene.Leads` is the least relation that allows this, with any
grouping and any reading of the clock; a property of scenes that operations and readings keep is
kept by everything that is handled (`Scene.Leads.keeps`).

`Session.moments` lists the events that the next flush handles, each with the roster and the scene
that it meets.  `Session.Along` says of a run that every request is made in a suitable session. -/

namespace AlertHandoff
namespace Scene

/-- The second scene comes from the first by operations and by reading feeds. -/
inductive Leads : Scene → Scene → Prop
  | refl (s : Scene) : Leads s s
  | perform {s t : Scene} (g : Grouping) (now : Nat) (o : Operation) :
      Leads s t → Leads s (t.perform g now o)
  | read {s t : Scene} : Leads s t → Leads s { t with screen := t.screen.read }

theorem Leads.trans {s t u : Scene} (h₁ : Leads s t) (h₂ : Leads t u) : Leads s u := by
  induction h₂ with
  | refl => exact h₁
  | perform g now o _ ih => exact ih.perform g now o
  | read _ ih => exact ih.read

/-- What operations and readings keep holds of every scene that is led to. -/
theorem Leads.keeps {P : Scene → Prop}
    (hp : ∀ (s : Scene) g now o, P s → P (s.perform g now o))
    (hr : ∀ s : Scene, P s → P { s with screen := s.screen.read }) {s t : Scene}
    (h : Leads s t) (hs : P s) : P t := by
  induction h with
  | refl => exact hs
  | perform g now o _ ih => exact hp _ g now o ih
  | read _ ih => exact hr _ ih

theorem leads_round (s : Scene) (g : Grouping) (now : Nat) : Leads s (s.round g now) := by
  unfold round
  generalize s.screen.news = xs
  suffices h : ∀ t, Leads s t → Leads s (xs.foldl (fun t x => t.handleChange g now x.1 x.2) t) from
    h _ (Leads.refl s).read
  induction xs with
  | nil => exact fun t ht => ht
  | cons x xs ih => exact fun t ht => ih _ (ht.perform g now (.change x.1 x.2))

theorem leads_rounds (g : Grouping) (now : Nat) : ∀ (n : Nat) (s : Scene),
    Leads s (rounds g now n s)
  | 0, s => Leads.refl s
  | n + 1, s => by
      unfold rounds
      split
      · exact Leads.refl s
      · exact (leads_round s g now).trans (leads_rounds g now n _)

theorem leads_quiesce (s : Scene) (g : Grouping) (now : Nat) : Leads s (s.quiesce g now) :=
  leads_rounds g now _ s

/-- What handling one change after the other keeps, with the changes still to be handled as an
argument, holds with none left when all news has been handled. -/
theorem quiesce_keeps (g : Grouping) (now : Nat) {I : List (Kind × Change) → Scene → Prop}
    (hc : ∀ x xs s, I (x :: xs) s → I xs (s.handleChange g now x.1 x.2))
    (hr : ∀ xs s, I xs s → I xs { s with screen := s.screen.read })
    (hn : ∀ s, I [] s → I s.screen.news s) {s : Scene} (h : I s.screen.news s) :
    I [] (s.quiesce g now) := by
  have hfold : ∀ xs t, I xs t → I [] (xs.foldl (fun t x => t.handleChange g now x.1 x.2) t) := by
    intro xs
    induction xs with
    | nil => exact fun t ht => ht
    | cons x xs ih => exact fun t ht => ih _ (hc x xs t ht)
  have hround : ∀ t, I t.screen.news t → I [] (t.round g now) :=
    fun t ht => hfold _ _ (hr _ t ht)
  have hrounds : ∀ n t, I [] t → I [] (rounds g now n t) := by
    intro n
    induction n with
    | zero => exact fun t ht => ht
    | succ n ih =>
        intro t ht
        unfold rounds
        split
        · exact ht
        · exact ih _ (hround t (hn t ht))
  unfold quiesce rounds
  split
  · next he =>
    rw [List.isEmpty_iff] at he
    rw [he] at h
    exact h
  · exact hrounds _ _ (hround s h)

end Scene

/-- The actions that a reply hands out. -/
def Reply.journal : Reply → List Action
  | .actions journal => journal
  | .done | .host _ | .accepted _ | .refused _ => []

/-! ### Handling events -/

/-- An event about to be handled: the reading of the clock, the roster and the scene it meets. -/
structure Moment where
  now : Nat
  roster : Roster
  scene : Scene
  event : Event

namespace Moment

/-- The roster once the event has been handled. -/
def next (m : Moment) : Roster := m.roster.next m.event

/-- The scene when the arbiter has handled the event and the group events are to be handled. -/
def after (m : Moment) : Scene :=
  (m.scene.handleEvent m.roster.grouping m.now m.event).quiesce m.roster.grouping m.now

/-- The scene once the group events have been handled as well. -/
def result (m : Moment) : Scene :=
  Session.replay m.next.grouping m.now m.after (m.roster.track m.event).1

end Moment

namespace Session

/-- The events of a list with the roster and the scene that each of them meets. -/
def momentsFrom (now : Nat) : Roster × Scene → List Event → List Moment
  | _, [] => []
  | x, e :: es => ⟨now, x.1, x.2, e⟩ :: momentsFrom now (handle now x e) es

/-- The events that a flush handles, with the roster and the scene that each of them meets. -/
def moments (s : Session) : List Moment :=
  match s.roster with
  | none => []
  | some roster =>
    momentsFrom s.clock.now (roster, s.scene.quiesce roster.grouping s.clock.now) s.inbox

/-- What holds at the start of a list of events and is kept at each of its moments holds at every
moment and in the end. -/
theorem momentsFrom_keeps {P : Roster → Scene → Prop} {now : Nat} :
    ∀ (es : List Event) (x : Roster × Scene), P x.1 x.2 →
      (∀ m ∈ momentsFrom now x es, P m.roster m.scene → P m.next m.result) →
      (∀ m ∈ momentsFrom now x es, P m.roster m.scene) ∧
        P (es.foldl (handle now) x).1 (es.foldl (handle now) x).2
  | [], x, hx, _ => ⟨by simp [momentsFrom], hx⟩
  | e :: es, x, hx, h => by
      have hy := h ⟨now, x.1, x.2, e⟩ (by simp [momentsFrom]) hx
      obtain ⟨h₁, h₂⟩ := momentsFrom_keeps es (handle now x e) hy
        fun m hm => h m (List.mem_cons_of_mem _ hm)
      refine ⟨fun m hm => ?_, h₂⟩
      rcases List.mem_cons.mp hm with rfl | hm
      · exact hx
      · exact h₁ m hm

theorem news_replay (r : Roster) (now : Nat) : ∀ (es : List GroupEvent) {s : Scene},
    s.screen.news = [] → (replay r.grouping now s es).screen.news = []
  | [], _, h => h
  | e :: es, s, _ => by
      have hq := Scene.news_quiesce (s.handleGroup r.grouping now e) r.role_of_mem_children now
      exact news_replay r now es hq

/-- Nothing is left unread when an event has been handled. -/
theorem news_handle (now : Nat) (x : Roster × Scene) (e : Event) :
    (handle now x e).2.screen.news = [] := by
  have hq := Scene.news_quiesce (x.2.handleEvent x.1.grouping now e) x.1.role_of_mem_children now
  exact news_replay (x.1.next e) now _ hq

theorem leads_replay (g : Grouping) (now : Nat) : ∀ (es : List GroupEvent) (s : Scene),
    s.Leads (replay g now s es)
  | [], s => Scene.Leads.refl s
  | e :: es, s =>
      (((Scene.Leads.refl s).perform g now (.groupEvent e)).trans
        (Scene.leads_quiesce _ g now)).trans (leads_replay g now es _)

theorem leads_handle (now : Nat) (x : Roster × Scene) (e : Event) :
    x.2.Leads (handle now x e).2 :=
  (((Scene.Leads.refl x.2).perform x.1.grouping now (.event e)).trans
    (Scene.leads_quiesce _ x.1.grouping now)).trans (leads_replay _ now _ _)

theorem leads_foldl_handle (now : Nat) : ∀ (es : List Event) (x : Roster × Scene),
    x.2.Leads (es.foldl (handle now) x).2
  | [], x => Scene.Leads.refl x.2
  | e :: es, x => (leads_handle now x e).trans (leads_foldl_handle now es _)

/-! ### Flushing and running -/

/-- The roster and the scene in which a flush ends, before the journal is handed out. -/
def flushed (s : Session) (roster : Roster) : Roster × Scene :=
  s.inbox.foldl (handle s.clock.now)
    (roster, s.scene.quiesce roster.grouping s.clock.now)

theorem flush_of_none {s : Session} (h : s.roster = none) :
    s.flush = (s, .refused .notBound) := by
  simp [flush, h]

theorem flush_of_some {s : Session} {roster : Roster} (h : s.roster = some roster) :
    s.flush =
      ({ s with
          scene :=
            { (s.flushed roster).2 with
              arbiter := { (s.flushed roster).2.arbiter with journal := [] } }
          roster := some (s.flushed roster).1
          inbox := [] },
        .actions (s.flushed roster).2.arbiter.journal) := by
  simp [flush, h, flushed]

theorem leads_flushed (s : Session) (roster : Roster) : s.scene.Leads (s.flushed roster).2 :=
  (Scene.leads_quiesce s.scene roster.grouping s.clock.now).trans
    (leads_foldl_handle s.clock.now s.inbox (roster, _))

/-- Everything that the flushes of a run have handed out, oldest first. -/
def reported : Session → List Request → List Action
  | _, [] => []
  | s, r :: rs => (s.step r).2.journal ++ reported (s.step r).1 rs

theorem reported_append : ∀ (s : Session) (a b : List Request),
    s.reported (a ++ b) = s.reported a ++ (s.run a).reported b
  | _, [], _ => rfl
  | s, r :: rs, b => by
      simp only [List.cons_append, reported, reported_append, List.append_assoc]
      rfl

/-- Every request of the list is made in a session that suits it. -/
def Along (P : Session → Request → Prop) : Session → List Request → Prop
  | _, [] => True
  | s, r :: rs => P s r ∧ Along P (s.step r).1 rs

instance decidableAlong (P : Session → Request → Prop) [∀ s r, Decidable (P s r)] :
    ∀ (s : Session) (rs : List Request), Decidable (Along P s rs)
  | _, [] => .isTrue trivial
  | s, r :: rs =>
    have := decidableAlong P (s.step r).1 rs
    inferInstanceAs (Decidable (P s r ∧ Along P (s.step r).1 rs))

theorem along_append {P : Session → Request → Prop} : ∀ {s : Session} {a b : List Request},
    Along P s (a ++ b) ↔ Along P s a ∧ Along P (s.run a) b
  | s, [], b => by simp [Along, run]
  | s, r :: rs, b => by
      simp only [List.cons_append, Along, along_append, and_assoc]
      rfl

theorem Along.and {P Q : Session → Request → Prop} : ∀ {s : Session} {rs : List Request},
    Along P s rs → Along Q s rs → Along (fun s r => P s r ∧ Q s r) s rs
  | _, [], _, _ => trivial
  | _, _ :: _, ⟨hp, ha⟩, ⟨hq, hb⟩ => ⟨⟨hp, hq⟩, ha.and hb⟩

theorem along_of_mem {Q : Request → Prop} : ∀ {s : Session} {rs : List Request},
    (∀ r ∈ rs, Q r) → Along (fun _ r => Q r) s rs
  | _, [], _ => trivial
  | _, r :: _, hq =>
      ⟨hq r List.mem_cons_self, along_of_mem fun x hx => hq x (List.mem_cons_of_mem r hx)⟩

theorem Along.and_mem {P : Session → Request → Prop} {Q : Request → Prop} {s : Session}
    {rs : List Request} (h : Along P s rs) (hq : ∀ r ∈ rs, Q r) :
    Along (fun s r => P s r ∧ Q r) s rs :=
  h.and (along_of_mem hq)

/-- What suitable requests keep holds in the end of a run of suitable requests. -/
theorem Along.keeps {P : Session → Request → Prop} {I : Session → Prop}
    (hs : ∀ s r, P s r → I s → I (s.step r).1) : ∀ (rs : List Request) {s : Session},
      Along P s rs → I s → I (s.run rs)
  | [], _, _, hi => hi
  | _ :: rs, _, ⟨hp, ha⟩, hi => Along.keeps hs rs ha (hs _ _ hp hi)

end Session
end AlertHandoff
