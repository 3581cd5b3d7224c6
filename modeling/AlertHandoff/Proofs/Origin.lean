import AlertHandoff.Proofs.Answers
import AlertHandoff.Proofs.Past
import AlertHandoff.Proofs.Promise

/-! # Where deferrals come from

A deferral that is on record, taken back or not, was on record before or has just been made.
`Scene.Alters K Q s t` says of two scenes that their deferrals differ only at keys with `K`, and
that each new one was made for a notice, from a source and for a kind with `Q`.

Ordinary moves lead from one member of a group to another (`Scene.Ordinary`, `Scene.Usual`).  One
kind of deferral is not like that: when the alert that was scheduled for a summary falls due, its
source is the child it was taken from, long ago perhaps (`Scene.Resumes`).  `alters_replay` says that
handling group events makes no others. -/

namespace AlertHandoff

/-- Every summary is in the group whose summary it is. -/
def Grouping.Coherent (g : Grouping) : Prop :=
  ∀ group n, g.summary group = some n → n.group = group

theorem Roster.Indexed.coherent {r : Roster} (h : r.Indexed) : r.grouping.Coherent :=
  fun _ _ hn => (h.summary hn).2.1

namespace Deferral

/-- The deferral as it was when it was made, which is before it may have been taken back. -/
def asMade (d : Deferral) : Deferral := { d with isReversed := false }

theorem source_eq_of_asMade {d e : Deferral} (h : d.asMade = e.asMade) : d.source = e.source :=
  congrArg (·.source) (show d.asMade = e.asMade from h)

theorem kind_eq_of_asMade {d e : Deferral} (h : d.asMade = e.asMade) : d.kind = e.kind :=
  congrArg (·.kind) (show d.asMade = e.asMade from h)

theorem membership_eq_of_asMade {d e : Deferral} (h : d.asMade = e.asMade) :
    d.membership = e.membership :=
  congrArg (·.membership) (show d.asMade = e.asMade from h)

theorem membership_eq_of_fresh {d : Deferral} {n : Notice} {source : String} {kind : Kind}
    (h : d.asMade = Deferral.fresh n source kind) : d.membership = n.membership :=
  congrArg (·.membership) h

end Deferral

namespace Scene

/-- The deferrals differ only at keys with the first property.  Each that is there in the end was
there before, as it was made, or it was made for a notice of its key, and that notice, the source
and the kind have the second property. -/
def Alters (K : String → Prop) (Q : Notice → String → Kind → Prop) (s t : Scene) : Prop :=
  ∀ key : String, t.arbiter.pending[key]? = s.arbiter.pending[key]? ∨
    (K key ∧ ∀ d, t.arbiter.pending[key]? = some d →
      (∃ d₀, s.arbiter.pending[key]? = some d₀ ∧ d.asMade = d₀.asMade) ∨
        ∃ n, n.key = key ∧ Q n d.source d.kind ∧ d.asMade = Deferral.fresh n d.source d.kind)

section
variable {K K' : String → Prop} {Q Q' : Notice → String → Kind → Prop} {s t u : Scene}

theorem Alters.refl (s : Scene) : Alters K Q s s := fun _ => .inl rfl

theorem Alters.mono (h : Alters K Q s t) (hk : ∀ key, K key → K' key)
    (hq : ∀ n source kind, Q n source kind → Q' n source kind) : Alters K' Q' s t := by
  intro key
  rcases h key with h | ⟨hkey, h⟩
  · exact .inl h
  · refine .inr ⟨hk key hkey, fun d hd => ?_⟩
    rcases h d hd with hold | ⟨n, hn, hQ, hmade⟩
    · exact .inl hold
    · exact .inr ⟨n, hn, hq n _ _ hQ, hmade⟩

theorem Alters.cases (h : Alters K Q s t) {key : String} {d : Deferral}
    (hd : t.arbiter.pending[key]? = some d) :
    (∃ d₀, s.arbiter.pending[key]? = some d₀ ∧ d.asMade = d₀.asMade) ∨
      ∃ n, n.key = key ∧ Q n d.source d.kind ∧ d.asMade = Deferral.fresh n d.source d.kind := by
  rcases h key with h | ⟨-, h⟩
  · exact .inl ⟨d, h.symm.trans hd, rfl⟩
  · exact h d hd

theorem Alters.trans (h : Alters K Q s t) (h' : Alters K Q t u) : Alters K Q s u := by
  intro key
  rcases h' key with he | ⟨hkey, hu⟩
  · rw [he]
    exact h key
  · refine .inr ⟨hkey, fun d hd => ?_⟩
    rcases hu d hd with ⟨d₀, hd₀, hmade⟩ | hnew
    · rcases h.cases hd₀ with ⟨d₁, hd₁, hmade'⟩ | ⟨n, hn, hQ, hmade'⟩
      · exact .inl ⟨d₁, hd₁, hmade.trans hmade'⟩
      · rw [← Deferral.source_eq_of_asMade hmade, ← Deferral.kind_eq_of_asMade hmade] at hQ hmade'
        exact .inr ⟨n, hn, hQ, hmade.trans hmade'⟩
    · exact .inr hnew

theorem Loses.alters (h : s.Loses t) (Q : Notice → String → Kind → Prop) :
    Alters (fun _ => True) Q s t :=
  fun key => .inr ⟨trivial, fun d hd => .inl ⟨d, h key d hd, rfl⟩⟩

theorem alters_of_pending (h : t.arbiter.pending = s.arbiter.pending) : Alters K Q s t :=
  fun key => .inl (by rw [h])

end

/-! ### Deliveries -/

variable {K : String → Prop} {Q : Notice → String → Kind → Prop}

theorem alters_move {s : Scene} {n : Notice} {source : String} {kind : Kind} (hk : K n.key)
    (hq : s.outcome n kind = .deferred → Q n source kind) :
    Alters K Q s (s.move n source kind) := by
  have hp : (s.move n source kind).arbiter.pending =
      (s.outcome n kind).pending s.arbiter.pending n source kind := by
    rw [move, write, arbiter_deliver]
    rfl
  intro key
  rw [hp]
  by_cases hkey : key = n.key
  · subst hkey
    refine .inr ⟨hk, fun d hd => ?_⟩
    cases ho : s.outcome n kind with
    | unavailable =>
        rw [ho] at hd
        exact .inl ⟨d, hd, rfl⟩
    | shown => simp [ho, Outcome.pending] at hd
    | deferred =>
        rw [ho, Outcome.pending, Std.ExtTreeMap.getElem?_insert_self] at hd
        cases hd
        exact .inr ⟨n, rfl, hq ho, rfl⟩
  · have hne : ¬n.key = key := Ne.symm hkey
    refine .inl ?_
    cases s.outcome n kind <;>
      simp [Outcome.pending, Std.ExtTreeMap.getElem?_erase, Std.ExtTreeMap.getElem?_insert, hne]

/-! ### Moving an alert on and taking it back -/

/-- The key is that of a child of some group. -/
def ChildKey (g : Grouping) (key : String) : Prop :=
  ∃ group, ∃ n ∈ g.children group, n.key = key

/-- The key is that of the summary or of a child of the group. -/
def MemberKey (g : Grouping) (group key : String) : Prop := ∃ n, Member g group n ∧ n.key = key

/-- A move leads to a member of the group, from another one or the same. -/
def Ordinary (g : Grouping) (group : String) (n : Notice) (source : String) : Prop :=
  Member g group n ∧ MemberKey g group source

/-- The move is ordinary in some group, on whatever kind. -/
def Usual (g : Grouping) (n : Notice) (source : String) (_ : Kind) : Prop :=
  ∃ group, Ordinary g group n source

variable {g : Grouping}

theorem alters_forward {summary : Notice} (hs : g.summary summary.group = some summary) (s : Scene)
    (now : Nat) (kind : Kind) :
    Alters (fun key => ∃ n ∈ g.children summary.group, n.key = key)
      (fun n source _ => Ordinary g summary.group n source) s (s.forward g now summary kind) := by
  rcases s.forward_cases g now summary kind with ⟨he, -⟩ | ⟨child, hc, -, he⟩
  · rw [he]
    exact Alters.refl s
  · have hmem := (mem_children_of_heir? hc).1
    have hmark : (s.markForward summary child kind now).arbiter.pending = s.arbiter.pending := by
      rw [arbiter_markForward]
    rw [he]
    refine (alters_of_pending (t := (s.markForward summary child kind now).dismiss kind summary.key)
      hmark).trans (alters_move ⟨child, hmem, rfl⟩ fun _ => ?_)
    exact ⟨.inr hmem, summary, .inl hs, rfl⟩

theorem alters_turnBack (s : Scene) (key : String) : Alters (· = key) Q s (s.turnBack key) := by
  intro k
  rw [pending_turnBack]
  split
  · next hk =>
    refine .inr ⟨hk.symm, fun d hd => ?_⟩
    obtain ⟨r, hr, rfl⟩ := Option.map_eq_some_iff.mp hd
    exact .inl ⟨r, hr, rfl⟩
  · exact .inl rfl

/-- Taking alerts back makes no deferral, and what is taken comes from one of the children. -/
theorem alters_takeAll (s : Scene) (children : List Notice) :
    Alters (fun key => ∃ n ∈ children, n.key = key) Q s (s.takeAll children).1 ∧
      ∀ taken, (s.takeAll children).2 = some taken → ∃ n ∈ children, n.key = taken.source := by
  refine takeAll_keeps (I := fun t taken =>
    Alters (fun key => ∃ n ∈ children, n.key = key) Q s t ∧
      ∀ due, taken = some due → ∃ n ∈ children, n.key = due.source) ?_ ?_ ?_
  · rintro t taken kind child hc - ⟨ht, -⟩
    refine ⟨ht.trans (alters_of_pending rfl), fun due hd => ?_⟩
    cases hd
    exact ⟨child, hc, rfl⟩
  · rintro t taken d child hc - - ⟨ht, -⟩
    refine ⟨ht.trans ?_, fun due hd => ?_⟩
    · exact (alters_turnBack t child.key).mono (fun key hk => ⟨child, hc, hk.symm⟩)
        fun _ _ _ hq => hq
    · cases hd
      exact ⟨child, hc, rfl⟩
  · exact ⟨Alters.refl s, fun due hd => by cases hd⟩

theorem alters_handBack (s : Scene) (g : Grouping) (now : Nat) (group : String) :
    Alters (MemberKey g group) (fun n source _ => Ordinary g group n source) s
      (s.handBack g now group) := by
  obtain ⟨htake, hsource⟩ := s.alters_takeAll
    (Q := fun n source _ => Ordinary g group n source) (g.children group)
  have htake : Alters (MemberKey g group) (fun n source _ => Ordinary g group n source) s
      (s.takeAll (g.children group)).1 :=
    htake.mono (fun key ⟨n, hn, hk⟩ => ⟨n, .inr hn, hk⟩) fun _ _ _ hq => hq
  rcases s.handBack_cases g now group with ⟨he, -⟩ | ⟨summary, hs, -, ⟨-, he⟩ | ⟨taken, ht, he⟩⟩
  · rw [he]
    exact Alters.refl s
  · rw [he]
    exact htake
  · rw [he]
    obtain ⟨child, hc, hk⟩ := hsource taken ht
    generalize (s.takeAll (g.children group)).1 = t at htake ⊢
    have hmodify : ∀ f, Alters (MemberKey g group) (fun n source _ => Ordinary g group n source) s
        (t.modifyRecord group f) :=
      fun f => htake.trans (alters_of_pending (t := t.modifyRecord group f) rfl)
    rcases t.restore_cases g group summary taken with ⟨-, he⟩ | ⟨-, -, he⟩ | ⟨-, -, he⟩
    · rw [he]
      exact htake
    · rw [he]
      refine (hmodify _).trans (alters_move ⟨summary, .inl hs, rfl⟩ fun _ => ?_)
      exact ⟨.inl hs, child, .inr hc, hk⟩
    · rw [he]
      exact htake.trans (alters_of_pending rfl)

/-! ### Drawn content and news -/

/-- Drawn content makes no deferral: one whose content is still missing waits on as it was made. -/
theorem alters_rendered (s : Scene) (n : Notice) : Alters (fun _ => True) Q s (s.rendered n) := by
  refine Loses.alters (fun key d hd => ?_) Q
  have herase : (s.clearDeferral n.key).arbiter.pending[key]? = some d →
      s.arbiter.pending[key]? = some d := getElem?_pending_clearDeferral
  rcases s.rendered_cases n with ⟨-, he⟩ | ⟨r, hr, ⟨t, a, ht, -, he⟩ | ⟨hf, -, -, he⟩⟩
  · rwa [he] at hd
  · rw [he] at hd
    rcases ht with rfl | rfl
    · exact herase hd
    · refine herase ?_
      rw [← hd]
      show _ = ((s.clearDeferral n.key).release n r.kind).arbiter.pending[key]?
      rw [arbiter_release]
  · have hp : ((s.clearDeferral n.key).complete n r).arbiter.pending =
        ((s.clearDeferral n.key).outcome n r.kind).pending (s.arbiter.pending.erase n.key) n
          r.source r.kind := by
      rw [complete, write, arbiter_deliver]
      rfl
    rw [he, hp] at hd
    cases ho : (s.clearDeferral n.key).outcome n r.kind with
    | unavailable =>
        rw [ho] at hd
        exact herase hd
    | shown =>
        rw [ho, Outcome.pending, Std.ExtTreeMap.getElem?_erase] at hd
        split at hd
        · cases hd
        · exact herase hd
    | deferred =>
        rw [ho, Outcome.pending, fresh_of_fits hf, Std.ExtTreeMap.getElem?_insert] at hd
        split at hd
        · next hk =>
          rw [← Std.LawfulEqCmp.eq_of_compare hk, hr, hd]
        · exact herase hd

theorem alters_handleChange (hg : g.Coherent) (s : Scene) (now : Nat) (kind : Kind) (c : Change) :
    Alters (ChildKey g) (Usual g) s (s.handleChange g now kind c) := by
  rcases s.handleChange_cases g now kind c with ⟨he, -⟩ | ⟨n, summary, -, hs, -, he⟩
  · rw [he]
    exact Alters.refl s
  · rw [he]
    rw [← hg n.group summary hs] at hs
    exact (alters_forward hs s now kind).mono (fun key hk => ⟨_, hk⟩) fun _ _ _ h => ⟨_, h⟩

/-- Handling news makes ordinary deferrals only, for children. -/
theorem alters_quiesce (hg : g.Coherent) (s : Scene) (now : Nat) :
    Alters (ChildKey g) (Usual g) s (s.quiesce g now) :=
  quiesce_keeps g now (I := fun _ t => Alters (ChildKey g) (Usual g) s t)
    (fun x _ t ht => ht.trans (alters_handleChange hg t now x.1 x.2))
    (fun _ _ ht => ht.trans (alters_of_pending rfl)) (fun _ ht => ht) (Alters.refl s)

/-! ### Group events -/

/-- The group event brings up the alert that was scheduled for the summary of its group, and that is
put off as its content is missing. -/
structure Resumes (s : Scene) (g : Grouping) (e : GroupEvent) (n : Notice) (due : Schedule) :
    Prop where
  event : e = .suppression e.group false
  summary : g.summary e.group = some n
  quiet : s.arbiter.quiet = false
  schedule : (s.arbiter.record e.group).schedule = some due
  down : s.screen.isUp due.kind n.key = false
  outcome : s.outcome n due.kind = .deferred

theorem handleGroup_of_resumes {s : Scene} {e : GroupEvent} {n : Notice} {due : Schedule}
    (h : s.Resumes g e n due) (now : Nat) :
    s.handleGroup g now e = (s.unschedule e.group).move n due.source due.kind := by
  have he : s.handleGroup g now e = s.handleSuppression g now e.group false :=
    congrArg (s.handleGroup g now) h.event
  rw [he]
  simp [handleSuppression, h.summary, h.quiet, h.schedule, unschedule, h.down]

theorem alters_handleGroup (hg : g.Coherent) (s : Scene) (now : Nat) (e : GroupEvent) :
    Alters (fun key => (∃ on, e = .suppression e.group on) ∧ MemberKey g e.group key)
      (fun n source kind => Ordinary g e.group n source ∨ s.Resumes g e n ⟨kind, source⟩) s
      (s.handleGroup g now e) := by
  cases e with
  | formed group | dissolved group => exact alters_of_pending rfl
  | suppression group on =>
      have hu : s.arbiter.pending = (s.unschedule group).arbiter.pending := rfl
      show Alters _ _ s (s.handleSuppression g now group on)
      rcases s.handleSuppression_cases g now group on with ⟨he, -⟩ | ⟨summary, hs, h⟩
      · rw [he]
        exact Alters.refl s
      · have hgroup := hg group summary hs
        rcases h with ⟨-, kind, -, he⟩ | ⟨-, -, -, he⟩ |
          ⟨hoff, hq, due, hdue, ⟨-, he⟩ | ⟨hdown, he⟩⟩
        · rw [he]
          have hs' := hs
          rw [← hgroup] at hs'
          refine (alters_forward hs' s now kind).mono ?_ ?_
          · rintro key ⟨n, hn, hk⟩
            rw [hgroup] at hn
            exact ⟨⟨on, rfl⟩, n, .inr hn, hk⟩
          · intro n source kind h
            rw [hgroup] at h
            exact .inl h
        · rw [he]
          exact (s.alters_handBack g now group).mono (fun key h => ⟨⟨on, rfl⟩, h⟩)
            fun _ _ _ h => .inl h
        · rw [he]
          exact alters_of_pending hu.symm
        · rw [he]
          refine (alters_of_pending hu.symm).trans
            (alters_move ⟨⟨on, rfl⟩, summary, .inl hs, rfl⟩ fun ho => .inr ?_)
          exact ⟨by rw [hoff]; rfl, hs, hq, hdue, hdown, ho⟩

end Scene

namespace Session

/-- **What the handling of group events makes**: ordinary deferrals and those of alerts that fall
due.  It concerns children, and the members of the groups whose suppression changes. -/
theorem alters_replay {g : Grouping} (hg : g.Coherent) (now : Nat) :
    ∀ (es : List GroupEvent) (s : Scene),
    Scene.Alters
      (fun key => Scene.ChildKey g key ∨
        ∃ e ∈ es, (∃ on, e = .suppression e.group on) ∧ Scene.MemberKey g e.group key)
      (fun n source kind => Scene.Usual g n source kind ∨
        ∃ before e after, es = before ++ e :: after ∧
          (replay g now s before).Resumes g e n ⟨kind, source⟩)
      s (replay g now s es)
  | [], s => Scene.Alters.refl s
  | e :: es, s => by
      have hevent := Scene.alters_handleGroup hg s now e
      have hquiesce := Scene.alters_quiesce hg (s.handleGroup g now e) now
      have hrest := alters_replay hg now es ((s.handleGroup g now e).quiesce g now)
      refine Scene.Alters.trans ?_ (hrest.mono ?_ ?_)
      · refine (hevent.mono ?_ ?_).trans (hquiesce.mono ?_ ?_)
        · exact fun key hk => .inr ⟨e, List.mem_cons_self, hk⟩
        · rintro n source kind (h | h)
          · exact .inl ⟨_, h⟩
          · exact .inr ⟨[], e, es, rfl, h⟩
        · exact fun key hk => .inl hk
        · exact fun _ _ _ h => .inl h
      · rintro key (hk | ⟨x, hx, hk⟩)
        · exact .inl hk
        · exact .inr ⟨x, List.mem_cons_of_mem e hx, hk⟩
      · rintro n source kind (h | ⟨before, x, after, rfl, h⟩)
        · exact .inl h
        · exact .inr ⟨e :: before, x, after, rfl, h⟩

end Session

/-! ### The events of a run -/

namespace Moment
variable {m : Moment}

/-- The deed by which the arbiter handles the event. -/
def deed (m : Moment) : Deed := .perform m.roster.grouping m.now (.event m.event)

/-- One of the group events that the event brings about brings up the alert that was scheduled for a
summary, and that is put off. -/
def Resumes (m : Moment) (n : Notice) (due : Schedule) : Prop :=
  ∃ before e after, (m.roster.track m.event).1 = before ++ e :: after ∧
    (Session.replay m.next.grouping m.now m.after before).Resumes m.next.grouping e n due

/-- The notice of the event is entered, brought up to date or removed: nobody is alerted. -/
theorem Sound.after_eq (h : m.Sound) (hs : (m.scene.act m.deed).screen = m.scene.screen) :
    m.after = m.scene.act m.deed :=
  Scene.quiesce_of_no_news (by rw [← h.news, ← hs]; rfl) _ _

/-- Until the group events come, the arbiter makes ordinary deferrals only. -/
theorem Sound.alters_after (h : m.Sound) :
    Scene.Alters (fun _ => True) (Scene.Usual m.next.grouping) m.scene m.after := by
  -- The roster stays as it was, or the arbiter only gives deferrals up.
  have hstay : m.next = m.roster →
      Scene.Alters (fun _ => True) (Scene.Usual m.next.grouping) m.scene (m.scene.act m.deed) →
        Scene.Alters (fun _ => True) (Scene.Usual m.next.grouping) m.scene m.after := by
    intro hnext hact
    have hq := Scene.alters_quiesce h.indexed.coherent (m.scene.act m.deed) m.now
    rw [hnext] at hact ⊢
    exact hact.trans (hq.mono (fun _ _ => trivial) fun _ _ _ h => h)
  have hlose : (m.scene.act m.deed).screen = m.scene.screen → m.scene.Loses (m.scene.act m.deed) →
      Scene.Alters (fun _ => True) (Scene.Usual m.next.grouping) m.scene m.after := by
    intro hs hl
    rw [h.after_eq hs]
    exact hl.alters _
  obtain ⟨now, r, s, e⟩ := m
  cases e with
  | announced n =>
      refine hstay rfl ?_
      have ha : Scene.Alters (fun _ => True) (Scene.Usual r.grouping) s
          { s with arbiter := s.arbiter.announce n } := Scene.alters_of_pending rfl
      show Scene.Alters _ _ s (s.handleEvent r.grouping now (.announced n))
      simp only [Scene.handleEvent]
      split
      · exact ha
      · exact ha.trans ((Scene.alters_handBack _ r.grouping now n.group).mono
          (fun _ _ => trivial) fun _ _ _ h => ⟨_, h⟩)
  | rendered n => exact hstay rfl (s.alters_rendered n)
  | added n => exact hlose rfl fun _ _ hd => hd
  | updated n previous =>
      refine hlose rfl fun key d hd => ?_
      have hd' : (if previous.describes n then s.arbiter.refresh n
          else (s.arbiter.refresh n).regroup n).pending[key]? = some d := hd
      split at hd'
      · exact hd'
      · exact (Option.filter_eq_some_iff.mp ((Keyed.getElem?_extract_snd _ _ _).symm.trans hd')).1
  | removed n =>
      refine hlose rfl fun key d hd => ?_
      have hd' : (s.arbiter.remove n).pending[key]? = some d := hd
      rw [Arbiter.getElem?_pending_remove, Option.filter_eq_some_iff] at hd'
      exact hd'.1

theorem Sound.not_named (h : m.Sound) {k key : String} {d : Deferral}
    (hv : m.deed.voids? = some k) (hd : m.after.arbiter.pending[key]? = some d) :
    k ≠ key ∧ k ≠ d.source := by
  have hs : (m.scene.act m.deed).screen = m.scene.screen := by
    obtain ⟨now, r, s, e⟩ := m
    cases e with
    | announced n | rendered n | added n => cases hv
    | updated n previous | removed n => rfl
  rw [h.after_eq hs] at hd
  exact Scene.not_named_of_voids hv hd

/-- The group events bring ordinary deferrals and those of alerts that fall due. -/
theorem Sound.alters_result (h : m.Sound) :
    Scene.Alters (fun _ => True)
      (fun n source kind => Scene.Usual m.next.grouping n source kind ∨
        m.Resumes n ⟨kind, source⟩) m.after m.result :=
  (Session.alters_replay h.next.coherent m.now _ m.after).mono
    (fun _ _ => trivial) fun _ _ _ h => h

theorem Sound.entry_of_resumes (h : m.Sound) {n : Notice} {due : Schedule}
    (hr : m.Resumes n due) : m.next.entries[n.key]? = some n ∧ n.role = .summary := by
  obtain ⟨before, e, after, -, hr⟩ := hr
  obtain ⟨he, -, hrole⟩ := h.next.summary hr.summary
  exact ⟨he, hrole⟩

end Moment
end AlertHandoff
