import AlertHandoff.Proofs.Cases
import AlertHandoff.Proofs.Reach

/-! # The journal tells which moves wait

A reader of the journal keeps a ledger of the moves that wait for content: `deferred` opens one,
and `moved`, `completed`, `reversed` and `voided` close the one to their key.  The ledger of all
that was ever written is the arbiter's own map of deferrals, source and kind, at any time; and no
`completed`, `reversed` or `voided` closes a move that is not open.

The one step that could break this is a deferral that is lost because its kind has no presenter.
A deferral is only made where there is one, and presenters are replaced and never taken away, so
every deferral stays served (`Scene.Served`). -/

namespace AlertHandoff

/-- The moves that wait, by destination: where the alert came from, and its kind. -/
abbrev Ledger := Keyed (String × Kind)

/-- The key whose waiting move is at an end, according to an action. -/
def Action.closes : Action → Option String
  | .completed key _ | .reversed key | .voided key _ => some key
  | .moved .. | .deferred .. | .scheduled .. => none

namespace Ledger

/-- The ledger after an action. -/
def enter (l : Ledger) : Action → Ledger
  | .deferred source target kind => l.insert target (source, kind)
  | .moved _ target _ => l.erase target
  | .completed key _ | .reversed key | .voided key _ => l.erase key
  | .scheduled .. => l

/-- The ledger of a list of actions. -/
def ofActions (actions : List Action) : Ledger := actions.foldl enter ∅

/-- Whatever the actions close is open at that point. -/
def Admits (l : Ledger) : List Action → Prop
  | [] => True
  | a :: actions => (∀ key, a.closes = some key → key ∈ l) ∧ (l.enter a).Admits actions

theorem admits_append : ∀ {l : Ledger} {a b : List Action},
    l.Admits (a ++ b) ↔ l.Admits a ∧ Ledger.Admits (a.foldl enter l) b
  | l, [], b => by simp [Admits]
  | l, x :: a, b => by
      simp only [List.cons_append, Admits, admits_append, List.foldl_cons, and_assoc]

theorem Admits.mem {l : Ledger} {before after : List Action} {a : Action} {key : String}
    (h : l.Admits (before ++ a :: after)) (hc : a.closes = some key) :
    key ∈ before.foldl enter l :=
  (admits_append.mp h).2.1 key hc

/-- Voiding some keys, each once and each open, closes exactly these. -/
theorem admits_voided (cause : Cause) : ∀ {keys : List String} {l : Ledger}, keys.Nodup →
    (∀ key ∈ keys, key ∈ l) → l.Admits (keys.map (.voided · cause)) ∧
      ∀ x : String, Std.ExtTreeMap.get? ((keys.map (.voided · cause)).foldl enter l) x =
        if x ∈ keys then none else l[x]?
  | [], l, _, _ => by simp [Admits]
  | key :: keys, l, hn, hm => by
      obtain ⟨hnot, hn⟩ := List.nodup_cons.mp hn
      have hm' : ∀ k ∈ keys, k ∈ l.erase key := by
        intro k hk
        have hne : key ≠ k := fun h => hnot (h ▸ hk)
        rw [Std.ExtTreeMap.mem_erase]
        exact ⟨by simpa using hne, hm k (List.mem_cons_of_mem _ hk)⟩
      obtain ⟨ha, hg⟩ := admits_voided cause hn hm'
      refine ⟨⟨?_, ha⟩, ?_⟩
      · intro k hk
        cases hk
        exact hm key List.mem_cons_self
      · intro x
        rw [List.map_cons, List.foldl_cons]
        refine (hg x).trans ?_
        rw [Std.ExtTreeMap.getElem?_erase]
        by_cases hx : key = x
        · simp [hx]
        · have hx' : x ≠ key := Ne.symm hx
          simp [hx, hx']

end Ledger

namespace Scene

/-! ### Keeping the journal -/

/-- The moves that wait according to the books. -/
def waiting (s : Scene) : Ledger := s.arbiter.pending.map fun _ d => (d.source, d.kind)

/-- Every move that waits has a presenter that could show it. -/
def Served (s : Scene) : Prop :=
  ∀ (key : String) (x : String × Kind), s.waiting[key]? = some x →
    (s.screen.presenter x.2).isSome = true

/-- What the second scene has written after the first tells how the moves that wait differ. -/
def Logs (s t : Scene) : Prop :=
  ∃ actions, t.arbiter.journal = s.arbiter.journal ++ actions ∧ s.waiting.Admits actions ∧
    actions.foldl Ledger.enter s.waiting = t.waiting

/-- If every move was served before, the journal was kept and every move is served. -/
def Follows (s t : Scene) : Prop := s.Served → s.Logs t ∧ t.Served

theorem getElem?_waiting (s : Scene) (key : String) :
    s.waiting[key]? = s.arbiter.pending[key]?.map fun d => (d.source, d.kind) := by
  unfold waiting
  rw [Std.ExtTreeMap.getElem?_map]

theorem Logs.trans {s t u : Scene} (h₁ : s.Logs t) (h₂ : t.Logs u) : s.Logs u := by
  obtain ⟨a, ja, aa, ea⟩ := h₁
  obtain ⟨b, jb, ab, eb⟩ := h₂
  refine ⟨a ++ b, ?_, ?_, ?_⟩
  · rw [jb, ja, List.append_assoc]
  · rw [Ledger.admits_append, ea]
    exact ⟨aa, ab⟩
  · rw [List.foldl_append, ea, eb]

theorem Follows.trans {s t u : Scene} (h₁ : s.Follows t) (h₂ : t.Follows u) : s.Follows u := by
  intro hs
  obtain ⟨l₁, ht⟩ := h₁ hs
  obtain ⟨l₂, hu⟩ := h₂ ht
  exact ⟨l₁.trans l₂, hu⟩

/-- Where nothing is written, the same moves wait and no presenter is gone, the journal is kept. -/
theorem follows_of_same {s t : Scene} (hj : t.arbiter.journal = s.arbiter.journal)
    (hw : t.waiting = s.waiting)
    (hp : ∀ k, (s.screen.presenter k).isSome = true → (t.screen.presenter k).isSome = true) :
    s.Follows t := by
  intro hs
  refine ⟨⟨[], ?_, trivial, hw.symm⟩, ?_⟩
  · rw [hj, List.append_nil]
  · intro key x hx
    rw [hw] at hx
    exact hp _ (hs key x hx)

theorem Follows.refl (s : Scene) : s.Follows s := follows_of_same rfl rfl fun _ h => h

/-- Writing one action that changes the ledger as the books change keeps the journal. -/
theorem follows_of_action {s t : Scene} {a : Action}
    (hj : t.arbiter.journal = s.arbiter.journal ++ [a])
    (hc : ∀ key, a.closes = some key → key ∈ s.waiting) (hw : s.waiting.enter a = t.waiting)
    (hp : ∀ k, (s.screen.presenter k).isSome = true → (t.screen.presenter k).isSome = true)
    (hn : ∀ (key : String) x, t.waiting[key]? = some x →
      s.waiting[key]? = some x ∨ (t.screen.presenter x.2).isSome = true) : s.Follows t := by
  intro hs
  refine ⟨⟨[a], hj, ⟨hc, trivial⟩, hw⟩, ?_⟩
  intro key x hx
  rcases hn key x hx with h | h
  · exact hp _ (hs key x h)
  · exact h

/-! ### Deliveries -/

theorem waiting_clearDeferral (s : Scene) (key : String) :
    (s.clearDeferral key).waiting = s.waiting.erase key := by
  apply Std.ExtTreeMap.ext_getElem?
  intro x
  rw [getElem?_waiting, Std.ExtTreeMap.getElem?_erase, getElem?_waiting]
  simp only [clearDeferral, Std.ExtTreeMap.getElem?_erase]
  split <;> rfl

theorem waiting_deliver (s : Scene) (n : Notice) (source : String) (kind : Kind) :
    (s.deliver n source kind).waiting =
      match s.outcome n kind with
      | .shown => s.waiting.erase n.key
      | .deferred => s.waiting.insert n.key (source, kind)
      | .unavailable => s.waiting := by
  apply Std.ExtTreeMap.ext_getElem?
  intro x
  rw [getElem?_waiting, arbiter_deliver]
  cases s.outcome n kind with
  | unavailable => exact (s.getElem?_waiting x).symm
  | shown =>
      simp only [Outcome.pending, Std.ExtTreeMap.getElem?_erase, getElem?_waiting]
      split <;> rfl
  | deferred =>
      simp only [Outcome.pending, Std.ExtTreeMap.getElem?_insert, getElem?_waiting]
      split <;> rfl

/-- A move is written down as what came of it. -/
theorem follows_move (s : Scene) (n : Notice) (source : String) (kind : Kind) :
    s.Follows (s.move n source kind) := by
  have hj : (s.move n source kind).arbiter.journal =
      s.arbiter.journal ++ (s.outcome n kind).actions source n.key kind := by
    simp [move, write, arbiter_deliver]
  have hw := s.waiting_deliver n source kind
  have hp : ∀ k, (s.screen.presenter k).isSome = true →
      ((s.deliver n source kind).screen.presenter k).isSome = true := by
    intro k hk
    rw [isSome_presenter_deliver, hk]
  cases h : s.outcome n kind with
  | unavailable =>
      rw [h] at hj hw
      rw [Outcome.actions, List.append_nil] at hj
      exact follows_of_same hj hw hp
  | shown =>
      rw [h] at hj hw
      refine follows_of_action hj (by simp [Action.closes]) hw.symm hp ?_
      intro key x hx
      have hx' : (s.deliver n source kind).waiting[key]? = some x := hx
      rw [hw, Std.ExtTreeMap.getElem?_erase] at hx'
      split at hx'
      · cases hx'
      · exact .inl hx'
  | deferred =>
      have hk : (s.screen.presenter kind).isSome = true := by
        apply presenter_of_outcome (n := n)
        rw [h]
        decide
      rw [h] at hj hw
      refine follows_of_action hj (by simp [Action.closes]) hw.symm hp ?_
      intro key x hx
      have hx' : (s.deliver n source kind).waiting[key]? = some x := hx
      rw [hw, Std.ExtTreeMap.getElem?_insert] at hx'
      split at hx'
      · cases hx'
        exact .inr (hp kind hk)
      · exact .inl hx'

theorem mem_waiting {s : Scene} {key : String} {d : Deferral}
    (h : s.arbiter.pending[key]? = some d) : key ∈ s.waiting := by
  rw [Std.ExtTreeMap.mem_iff_isSome_getElem?, getElem?_waiting, h]
  rfl

/-- A move whose content arrived is written down as complete, or waits again unchanged; it is
served, so it is not lost. -/
theorem follows_complete {s : Scene} {n : Notice} {d : Deferral}
    (h : s.arbiter.pending[n.key]? = some d) :
    s.Follows ((s.clearDeferral n.key).complete n d) := by
  intro hs
  have hpres : (s.screen.presenter d.kind).isSome = true :=
    hs n.key (d.source, d.kind) (by rw [getElem?_waiting, h]; rfl)
  have hj : ((s.clearDeferral n.key).complete n d).arbiter.journal = s.arbiter.journal ++
      if (s.clearDeferral n.key).outcome n d.kind = .shown then [.completed n.key d.kind] else [] := by
    simp [complete, write, arbiter_deliver, clearDeferral]
  have hw := (s.clearDeferral n.key).waiting_deliver n d.source d.kind
  rw [waiting_clearDeferral] at hw
  have hp : ∀ k, (s.screen.presenter k).isSome = true →
      (((s.clearDeferral n.key).complete n d).screen.presenter k).isSome = true := by
    intro k hk
    have := (s.clearDeferral n.key).isSome_presenter_deliver n d.source d.kind k
    exact this.trans hk
  refine (?_ : s.Follows _) hs
  cases ho : (s.clearDeferral n.key).outcome n d.kind with
  | unavailable =>
      rw [outcome_eq_unavailable_iff] at ho
      have hnone : s.screen.presenter d.kind = none := ho
      simp [hnone] at hpres
  | shown =>
      rw [ho] at hj hw
      have hw' : s.waiting.erase n.key = ((s.clearDeferral n.key).complete n d).waiting := by
        refine Eq.trans ?_ hw.symm
        apply Std.ExtTreeMap.ext_getElem?
        intro x
        simp only [Std.ExtTreeMap.getElem?_erase]
        split <;> rfl
      refine follows_of_action hj ?_ hw' hp ?_
      · intro key hk
        cases hk
        exact mem_waiting h
      · intro key x hx
        rw [← hw', Std.ExtTreeMap.getElem?_erase] at hx
        split at hx
        · cases hx
        · exact .inl hx
  | deferred =>
      rw [ho] at hj hw
      refine follows_of_same ?_ ?_ hp
      · rw [hj, if_neg (by decide), List.append_nil]
      · refine Eq.trans hw ?_
        apply Std.ExtTreeMap.ext_getElem?
        intro x
        rw [Std.ExtTreeMap.getElem?_insert, Std.ExtTreeMap.getElem?_erase]
        split
        · next hx =>
          rw [← Std.LawfulEqCmp.eq_of_compare hx, getElem?_waiting, h]
          rfl
        · rfl

theorem presenter_release (s : Scene) (n : Notice) (kind k : Kind) :
    (s.release n kind).screen.presenter k = s.screen.presenter k := by
  unfold release
  split
  · rfl
  · cases k <;> rfl

theorem waiting_release (s : Scene) (n : Notice) (kind : Kind) :
    (s.release n kind).waiting = s.waiting := by
  unfold release
  split <;> rfl

theorem follows_rendered (s : Scene) (n : Notice) : s.Follows (s.rendered n) := by
  rcases s.rendered_cases n with ⟨-, he⟩ | ⟨d, hd, h⟩
  · rw [he]
    exact Follows.refl s
  · rcases h with ⟨t, a, ht, ha, he⟩ | ⟨-, -, -, he⟩
    · have hw : t.waiting = s.waiting.erase n.key := by
        rcases ht with rfl | rfl
        · exact s.waiting_clearDeferral n.key
        · rw [waiting_release, waiting_clearDeferral]
      have hj : t.arbiter.journal = s.arbiter.journal := by
        rcases ht with rfl | rfl
        · rfl
        · rw [arbiter_release]
          rfl
      have hp : ∀ k, t.screen.presenter k = s.screen.presenter k := by
        intro k
        rcases ht with rfl | rfl
        · rfl
        · rw [presenter_release]
          rfl
      have hc : a.closes = some n.key ∧ s.waiting.enter a = s.waiting.erase n.key := by
        rcases ha with rfl | ⟨cause, rfl⟩ <;> exact ⟨rfl, rfl⟩
      rw [he]
      refine follows_of_action (a := a) ?_ ?_ ?_ ?_ ?_
      · exact congrArg (· ++ [a]) hj
      · intro key hk
        rw [hc.1] at hk
        cases hk
        exact mem_waiting hd
      · exact hc.2.trans hw.symm
      · intro k hk
        have := hp k
        rwa [← this] at hk
      · intro key x hx
        have hx' : t.waiting[key]? = some x := hx
        rw [hw, Std.ExtTreeMap.getElem?_erase] at hx'
        split at hx'
        · cases hx'
        · exact .inl hx'
    · rw [he]
      exact follows_complete hd

/-! ### Moving an alert on and taking it back -/

theorem isSome_presenter_dismiss (s : Scene) (kind k : Kind) (key : String) :
    ((s.dismiss kind key).screen.presenter k).isSome = (s.screen.presenter k).isSome := by
  simp only [dismiss, Screen.dismiss, Screen.presenter_callPresenter]
  split <;> simp

theorem follows_dismiss (s : Scene) (kind : Kind) (key : String) :
    s.Follows (s.dismiss kind key) := by
  refine follows_of_same rfl rfl ?_
  intro k hk
  rw [isSome_presenter_dismiss, hk]

theorem follows_markForward (s : Scene) (summary child : Notice) (kind : Kind) (now : Nat) :
    s.Follows (s.markForward summary child kind now) := by
  unfold markForward
  split
  · exact follows_of_same rfl rfl fun _ h => h
  · exact Follows.refl s

theorem follows_forward (s : Scene) (g : Grouping) (now : Nat) (summary : Notice) (kind : Kind) :
    s.Follows (s.forward g now summary kind) := by
  rcases s.forward_cases g now summary kind with ⟨he, -⟩ | ⟨child, -, -, he⟩
  · rw [he]
    exact Follows.refl s
  · rw [he]
    have h₁ := s.follows_markForward summary child kind now
    have h₂ := follows_dismiss (s.markForward summary child kind now) kind summary.key
    exact (h₁.trans h₂).trans (follows_move _ child summary.key kind)

/-- A move that is taken back still waits, for the content that was asked for. -/
theorem follows_turnBack (s : Scene) (key : String) : s.Follows (s.turnBack key) := by
  refine follows_of_same rfl ?_ fun _ h => h
  apply Std.ExtTreeMap.ext_getElem?
  intro x
  rw [getElem?_waiting, getElem?_waiting, pending_turnBack]
  split
  · rw [Option.map_map]
    rfl
  · rfl

theorem follows_takeAll (s : Scene) (children : List Notice) :
    s.Follows (s.takeAll children).1 :=
  takeAll_keeps (I := fun t _ => s.Follows t)
    (fun t _ kind child _ _ h => h.trans (t.follows_dismiss kind child.key))
    (fun t _ _ child _ _ _ h => h.trans (t.follows_turnBack child.key)) (Follows.refl s)

theorem follows_restore (s : Scene) (g : Grouping) (group : String) (summary : Notice)
    (taken : Schedule) : s.Follows (s.restore g group summary taken) := by
  rcases s.restore_cases g group summary taken with ⟨-, he⟩ | ⟨-, -, he⟩ | ⟨-, -, he⟩
  · rw [he]
    exact Follows.refl s
  · rw [he]
    have h : s.Follows (s.modifyRecord group fun r => { r with lastForward := none }) :=
      follows_of_same rfl rfl fun _ h => h
    exact h.trans (follows_move _ summary taken.source taken.kind)
  · rw [he]
    refine follows_of_action rfl (by simp [Action.closes]) rfl (fun _ h => h) ?_
    exact fun key x hx => .inl hx

theorem follows_handBack (s : Scene) (g : Grouping) (now : Nat) (group : String) :
    s.Follows (s.handBack g now group) := by
  rcases s.handBack_cases g now group with ⟨he, -⟩ | ⟨summary, -, -, ⟨-, he⟩ | ⟨taken, -, he⟩⟩
  · rw [he]
    exact Follows.refl s
  · rw [he]
    exact s.follows_takeAll _
  · rw [he]
    exact (s.follows_takeAll _).trans (follows_restore _ g group summary taken)

/-! ### Giving moves up -/

theorem nodup_extract (m : Keyed Deferral) (p : String → Deferral → Bool) :
    (Keyed.extract m p).1.Nodup := by
  refine List.Pairwise.imp ?_ (Keyed.pairwise_extract_fst m p)
  rintro a b hab rfl
  have he : compare a a = .eq := Std.ReflCmp.compare_self
  rw [he] at hab
  cases hab

/-- Every move that is given up is written down, and only these. -/
theorem follows_giveUp {s : Scene} {a : Arbiter} (p : String → Deferral → Bool) (cause : Cause)
    (hj : a.journal = s.arbiter.journal) :
    s.Follows { s with arbiter := a.giveUp (Keyed.extract s.arbiter.pending p) cause } := by
  intro hs
  have hmem : ∀ key ∈ (Keyed.extract s.arbiter.pending p).1, key ∈ s.waiting := by
    intro key hk
    obtain ⟨d, hd, -⟩ := Keyed.mem_extract_fst.mp hk
    exact mem_waiting hd
  obtain ⟨ha, hg⟩ := Ledger.admits_voided cause (nodup_extract s.arbiter.pending p) hmem
  have hw : ((Keyed.extract s.arbiter.pending p).1.map (.voided · cause)).foldl Ledger.enter
      s.waiting =
        waiting { s with arbiter := a.giveUp (Keyed.extract s.arbiter.pending p) cause } := by
    apply Std.ExtTreeMap.ext_getElem?
    intro x
    refine (hg x).trans ?_
    rw [getElem?_waiting, getElem?_waiting]
    simp only [Arbiter.giveUp, Keyed.getElem?_extract_snd]
    split
    · next hx =>
      obtain ⟨d, hd, hp⟩ := Keyed.mem_extract_fst.mp hx
      rw [hd, Option.filter_some, hp]
      rfl
    · next hx =>
      cases hd : s.arbiter.pending[x]? with
      | none => rfl
      | some d =>
          have hp : p x d = false := by
            cases hp : p x d with
            | false => rfl
            | true => exact absurd (Keyed.mem_extract_fst.mpr ⟨d, hd, hp⟩) hx
          rw [Option.filter_some, hp]
          rfl
  refine ⟨⟨_, ?_, ha, hw⟩, ?_⟩
  · rw [← hj]
    rfl
  · intro key x hx
    rw [← hw] at hx
    have hx' := (hg key).symm.trans hx
    split at hx'
    · cases hx'
    · exact hs key x hx'

theorem follows_setQuiet (s : Scene) (on : Bool) :
    s.Follows { s with arbiter := s.arbiter.setQuiet on } := by
  cases on with
  | false =>
      refine follows_of_same ?_ ?_ fun _ h => h
      · by_cases hq : s.arbiter.quiet = false <;> simp [Arbiter.setQuiet, hq]
      · unfold waiting
        rw [Arbiter.pending_setQuiet]
        rfl
  | true =>
      by_cases hq : s.arbiter.quiet = true
      · simp only [Arbiter.setQuiet, hq, if_true]
        exact follows_giveUp _ .quiet rfl
      · simp only [Arbiter.setQuiet, hq, if_true]
        exact follows_giveUp
          (a := { s.arbiter with quiet := true, groups := s.arbiter.groups.map fun _ _ => {} })
          _ .quiet rfl

/-! ### Operations -/

theorem follows_handleChange (s : Scene) (g : Grouping) (now : Nat) (kind : Kind) (c : Change) :
    s.Follows (s.handleChange g now kind c) := by
  unfold handleChange
  split
  · exact Follows.refl s
  · split
    · split
      · exact Follows.refl s
      · split
        · exact s.follows_forward g now _ kind
        · exact Follows.refl s
    · exact Follows.refl s

theorem follows_handleSuppression (s : Scene) (g : Grouping) (now : Nat) (group : String)
    (on : Bool) : s.Follows (s.handleSuppression g now group on) := by
  have hu : s.Follows (s.unschedule group) := follows_of_same rfl rfl fun _ h => h
  rcases s.handleSuppression_cases g now group on with ⟨he, -⟩ | ⟨summary, -, h⟩
  · rw [he]
    exact Follows.refl s
  · rcases h with ⟨-, kind, -, he⟩ | ⟨-, -, -, he⟩ | ⟨-, -, due, -, ⟨-, he⟩ | ⟨-, he⟩⟩
    · rw [he]
      exact s.follows_forward g now summary kind
    · rw [he]
      exact s.follows_handBack g now group
    · rw [he]
      exact hu
    · rw [he]
      exact hu.trans (follows_move _ summary due.source due.kind)

theorem follows_handleGroup (s : Scene) (g : Grouping) (now : Nat) (e : GroupEvent) :
    s.Follows (s.handleGroup g now e) := by
  cases e with
  | formed group => exact follows_of_same rfl rfl fun _ h => h
  | suppression group on => exact s.follows_handleSuppression g now group on
  | dissolved group => exact follows_of_same rfl rfl fun _ h => h

theorem follows_handleEvent (s : Scene) (g : Grouping) (now : Nat) (e : Event) :
    s.Follows (s.handleEvent g now e) := by
  cases e with
  | announced n =>
      have h : s.Follows { s with arbiter := s.arbiter.announce n } :=
        follows_of_same rfl rfl fun _ h => h
      simp only [handleEvent]
      split
      · exact h
      · exact h.trans (follows_handBack _ g now n.group)
  | added n => exact follows_of_same rfl rfl fun _ h => h
  | updated n previous =>
      have h : s.Follows { s with arbiter := s.arbiter.refresh n } :=
        follows_of_same rfl rfl fun _ h => h
      simp only [handleEvent]
      split
      · exact h
      · exact h.trans (follows_giveUp (a := s.arbiter.refresh n) _ .regrouped rfl)
  | removed n => exact follows_giveUp (a := s.arbiter.added n) _ .removed rfl
  | rendered n => exact s.follows_rendered n

/-- **Every operation keeps the journal**: what it writes tells how the moves that wait change. -/
theorem follows_perform (s : Scene) (g : Grouping) (now : Nat) (o : Operation) :
    s.Follows (s.perform g now o) := by
  cases o with
  | event e => exact s.follows_handleEvent g now e
  | groupEvent e => exact s.follows_handleGroup g now e
  | suppression group on => exact s.follows_handleSuppression g now group on
  | change kind c => exact s.follows_handleChange g now kind c
  | rendered n => exact s.follows_rendered n
  | removed n => exact follows_giveUp (a := s.arbiter.added n) _ .removed rfl
  | regrouped n => exact follows_giveUp (a := s.arbiter) _ .regrouped rfl
  | quiet on => exact s.follows_setQuiet on

theorem Leads.follows {s t : Scene} (h : s.Leads t) : s.Follows t := by
  refine h.keeps (P := fun t => s.Follows t) ?_ ?_ (Follows.refl s)
  · intro t g now o ht
    exact ht.trans (t.follows_perform g now o)
  · intro t ht
    refine ht.trans (follows_of_same rfl rfl ?_)
    intro k hk
    rw [Screen.presenter_read, Option.isSome_map, hk]

end Scene

/-! ### Runs -/

namespace Session

/-- The actions tell which moves wait in a scene, and every move that waits is served. -/
structure Told (past : List Action) (s : Scene) : Prop where
  ledger : Ledger.ofActions (past ++ s.arbiter.journal) = s.waiting
  admits : Ledger.Admits ∅ (past ++ s.arbiter.journal)
  served : s.Served

theorem told_create (settings : Settings) (clock : Clock) :
    Told [] (create settings clock).scene := by
  refine ⟨?_, trivial, ?_⟩
  · apply Std.ExtTreeMap.ext_getElem?
    intro x
    rw [Scene.getElem?_waiting]
    rfl
  · intro key x hx
    rw [Scene.getElem?_waiting] at hx
    cases hx

theorem Told.follows {past : List Action} {s t : Scene} (h : Told past s) (hf : s.Follows t) :
    Told past t := by
  obtain ⟨⟨actions, hj, ha, he⟩, hs⟩ := hf h.served
  have hfold : (past ++ s.arbiter.journal).foldl Ledger.enter ∅ = s.waiting := h.ledger
  refine ⟨?_, ?_, hs⟩
  · rw [hj, ← List.append_assoc, Ledger.ofActions, List.foldl_append, hfold, he]
  · rw [hj, ← List.append_assoc, Ledger.admits_append, hfold]
    exact ⟨h.admits, ha⟩

/-- A call of the host writes nothing; a presenter it replaces is replaced by another. -/
theorem follows_host (s : Scene) (c : HostCall) :
    s.Follows { s with screen := (s.screen.host c).1 } := by
  refine Scene.follows_of_same rfl rfl ?_
  intro k hk
  cases c with
  | register kind flag =>
      rw [Screen.host_register_fst]
      split
      · rfl
      · exact hk
  | raise kind n =>
      simp only [Screen.host, Screen.raise, Screen.presenter_callPresenter]
      split <;> simpa using hk
  | update kind key alert =>
      simp only [Screen.host, Screen.update, Screen.presenter_callPresenter]
      split <;> simpa using hk
  | dismiss kind key =>
      simp only [Screen.host, Screen.dismiss, Screen.presenter_callPresenter]
      split <;> simpa using hk
  | drain kind =>
      simp only [Screen.host, Screen.drain]
      split
      · exact hk
      · rw [Screen.presenter_setPresenter]
        split
        · rfl
        · exact hk
  | prepare row flag on => simpa [Screen.host, Screen.prepare] using hk

theorem told_step {past : List Action} {s : Session} (h : Told past s.scene) (r : Request) :
    Told (past ++ (s.step r).2.journal) (s.step r).1.scene := by
  cases r with
  | host c =>
      rw [show (s.step (.host c)).2.journal = [] from rfl, List.append_nil]
      exact h.follows (follows_host s.scene c)
  | advance micros =>
      rw [show (s.step (.advance micros)).2.journal = [] from rfl, List.append_nil]
      exact h
  | bind =>
      simp only [step, bind]
      split <;> (rw [show Reply.journal _ = [] from rfl, List.append_nil]; exact h)
  | send e =>
      simp only [step, send]
      split <;> (rw [show Reply.journal _ = [] from rfl, List.append_nil]; exact h)
  | close =>
      rw [show (s.step .close).2.journal = [] from rfl, List.append_nil]
      exact h
  | quiet on =>
      rw [show (s.step (.quiet on)).2.journal = [] from rfl, List.append_nil]
      exact h.follows (s.scene.follows_setQuiet on)
  | flush =>
      simp only [step]
      cases hr : s.roster with
      | none =>
          rw [flush_of_none hr, show Reply.journal _ = [] from rfl, List.append_nil]
          exact h
      | some roster =>
          rw [flush_of_some hr]
          obtain ⟨hl, ha, hs⟩ := h.follows (s.leads_flushed roster).follows
          refine ⟨?_, ?_, hs⟩
          · rw [List.append_nil]
            exact hl
          · rw [List.append_nil]
            exact ha

theorem told_run : ∀ {past : List Action} {s : Session}, Told past s.scene →
    ∀ rs : List Request, Told (past ++ s.reported rs) (s.run rs).scene
  | past, s, h, [] => by
      rw [show s.reported [] = [] from rfl, List.append_nil]
      exact h
  | past, s, h, r :: rs => by
      have h' := told_run (told_step h r) rs
      rw [List.append_assoc] at h'
      exact h'

end Session

/-- **The journal is complete.**  In every run of a new session, and at every point that the
operations of a flush lead to, the ledger of all actions written so far holds exactly the moves that
wait, with their sources and kinds; and an action that completes, reverses or voids a move closes
one that is open at that point. -/
theorem journal_tells_open_moves (settings : Settings) (clock : Clock) (rs : List Request) :
    let session := (Session.create settings clock).run rs
    let past := (Session.create settings clock).reported rs
    ∀ s : Scene, session.scene.Leads s →
      Ledger.ofActions (past ++ s.arbiter.journal) = s.waiting ∧
        ∀ before after a key, past ++ s.arbiter.journal = before ++ a :: after →
          a.closes = some key → key ∈ Ledger.ofActions before := by
  intro session past s hs
  have h : Session.Told past session.scene :=
    Session.told_run (Session.told_create settings clock) rs
  have ht := h.follows hs.follows
  refine ⟨ht.ledger, ?_⟩
  intro before after a key he hc
  have ha := ht.admits
  rw [he] at ha
  exact ha.mem hc

end AlertHandoff
