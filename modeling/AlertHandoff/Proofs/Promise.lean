import AlertHandoff.Proofs.Cast
import AlertHandoff.Proofs.Stillness

/-! # A move that was put off is completed only if nothing voided it

A live deferral is a promise.  What an operation does to promises, `Scene.Tells` says: each that is
live afterwards was live before and nothing is written about its key, or it is new, and that it was
made is all that is written.  So every live deferral goes back to the deed that made it, and since
then it stood on record as it was made (`Scene.Promised`): nothing was written about its key, quiet
mode was off, and neither its source nor its destination was removed or given another place.

Only drawn content completes a move, and it does so under guards (`Scene.Completes`).  Together this
is `completed_moves_were_promised`. -/

namespace AlertHandoff

/-- The key to which an alert goes or is to go, or whose waiting move is at an end. -/
def Action.target? : Action → Option String
  | .moved _ target _ | .deferred _ target _ => some target
  | .completed key _ | .reversed key | .voided key _ => some key
  | .scheduled .. => none

/-- The action says that a move which was put off was carried out. -/
def Action.isCompletion : Action → Bool
  | .completed .. => true
  | .moved .. | .deferred .. | .scheduled .. | .reversed .. | .voided .. => false

namespace Deed

/-- The key whose moves are void from then on: its notice was removed, or has another place. -/
def voids? : Deed → Option String
  | .perform _ _ (.event (.removed n)) | .perform _ _ (.removed n)
  | .perform _ _ (.regrouped n) => some n.key
  | .perform _ _ (.event (.updated n previous)) =>
    if previous = n.membership then none else some n.key
  | .perform .. | .read | .arrange _ | .report => none

/-- The groups by which the deed is done have the notice as a summary or a child. -/
def Names (d : Deed) (n : Notice) : Prop :=
  ∃ g now o group, d = .perform g now o ∧ Scene.Member g group n

end Deed

namespace Scene
variable {P Q : Notice → Prop} {s t u : Scene}

/-- What is written between the two scenes tells how the live deferrals differ: one that is live in
the end was live before and nothing is written about its key, or it is a fresh one to a notice with
the property and that it was made is all that is written. -/
def Tells (P : Notice → Prop) (s t : Scene) (actions : List Action) : Prop :=
  ∀ (key : String) d, t.arbiter.pending[key]? = some d → d.isLive = true →
    (s.arbiter.pending[key]? = some d ∧ ∀ a ∈ actions, a.target? ≠ some key) ∨
      (actions = [.deferred d.source key d.kind] ∧
        ∃ n, P n ∧ n.key = key ∧ d = Deferral.fresh n d.source d.kind)

/-- The journal tells how the live deferrals differ, and completes no move. -/
def Accounts (P : Notice → Prop) (s t : Scene) : Prop :=
  ∃ actions, t.arbiter.journal = s.arbiter.journal ++ actions ∧
    (∀ a ∈ actions, a.isCompletion = false) ∧ Tells P s t actions

/-- Nothing is written and no deferral becomes live. -/
def Silent (s t : Scene) : Prop :=
  t.arbiter.journal = s.arbiter.journal ∧
    ∀ (key : String) d, t.arbiter.pending[key]? = some d → d.isLive = true →
      s.arbiter.pending[key]? = some d

theorem Silent.refl (s : Scene) : s.Silent s := ⟨rfl, fun _ _ h _ => h⟩

theorem Silent.accounts (h : s.Silent t) (P : Notice → Prop) : Accounts P s t :=
  ⟨[], by rw [h.1, List.append_nil], by simp, fun key d hd hl => .inl ⟨h.2 key d hd hl, by simp⟩⟩

theorem Silent.accounts_trans (h : s.Silent t) (h' : Accounts P t u) : Accounts P s u := by
  obtain ⟨actions, hj, hc, ht⟩ := h'
  refine ⟨actions, by rw [hj, h.1], hc, fun key d hd hl => ?_⟩
  rcases ht key d hd hl with ⟨hd, ha⟩ | hnew
  · exact .inl ⟨h.2 key d hd hl, ha⟩
  · exact .inr hnew

theorem Tells.mono {actions : List Action} (h : Tells P s t actions) (hpq : ∀ n, P n → Q n) :
    Tells Q s t actions := fun key d hd hl =>
  (h key d hd hl).imp_right fun ⟨ha, n, hn, hrest⟩ => ⟨ha, n, hpq n hn, hrest⟩

theorem Accounts.mono (h : Accounts P s t) (hpq : ∀ n, P n → Q n) : Accounts Q s t := by
  obtain ⟨actions, hj, hc, ht⟩ := h
  exact ⟨actions, hj, hc, ht.mono hpq⟩

theorem silent_of_within (hj : t.arbiter.journal = s.arbiter.journal)
    (hw : Within (fun _ => False) s t) : s.Silent t := by
  refine ⟨hj, fun key d hd hl => ?_⟩
  rcases hw.live key d hd hl with hd | ⟨_, hno, -⟩
  · exact hd
  · exact hno.elim

/-! ### Deliveries -/

/-- Of a delivery, the journal of a move tells what became of the deferrals. -/
theorem tells_deliver {n : Notice} (hn : P n) (s : Scene) (source : String) (kind : Kind) :
    Tells P s (s.deliver n source kind)
      ((s.outcome n kind).actions source n.key kind) := by
  intro key d hd hl
  rw [arbiter_deliver] at hd
  cases ho : s.outcome n kind with
  | unavailable =>
      rw [ho] at hd
      exact .inl ⟨hd, by simp [Outcome.actions]⟩
  | shown =>
      rw [ho] at hd
      simp only [Outcome.pending, Std.ExtTreeMap.getElem?_erase] at hd
      split at hd
      · cases hd
      · next hne => exact .inl ⟨hd, by simpa [Outcome.actions, Action.target?] using hne⟩
  | deferred =>
      rw [ho] at hd
      simp only [Outcome.pending, Std.ExtTreeMap.getElem?_insert] at hd
      split at hd
      · next he =>
        cases hd
        obtain rfl := Std.LawfulEqCmp.eq_of_compare he
        exact .inr ⟨rfl, n, hn, rfl, rfl⟩
      · next hne => exact .inl ⟨hd, by simpa [Outcome.actions, Action.target?] using hne⟩

theorem accounts_move {n : Notice} (hn : P n) (s : Scene) (source : String) (kind : Kind) :
    Accounts P s (s.move n source kind) := by
  refine ⟨(s.outcome n kind).actions source n.key kind, ?_, ?_, tells_deliver hn s source kind⟩
  · simp [move, write, arbiter_deliver]
  · cases s.outcome n kind <;> simp [Outcome.actions, Action.isCompletion]

/-! ### Moving an alert on and taking it back -/

/-- The groups have the notice as a summary or a child, and it may alert. -/
def MayAlert (g : Grouping) (n : Notice) : Prop :=
  (∃ group, Member g group n) ∧ n.policy.canAlert = true

theorem mayAlert_of_heir? {g : Grouping} {group : String} {child : Notice}
    (h : heir? g group = some child) : MayAlert g child := by
  obtain ⟨hmem, hvia⟩ := mem_children_of_heir? h
  exact ⟨⟨group, .inr hmem⟩, Policy.canAlert_of_viaSummary hvia⟩

theorem mayAlert_of_mayHandBack {g : Grouping} {now : Nat} {group : String} {summary : Notice}
    (hs : g.summary group = some summary) (h : s.mayHandBack g now group summary = true) :
    MayAlert g summary := by
  have honly := (mayHandBack_iff.mp h).2.1
  exact ⟨⟨group, .inl hs⟩, Policy.canAlert_of_viaSummary (Policy.viaSummary_of_summaryOnly honly)⟩

theorem accounts_forward (s : Scene) (g : Grouping) (now : Nat) (summary : Notice) (kind : Kind) :
    Accounts (MayAlert g) s (s.forward g now summary kind) := by
  rcases s.forward_cases g now summary kind with ⟨he, -⟩ | ⟨child, hc, -, he⟩
  · rw [he]
    exact (Silent.refl s).accounts _
  · rw [he]
    have hmark : (s.markForward summary child kind now).arbiter.journal = s.arbiter.journal := by
      rw [arbiter_markForward]
    have hw : Within (fun _ => False) s
        ((s.markForward summary child kind now).dismiss kind summary.key) :=
      (within_markForward _ s summary child kind now).trans (within_dismiss _ _ kind summary.key)
    exact (silent_of_within (t := (s.markForward summary child kind now).dismiss kind summary.key)
      hmark hw).accounts_trans (accounts_move (mayAlert_of_heir? hc) _ summary.key kind)

theorem journal_takeAll (s : Scene) (children : List Notice) :
    (s.takeAll children).1.arbiter.journal = s.arbiter.journal :=
  takeAll_keeps (I := fun t _ => t.arbiter.journal = s.arbiter.journal)
    (fun _ _ _ _ _ _ h => h) (fun _ _ _ _ _ _ _ h => h) rfl

theorem silent_takeAll (s : Scene) (children : List Notice) :
    s.Silent (s.takeAll children).1 :=
  silent_of_within (s.journal_takeAll children) (within_takeAll _ s children)

theorem silent_modifyRecord (s : Scene) (group : String) (f : GroupRecord → GroupRecord) :
    s.Silent (s.modifyRecord group f) := ⟨rfl, fun _ _ h _ => h⟩

theorem accounts_restore {summary : Notice} (hn : P summary) (s : Scene) (g : Grouping)
    (group : String) (taken : Schedule) : Accounts P s (s.restore g group summary taken) := by
  rcases s.restore_cases g group summary taken with ⟨-, he⟩ | ⟨-, -, he⟩ | ⟨-, -, he⟩
  · rw [he]
    exact (Silent.refl s).accounts P
  · rw [he]
    exact (s.silent_modifyRecord group _).accounts_trans
      (accounts_move hn _ taken.source taken.kind)
  · rw [he]
    refine ⟨[.scheduled group taken.kind], rfl, by simp [Action.isCompletion], ?_⟩
    exact fun key d hd _ => .inl ⟨hd, by simp [Action.target?]⟩

theorem accounts_handBack (s : Scene) (g : Grouping) (now : Nat) (group : String) :
    Accounts (MayAlert g) s (s.handBack g now group) := by
  rcases s.handBack_cases g now group with ⟨he, -⟩ | ⟨summary, hs, hmay, ⟨-, he⟩ | ⟨taken, -, he⟩⟩
  · rw [he]
    exact (Silent.refl s).accounts _
  · rw [he]
    exact (s.silent_takeAll _).accounts _
  · rw [he]
    exact (s.silent_takeAll _).accounts_trans
      (accounts_restore (mayAlert_of_mayHandBack hs hmay) _ g group taken)

/-! ### Giving moves up -/

theorem accounts_giveUp {a : Arbiter} (hj : a.journal = s.arbiter.journal)
    (p : String → Deferral → Bool) (cause : Cause) (P : Notice → Prop) :
    Accounts P s
      { s with arbiter := a.giveUp (Keyed.extract s.arbiter.pending p) cause } := by
  refine ⟨(Keyed.extract s.arbiter.pending p).1.map (.voided · cause), ?_, ?_, ?_⟩
  · rw [← hj]
    rfl
  · simp [Action.isCompletion]
  · intro key d hd _
    simp only [Arbiter.giveUp, Keyed.getElem?_extract_snd, Option.filter_eq_some_iff] at hd
    refine .inl ⟨hd.1, ?_⟩
    intro a ha hk
    obtain ⟨k, hmem, rfl⟩ := List.mem_map.mp ha
    cases hk
    obtain ⟨d', hd', hp⟩ := Keyed.mem_extract_fst.mp hmem
    rw [hd.1] at hd'
    cases hd'
    simp [hp] at hd

theorem accounts_setQuiet (s : Scene) (on : Bool) (P : Notice → Prop) :
    Accounts P s { s with arbiter := s.arbiter.setQuiet on } := by
  cases on with
  | false =>
      refine Silent.accounts ⟨?_, fun key d hd _ => ?_⟩ P
      · by_cases hq : s.arbiter.quiet = false <;> simp [Arbiter.setQuiet, hq]
      · rw [Arbiter.pending_setQuiet] at hd
        exact hd
  | true =>
      by_cases hq : s.arbiter.quiet = true
      · simp only [Arbiter.setQuiet, hq, if_true]
        exact accounts_giveUp rfl _ .quiet P
      · simp only [Arbiter.setQuiet, hq, if_true]
        exact accounts_giveUp
          (a := { s.arbiter with quiet := true, groups := s.arbiter.groups.map fun _ _ => {} })
          rfl _ .quiet P

/-! ### Drawn content -/

/-- The move that waited for the content of a notice is carried out: quiet mode is off, its source
is down, the notice has the place it had when the move was put off, and its content is ready. -/
structure Completes (s : Scene) (n : Notice) (d : Deferral) (actions : List Action) : Prop where
  pending : s.arbiter.pending[n.key]? = some d
  live : d.isLive = true
  place : n.membership = d.membership
  quiet : s.arbiter.quiet = false
  down : s.screen.isUp d.kind d.source = false
  ready : ∃ p, s.screen.presenter d.kind = some p ∧ s.screen.isReady n.row p.flag = true
  written : actions = [.completed n.key d.kind]

theorem isReady_of_shown {n : Notice} {kind : Kind} (h : s.outcome n kind = .shown) :
    ∃ p, s.screen.presenter kind = some p ∧ s.screen.isReady n.row p.flag = true := by
  unfold outcome at h
  split at h
  · cases h
  · next p hp =>
    split at h
    · next hr => exact ⟨p, hp, hr⟩
    · cases h

/-- A deferral made once more for the same notice is the one there was. -/
theorem fresh_of_fits {n : Notice} {d : Deferral} (h : d.fits n = true) :
    Deferral.fresh n d.source d.kind = d := by
  obtain ⟨source, kind, membership, isReversed⟩ := d
  simp only [Deferral.fits, Deferral.isLive, Bool.and_eq_true, Bool.not_eq_true',
    Membership.describes_iff] at h
  obtain ⟨rfl, rfl⟩ := h
  rfl

/-- A move whose content is still missing waits on unchanged; one that is carried out is written
down as complete. -/
theorem accounts_complete {n : Notice} {d : Deferral} (hd : s.arbiter.pending[n.key]? = some d)
    (hf : d.fits n = true) (hq : s.arbiter.quiet = false)
    (hu : s.screen.isUp d.kind d.source = false) (P : Notice → Prop) :
    ∃ actions,
      ((s.clearDeferral n.key).complete n d).arbiter.journal = s.arbiter.journal ++ actions ∧
      Tells P s ((s.clearDeferral n.key).complete n d) actions ∧
      ∀ a ∈ actions, a.isCompletion = true → s.Completes n d actions := by
  have hfits := hf
  simp only [Deferral.fits, Bool.and_eq_true, Membership.describes_iff] at hf
  have hlive : ∀ (key : String) d', ((s.clearDeferral n.key).complete n d).arbiter.pending[key]? =
      some d' → ((s.clearDeferral n.key).outcome n d.kind = .shown → key ≠ n.key) ∧
        s.arbiter.pending[key]? = some d' := by
    intro key d' hd'
    have hp : ((s.clearDeferral n.key).outcome n d.kind).pending (s.arbiter.pending.erase n.key) n
        d.source d.kind = ((s.clearDeferral n.key).complete n d).arbiter.pending := by
      rw [complete, write, arbiter_deliver]
      rfl
    rw [← hp] at hd'
    by_cases hk : key = n.key
    · subst hk
      cases ho : (s.clearDeferral n.key).outcome n d.kind with
      | shown | unavailable => simp [ho, Outcome.pending] at hd'
      | deferred =>
          refine ⟨by simp, ?_⟩
          simp only [ho, Outcome.pending, fresh_of_fits hfits,
            Std.ExtTreeMap.getElem?_insert_self] at hd'
          rw [hd, hd']
    · refine ⟨fun _ => hk, ?_⟩
      have hne : ¬n.key = key := Ne.symm hk
      cases ho : (s.clearDeferral n.key).outcome n d.kind <;>
        simpa [ho, Outcome.pending, Std.ExtTreeMap.getElem?_erase,
          Std.ExtTreeMap.getElem?_insert, hne] using hd'
  refine ⟨if (s.clearDeferral n.key).outcome n d.kind = .shown then [.completed n.key d.kind]
    else [], ?_, ?_, ?_⟩
  · simp [complete, write, arbiter_deliver, clearDeferral]
  · intro key d' hd' _
    obtain ⟨hne, hold⟩ := hlive key d' hd'
    refine .inl ⟨hold, ?_⟩
    split
    · next ho => simpa [Action.target?] using (hne ho).symm
    · simp
  · intro a ha hc
    split at ha
    · next ho =>
      rw [if_pos ho]
      exact ⟨hd, hf.1, hf.2.symm, hq, hu, isReady_of_shown ho, rfl⟩
    · cases ha

/-- Drawn content ends the move that waited for it, or leaves it waiting. -/
theorem accounts_rendered (s : Scene) (n : Notice) (P : Notice → Prop) :
    ∃ actions, (s.rendered n).arbiter.journal = s.arbiter.journal ++ actions ∧
      Tells P s (s.rendered n) actions ∧
      ∀ a ∈ actions, a.isCompletion = true → ∃ d, s.Completes n d actions := by
  rcases s.rendered_cases n with ⟨-, he⟩ | ⟨d, hd, ⟨t, a, ht, ha, he⟩ | ⟨hf, hq, hu, he⟩⟩
  · rw [he]
    exact ⟨[], (List.append_nil _).symm, fun key d hd _ => .inl ⟨hd, by simp⟩, by simp⟩
  · have hbooks : t.arbiter = (s.clearDeferral n.key).arbiter := by
      rcases ht with rfl | rfl
      · rfl
      · exact arbiter_release _ n d.kind
    have htarget : a.target? = some n.key ∧ a.isCompletion = false := by
      rcases ha with rfl | ⟨cause, rfl⟩ <;> exact ⟨rfl, rfl⟩
    rw [he]
    refine ⟨[a], ?_, ?_, by simp [htarget.2]⟩
    · simp [write, hbooks, clearDeferral]
    · intro key d' hd' _
      simp only [write, Arbiter.write, hbooks, clearDeferral, Std.ExtTreeMap.getElem?_erase] at hd'
      split at hd'
      · cases hd'
      · next hne => exact .inl ⟨hd', by simpa [htarget.1] using hne⟩
  · rw [he]
    obtain ⟨actions, hj, ht, hc⟩ := accounts_complete hd hf hq hu P
    exact ⟨actions, hj, ht, fun a ha hcomp => ⟨d, hc a ha hcomp⟩⟩

/-! ### Operations -/

/-- The suppression of the group has ended, and the alert that was scheduled for its summary is to
come up. -/
structure IsDue (s : Scene) (g : Grouping) (group : String) (n : Notice) (due : Schedule) :
    Prop where
  summary : g.summary group = some n
  quiet : s.arbiter.quiet = false
  schedule : (s.arbiter.record group).schedule = some due
  down : s.screen.isUp due.kind n.key = false

theorem accounts_handleChange (s : Scene) (g : Grouping) (now : Nat) (kind : Kind) (c : Change) :
    Accounts (MayAlert g) s (s.handleChange g now kind c) := by
  rcases s.handleChange_cases g now kind c with ⟨he, -⟩ | ⟨n, summary, -, -, -, he⟩
  · rw [he]
    exact (Silent.refl s).accounts _
  · rw [he]
    exact s.accounts_forward g now summary kind

theorem accounts_handleSuppression (s : Scene) (g : Grouping) (now : Nat) (group : String)
    (on : Bool) :
    Accounts (fun n => MayAlert g n ∨ on = false ∧ ∃ due, s.IsDue g group n due) s
      (s.handleSuppression g now group on) := by
  have hu : s.Silent (s.unschedule group) := ⟨rfl, fun _ _ h _ => h⟩
  rcases s.handleSuppression_cases g now group on with ⟨he, -⟩ | ⟨summary, hs, h⟩
  · rw [he]
    exact (Silent.refl s).accounts _
  · rcases h with ⟨-, kind, -, he⟩ | ⟨-, -, -, he⟩ |
      ⟨hoff, hq, due, hdue, ⟨-, he⟩ | ⟨hdown, he⟩⟩
    · rw [he]
      exact (s.accounts_forward g now summary kind).mono fun _ => .inl
    · rw [he]
      exact (s.accounts_handBack g now group).mono fun _ => .inl
    · rw [he]
      exact hu.accounts _
    · rw [he]
      exact hu.accounts_trans
        (accounts_move (.inr ⟨hoff, due, hs, hq, hdue, hdown⟩) _ due.source due.kind)

theorem accounts_handleGroup (s : Scene) (g : Grouping) (now : Nat) (e : GroupEvent) :
    Accounts (fun n => MayAlert g n ∨ e = .suppression e.group false ∧
      ∃ due, s.IsDue g e.group n due) s (s.handleGroup g now e) := by
  cases e with
  | formed group => exact (s.silent_modifyRecord group id).accounts _
  | suppression group on =>
      refine (s.accounts_handleSuppression g now group on).mono ?_
      rintro n (h | ⟨rfl, h⟩)
      · exact .inl h
      · exact .inr ⟨rfl, h⟩
  | dissolved group => exact Silent.accounts ⟨rfl, fun _ _ h _ => h⟩ _

theorem accounts_handleEvent (s : Scene) (g : Grouping) (now : Nat) {e : Event}
    (he : ∀ n, e ≠ .rendered n) : Accounts (MayAlert g) s (s.handleEvent g now e) := by
  cases e with
  | rendered n => exact absurd rfl (he n)
  | announced n =>
      have h : s.Silent { s with arbiter := s.arbiter.announce n } := ⟨rfl, fun _ _ h _ => h⟩
      simp only [handleEvent]
      split
      · exact h.accounts _
      · exact h.accounts_trans (accounts_handBack _ g now n.group)
  | added n => exact Silent.accounts ⟨rfl, fun _ _ h _ => h⟩ _
  | updated n previous =>
      simp only [handleEvent]
      split
      · exact Silent.accounts ⟨rfl, fun _ _ h _ => h⟩ _
      · exact accounts_giveUp (a := s.arbiter.refresh n) rfl _ .regrouped _
  | removed n => exact accounts_giveUp (a := s.arbiter.added n) rfl _ .removed _

/-- The first scene completes a move by the deed, as its content has been drawn. -/
def CompletesBy (s : Scene) (d : Deed) : Prop :=
  ∃ n r, d.drawn? = some n ∧ s.Completes n r (s.written d)

/-- By the deed it falls due that the alert comes up which was scheduled for the summary of the
group. -/
def FallsDue (s : Scene) (d : Deed) (group : String) (n : Notice) (due : Schedule) : Prop :=
  ∃ g now o, d = .perform g now o ∧
    (o = .groupEvent (.suppression group false) ∨ o = .suppression group false) ∧
    s.IsDue g group n due

/-- The deed may decide that an alert goes to the notice: it is one of its groups and may alert, or
a summary whose scheduled alert falls due. -/
def Elects (s : Scene) (d : Deed) (n : Notice) : Prop :=
  (d.Names n ∧ n.policy.canAlert = true) ∨ ∃ group due, s.FallsDue d group n due

theorem Elects.names {d : Deed} {n : Notice} (h : s.Elects d n) : d.Names n := by
  rcases h with ⟨h, -⟩ | ⟨group, due, g, now, o, rfl, -, h⟩
  · exact h
  · exact ⟨g, now, o, group, rfl, .inl h.summary⟩

section elects
variable {g : Grouping} {now : Nat} {n : Notice}

theorem elects_of_mayAlert (o : Operation) (h : MayAlert g n) : s.Elects (.perform g now o) n :=
  h.1.elim fun group hn => .inl ⟨⟨g, now, o, group, rfl, hn⟩, h.2⟩

theorem elects_handleSuppression {group : String} {on : Bool}
    (h : MayAlert g n ∨ on = false ∧ ∃ due, s.IsDue g group n due) :
    s.Elects (.perform g now (.suppression group on)) n := by
  rcases h with h | ⟨rfl, due, h⟩
  · exact elects_of_mayAlert _ h
  · exact .inr ⟨group, due, g, now, _, rfl, .inr rfl, h⟩

theorem elects_handleGroup {e : GroupEvent}
    (h : MayAlert g n ∨ e = .suppression e.group false ∧ ∃ due, s.IsDue g e.group n due) :
    s.Elects (.perform g now (.groupEvent e)) n := by
  rcases h with h | ⟨he, due, h⟩
  · exact elects_of_mayAlert _ h
  · exact .inr ⟨e.group, due, g, now, _, rfl, .inl (congrArg Operation.groupEvent he), h⟩

end elects

/-- What a deed writes tells what it does to promises, and which notices it may elect; a deed
completes a move only by drawn content. -/
theorem tells_elected (s : Scene) (d : Deed) :
    Tells (s.Elects d) s (s.act d) (s.written d) ∧
      ∀ a ∈ s.written d, a.isCompletion = true → s.CompletesBy d := by
  have hordinary : Accounts (s.Elects d) s (s.act d) →
      Tells (s.Elects d) s (s.act d) (s.written d) ∧
        ∀ a ∈ s.written d, a.isCompletion = true → s.CompletesBy d := by
    rintro ⟨actions, hj, hc, ht⟩
    rw [written_of_journal hj]
    refine ⟨ht, fun a ha hcomp => ?_⟩
    rw [hc a ha] at hcomp
    cases hcomp
  have hdrawn : ∀ n, d.drawn? = some n → s.act d = s.rendered n →
      Tells (s.Elects d) s (s.act d) (s.written d) ∧
        ∀ a ∈ s.written d, a.isCompletion = true → s.CompletesBy d := by
    intro n hn he
    obtain ⟨actions, hj, ht, hc⟩ := s.accounts_rendered n (s.Elects d)
    rw [← he] at hj ht
    have hw := written_of_journal hj
    unfold CompletesBy
    rw [hw]
    refine ⟨ht, fun a ha hcomp => ?_⟩
    obtain ⟨r, hr⟩ := hc a ha hcomp
    exact ⟨n, r, hn, hr⟩
  cases d with
  | read | arrange screen => exact hordinary (Silent.accounts ⟨rfl, fun _ _ h _ => h⟩ _)
  | report =>
      have hw : s.written .report = [] := by simp [written, act]
      rw [hw]
      exact ⟨fun key d hd _ => .inl ⟨hd, by simp⟩, by simp⟩
  | perform g now o =>
      cases o with
      | event e =>
          by_cases he : ∃ n, e = .rendered n
          · obtain ⟨n, rfl⟩ := he
            exact hdrawn n rfl rfl
          · have h := s.accounts_handleEvent g now fun n hn => he ⟨n, hn⟩
            exact hordinary (h.mono fun _ => elects_of_mayAlert _)
      | groupEvent e =>
          exact hordinary ((s.accounts_handleGroup g now e).mono fun _ => elects_handleGroup)
      | suppression group on =>
          exact hordinary ((s.accounts_handleSuppression g now group on).mono
            fun _ => elects_handleSuppression)
      | change kind c =>
          exact hordinary ((s.accounts_handleChange g now kind c).mono
            fun _ => elects_of_mayAlert _)
      | rendered n => exact hdrawn n rfl rfl
      | removed n => exact hordinary (accounts_giveUp (a := s.arbiter.added n) rfl _ .removed _)
      | regrouped n => exact hordinary (accounts_giveUp (a := s.arbiter) rfl _ .regrouped _)
      | quiet on => exact hordinary (s.accounts_setQuiet on _)

/-- **What a deed writes tells what it does to promises**, and a deed completes a move only by drawn
content. -/
theorem tells_act (s : Scene) (d : Deed) :
    Tells d.Names s (s.act d) (s.written d) ∧
      ∀ a ∈ s.written d, a.isCompletion = true → s.CompletesBy d :=
  (s.tells_elected d).imp_left fun h => h.mono fun _ => Elects.names

theorem not_named_of_voids {d : Deed} {k key : String} {r : Deferral} (hv : d.voids? = some k)
    (hr : (s.act d).arbiter.pending[key]? = some r) : k ≠ key ∧ k ≠ r.source := by
  have hdrop : ∀ {n : Notice}, (Deferrals.dropNaming s.arbiter.pending n.key).2[key]? = some r →
      n.key ≠ key ∧ n.key ≠ r.source := by
    intro n hn
    simp only [Deferrals.dropNaming, Keyed.getElem?_extract_snd, Option.filter_eq_some_iff,
      Bool.not_eq_true', Bool.or_eq_false_iff, beq_eq_false_iff_ne] at hn
    exact ⟨Ne.symm hn.2.1, Ne.symm hn.2.2⟩
  cases d with
  | read | arrange screen | report => cases hv
  | perform g now o =>
      cases o with
      | groupEvent | suppression | change | rendered | quiet => cases hv
      | removed n | regrouped n =>
          cases hv
          exact hdrop hr
      | event e =>
          cases e with
          | announced | added | rendered => cases hv
          | removed n =>
              cases hv
              exact hdrop hr
          | updated n previous =>
              simp only [Deed.voids?] at hv
              split at hv
              · cases hv
              · next hp =>
                cases hv
                rw [← Membership.describes_iff] at hp
                simp only [act, perform, handleEvent, hp, Bool.false_eq_true, if_false] at hr
                exact hdrop hr

/-! ### Promises over a course -/

/-- The deed leaves alone the promise to the key: the deferral stands on record as it was made,
quiet mode is off, nothing is written about the key, and neither end of the move is removed or given
another place. -/
structure Undisturbed (key : String) (r : Deferral) (s : Scene) (d : Deed) : Prop where
  quiet : s.arbiter.quiet = false
  kept : s.arbiter.pending[key]? = some r
  unwritten : ∀ a ∈ s.written d, a.target? ≠ some key
  stays : d.voids? ≠ some key ∧ d.voids? ≠ some r.source

/-- One of the deeds put the move off, for a notice of the groups it was done by, and wrote only
this; the deeds since then left the promise alone. -/
def Promised (s : Scene) (ds : List Deed) (key : String) (r : Deferral) : Prop :=
  ∃ before opening between n, ds = before ++ opening :: between ∧ opening.Names n ∧ n.key = key ∧
    r = Deferral.fresh n r.source r.kind ∧
    (s.course before).written opening = [.deferred r.source key r.kind] ∧
    Throughout (Undisturbed key r) (s.course (before ++ [opening])) between

theorem Promised.concat {ds : List Deed} {key : String} {r : Deferral} (h : s.Promised ds key r)
    {d : Deed} (hd : Undisturbed key r (s.course ds) d) : s.Promised (ds ++ [d]) key r := by
  obtain ⟨before, opening, between, n, rfl, hn, hk, hr, hw, ht⟩ := h
  refine ⟨before, opening, between ++ [d], n, by simp, hn, hk, hr, hw, ?_⟩
  rw [throughout_concat, ← course_append]
  refine ⟨ht, ?_⟩
  rw [List.append_assoc]
  exact hd

/-- Every live deferral is a promise that nothing disturbed. -/
def KeepsPromises (s : Scene) (ds : List Deed) : Prop :=
  ∀ (key : String) r, (s.course ds).arbiter.pending[key]? = some r → r.isLive = true →
    s.Promised ds key r

/-- One deed more: a deferral that is live afterwards was live before and is left alone, or it is
made by this deed. -/
theorem KeepsPromises.concat {ds : List Deed} (hs : s.Settled) (h : s.KeepsPromises ds) (d : Deed) :
    s.KeepsPromises (ds ++ [d]) := by
  intro key r hr hl
  rw [course_concat] at hr
  rcases (tells_act (s.course ds) d).1 key r hr hl with ⟨hold, hw⟩ | ⟨hw, n, hn, hk, hfresh⟩
  · refine (h key r hold hl).concat ⟨?_, hold, hw, ?_, ?_⟩
    · rw [← Bool.not_eq_true]
      intro hq
      rw [(settled_course ds hs hq).reversed key r hold] at hl
      cases hl
    · exact fun hv => (not_named_of_voids hv hr).1 rfl
    · exact fun hv => (not_named_of_voids hv hr).2 rfl
  · exact ⟨ds, d, [], n, rfl, hn, hk, hfresh, hw, trivial⟩

theorem KeepsPromises.append (hs : s.Settled) : ∀ (ds : List Deed) {past : List Deed},
    s.KeepsPromises past → s.KeepsPromises (past ++ ds)
  | [], past, h => by rwa [List.append_nil]
  | d :: ds, past, h => by
      have hrest := KeepsPromises.append hs ds (h.concat hs d)
      rwa [List.append_assoc] at hrest

/-- In every course that starts with no live deferral promises are kept. -/
theorem promised_course (hs : s.Settled) (hno : ∀ (key : String) r,
    s.arbiter.pending[key]? = some r → r.isLive = false) (ds : List Deed) :
    s.KeepsPromises ds := by
  have hstart : s.KeepsPromises [] := by
    intro key r hr hl
    rw [hno key r hr] at hl
    cases hl
  exact hstart.append hs ds

end Scene

/-- **A move that was put off is completed only if nothing voided it.**  In every course that starts
with fresh books, with whatever groups and whatever its owner does to the screen: a deed that writes
that the move of a kind to a key is complete writes nothing else, and an earlier deed wrote that
this move was put off, from some source to a notice of that key which the groups had at that time.
Since then nothing was written about the key, quiet mode was off, neither source nor destination
was removed or given another place, and the deferral stood on record as it was made, so it was not
taken back.  Content was drawn for a notice of that key with the place it had when the move was put
off; and at that moment quiet mode is off, the source is not alerting on the kind, and the row of
the notice is ready for what the kind's presenter needs. -/
theorem completed_moves_were_promised (settings : Settings) (screen : Screen) :
    let s : Scene := { arbiter := { settings }, screen }
    ∀ (past : List Deed) (last : Deed) (key : String) (kind : Kind),
      .completed key kind ∈ (s.course past).written last →
        (s.course past).written last = [.completed key kind] ∧
        ∃ before opening between source target,
          past = before ++ opening :: between ∧
          (s.course before).written opening = [.deferred source key kind] ∧
          opening.Names target ∧ target.key = key ∧
          Scene.Throughout (Scene.Undisturbed key (Deferral.fresh target source kind))
            (s.course (before ++ [opening])) between ∧
          (s.course past).arbiter.pending[key]? = some (Deferral.fresh target source kind) ∧
          (s.course past).arbiter.quiet = false ∧
          (s.course past).screen.isUp kind source = false ∧
          ∃ n, last.drawn? = some n ∧ n.key = key ∧ n.membership = target.membership ∧
            ∃ p, (s.course past).screen.presenter kind = some p ∧
              (s.course past).screen.isReady n.row p.flag = true := by
  intro s past last key kind hmem
  obtain ⟨n, r, hn, h⟩ := ((s.course past).tells_act last).2 _ hmem rfl
  have hwritten := h.written
  rw [hwritten, List.mem_singleton] at hmem
  cases hmem
  have hnone : ∀ (key : String) r, s.arbiter.pending[key]? = some r → r.isLive = false := by
    intro key r hr
    simp [s] at hr
  obtain ⟨before, opening, between, target, hpast, hnames, hkey, hfresh, hopen, hthrough⟩ :=
    Scene.promised_course (Scene.settled_fresh settings screen) hnone past _ r h.pending h.live
  have hplace : n.membership = target.membership := by
    rw [h.place, hfresh]
    rfl
  have hpending := h.pending
  rw [hfresh] at hthrough hpending
  exact ⟨hwritten, before, opening, between, r.source, target, hpast, hopen, hnames, hkey, hthrough,
    hpending, h.quiet, h.down, n, hn, rfl, hplace, h.ready⟩

/-- The alert of `s` goes to its only child `c`, whose content is missing; then the content is
there. -/
def suspense : List Deed :=
  let summary := Cast.troupe.notice "s"
  let g := Grouping.empty.assign "g" true (some summary) [Cast.troupe.notice "c"]
  let screen : Screen := ({} : Screen).register .headsUp 4
  [.arrange (screen.raise .headsUp summary), .perform g 0 (.suppression "g" true),
    .arrange (screen.prepare "c" 4 true)]

theorem suspense_ends :
    let s := ({} : Scene).course suspense
    let last := Deed.perform .empty 0 (.event (.rendered (Cast.troupe.notice "c")))
    .completed "c" .headsUp ∈ s.written last ∧
      ∃ before opening between source, suspense = before ++ opening :: between ∧
        (({} : Scene).course before).written opening = [.deferred source "c" .headsUp] := by
  intro s last
  have hmem : .completed "c" .headsUp ∈ s.written last := by decide +kernel
  obtain ⟨-, before, opening, between, source, target, hpast, hopen, -⟩ :=
    completed_moves_were_promised {} {} suspense last "c" .headsUp hmem
  exact ⟨hmem, before, opening, between, source, hpast, hopen⟩

end AlertHandoff
