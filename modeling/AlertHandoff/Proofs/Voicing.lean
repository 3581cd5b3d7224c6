import AlertHandoff.Proofs.Promise

/-! # Every alert is written down

Whatever the arbiter does, it alerts at most once in one deed.  A deed is either mute (no call
gives an alert and nothing is written about one), or it takes some alerts down and then alerts for
one notice, whose content is ready, and writes down just that (`Scene.Voices`).  So the alerts that
the calls of a flush give are those its journal tells of, in the same order
(`alerts_are_written`). -/

namespace AlertHandoff

/-- The kind and the key for which a call alerts. -/
def Call.alert? : Call → Option (Kind × String)
  | .raise kind key | .update kind key _ => some (kind, key)
  | .dismiss .. | .request .. | .release .. => none

/-- The kind and the key for which an alert was given, according to an action. -/
def Action.alert? : Action → Option (Kind × String)
  | .moved _ target kind => some (kind, target)
  | .completed key kind => some (kind, key)
  | .deferred .. | .scheduled .. | .reversed .. | .voided .. => none

namespace Screen

/-- The screen with some alerts taken down, one after the other. -/
def lower (s : Screen) (downs : List (Kind × String)) : Screen :=
  downs.foldl (fun s x => s.dismiss x.1 x.2) s

theorem lower_append (s : Screen) (a b : List (Kind × String)) :
    s.lower (a ++ b) = (s.lower a).lower b :=
  List.foldl_append

/-- Alerting for a notice is one call: an update if its key is up already, and otherwise the alert
comes up. -/
theorem calls_alert {s : Screen} {kind : Kind} (h : (s.presenter kind).isSome = true) (n : Notice) :
    (s.alert kind n).calls =
      s.calls ++ [if s.isUp kind n.key then .update kind n.key true else .raise kind n.key] := by
  unfold alert
  split <;> simp [update, raise, calls_callPresenter, h]

end Screen

namespace Scene
variable {P Q : Notice → Prop} {s t u : Scene}

/-! ### Deeds that do not alert -/

/-- No call between the two scenes alerts, and nothing is written about an alert. -/
structure Mute (s t : Scene) : Prop where
  calls : ∃ made, t.screen.calls = s.screen.calls ++ made ∧ made.filterMap Call.alert? = []
  journal : ∃ actions, t.arbiter.journal = s.arbiter.journal ++ actions ∧
    actions.filterMap Action.alert? = []

theorem Mute.trans (h : s.Mute t) (h' : t.Mute u) : s.Mute u := by
  obtain ⟨⟨made, hm, hm'⟩, actions, ha, ha'⟩ := h
  obtain ⟨⟨more, hn, hn'⟩, others, hb, hb'⟩ := h'
  refine ⟨⟨made ++ more, ?_, ?_⟩, actions ++ others, ?_, ?_⟩
  · rw [hn, hm, List.append_assoc]
  · rw [List.filterMap_append, hm', hn', List.append_nil]
  · rw [hb, ha, List.append_assoc]
  · rw [List.filterMap_append, ha', hb', List.append_nil]

theorem mute_of_written (hc : t.screen.calls = s.screen.calls) {actions : List Action}
    (hj : t.arbiter.journal = s.arbiter.journal ++ actions)
    (ha : actions.filterMap Action.alert? = []) : s.Mute t :=
  ⟨⟨[], by rw [hc, List.append_nil], rfl⟩, actions, hj, ha⟩

/-- Some alerts are taken down, and nothing is written. -/
def Lowers (s t : Scene) : Prop :=
  ∃ downs, t.screen = s.screen.lower downs ∧ t.arbiter.journal = s.arbiter.journal

theorem Lowers.refl (s : Scene) : s.Lowers s := ⟨[], rfl, rfl⟩

theorem Lowers.trans (h : s.Lowers t) (h' : t.Lowers u) : s.Lowers u := by
  obtain ⟨a, ha, hj⟩ := h
  obtain ⟨b, hb, hj'⟩ := h'
  exact ⟨a ++ b, by rw [hb, ha, Screen.lower_append], hj'.trans hj⟩

theorem lowers_books (s : Scene) (a : Arbiter) (h : a.journal = s.arbiter.journal) :
    s.Lowers { s with arbiter := a } :=
  ⟨[], rfl, h⟩

theorem lowers_dismiss (s : Scene) (kind : Kind) (key : String) : s.Lowers (s.dismiss kind key) :=
  ⟨[(kind, key)], rfl, rfl⟩

theorem Lowers.mute (h : s.Lowers t) : s.Mute t := by
  obtain ⟨downs, hs, hj⟩ := h
  suffices hd : ∀ (downs : List (Kind × String)) (x : Screen),
      ∃ made, (x.lower downs).calls = x.calls ++ made ∧ made.filterMap Call.alert? = [] by
    refine ⟨?_, [], by rw [hj, List.append_nil], rfl⟩
    rw [hs]
    exact hd downs s.screen
  intro downs
  induction downs with
  | nil => exact fun x => ⟨[], (List.append_nil _).symm, rfl⟩
  | cons d downs ih =>
      intro x
      obtain ⟨made, hm, hm'⟩ := ih (x.dismiss d.1 d.2)
      refine ⟨(if (x.presenter d.1).isSome then [.dismiss d.1 d.2] else []) ++ made, ?_, ?_⟩
      · show ((x.dismiss d.1 d.2).lower downs).calls = _
        rw [hm, Screen.dismiss, Screen.calls_callPresenter, List.append_assoc]
      · rw [List.filterMap_append, hm']
        split <;> rfl

/-! ### Deeds that alert -/

/-- Some alerts are taken down, and with the screen as it is then, the kind alerts for the notice:
its content is ready, and it comes up unless it is up, in which case it is updated.  This is all
that is written, and no deferral to the notice is left. -/
structure Voices (s t : Scene) (n : Notice) (kind : Kind) : Prop where
  call : ∃ downs,
    t.screen = (s.screen.lower downs).alert kind n ∧
      t.screen.calls = (s.screen.lower downs).calls ++
        [if (s.screen.lower downs).isUp kind n.key then .update kind n.key true
          else .raise kind n.key] ∧
      ∃ p, (s.screen.lower downs).presenter kind = some p ∧
        (s.screen.lower downs).isReady n.row p.flag = true
  journal : ∃ a, t.arbiter.journal = s.arbiter.journal ++ [a] ∧ a.alert? = some (kind, n.key)
  settled : t.arbiter.pending[n.key]? = none

/-- A deed is mute or alerts for one notice with the property. -/
def Voiced (P : Notice → Prop) (s t : Scene) : Prop :=
  s.Mute t ∨ ∃ n kind, P n ∧ s.Voices t n kind

theorem Voiced.mono (h : Voiced P s t) (hpq : ∀ n, P n → Q n) : Voiced Q s t := by
  rcases h with h | ⟨n, kind, hn, h⟩
  · exact .inl h
  · exact .inr ⟨n, kind, hpq n hn, h⟩

/-- A delivery to a notice whose content is ready alerts for it. -/
theorem voices_deliver {n : Notice} {kind : Kind} (ho : u.outcome n kind = .shown) (h : s.Lowers u)
    (source : String) {a : Action} (ha : a.alert? = some (kind, n.key)) :
    s.Voices ((u.deliver n source kind).write [a]) n kind := by
  obtain ⟨p, hp, hready⟩ := isReady_of_shown ho
  obtain ⟨downs, hs, hj⟩ := h
  have hd := deliver_of_shown ho source
  rw [hs] at hp hready
  have hscreen : (u.deliver n source kind).screen = (s.screen.lower downs).alert kind n := by
    rw [hd, hs]
  refine ⟨⟨downs, hscreen, ?_, p, hp, hready⟩, ⟨a, ?_, ha⟩, ?_⟩
  · have hsome : ((s.screen.lower downs).presenter kind).isSome = true := by rw [hp]; rfl
    rw [← Screen.calls_alert hsome, ← hscreen]
    rfl
  · rw [hd, ← hj]
    rfl
  · rw [hd]
    simp [write, Arbiter.write, clearDeferral]

/-- What a delivery does, with what is written after it. -/
theorem voiced_deliver {n : Notice} {kind : Kind} (hn : u.outcome n kind = .shown → P n)
    (h : s.Lowers u) (source : String) {actions : List Action}
    (ha : if u.outcome n kind = .shown then ∃ a, actions = [a] ∧ a.alert? = some (kind, n.key)
      else actions.filterMap Action.alert? = []) :
    Voiced P s ((u.deliver n source kind).write actions) := by
  cases ho : u.outcome n kind with
  | unavailable =>
      rw [ho] at ha
      rw [deliver_of_unavailable ho]
      exact .inl (h.mute.trans (mute_of_written rfl rfl ha))
  | deferred =>
      rw [ho] at ha
      obtain ⟨p, -, hd⟩ := deliver_of_deferred ho source
      rw [hd]
      refine .inl (h.mute.trans ⟨?_, actions, rfl, ha⟩)
      simp only [write, defer]
      split
      · exact ⟨[.request n.row p.flag], rfl, rfl⟩
      · exact ⟨[], (List.append_nil _).symm, rfl⟩
  | shown =>
      rw [ho] at ha
      obtain ⟨a, rfl, ha⟩ := ha
      exact .inr ⟨n, kind, hn ho, voices_deliver ho h source ha⟩

theorem voiced_move {n : Notice} (hn : P n) (h : s.Lowers u) (source : String) (kind : Kind) :
    Voiced P s (u.move n source kind) := by
  refine voiced_deliver (fun _ => hn) h source ?_
  cases u.outcome n kind with
  | shown => exact ⟨_, rfl, rfl⟩
  | deferred | unavailable => rfl

theorem voices_move {n : Notice} {kind : Kind} (ho : u.outcome n kind = .shown) (h : s.Lowers u)
    (source : String) : s.Voices (u.move n source kind) n kind := by
  have ha : (Action.moved source n.key kind).alert? = some (kind, n.key) := rfl
  rw [move, ho]
  exact voices_deliver ho h source ha

theorem mute_move {n : Notice} {kind : Kind} (ho : u.outcome n kind ≠ .shown) (h : s.Lowers u)
    (source : String) : s.Mute (u.move n source kind) := by
  have hnone : ((u.outcome n kind).actions source n.key kind).filterMap Action.alert? = [] := by
    cases hu : u.outcome n kind with
    | shown => exact absurd hu ho
    | deferred | unavailable => rfl
  have hvoiced : Voiced (fun _ => False) s (u.move n source kind) :=
    voiced_deliver ho h source (by rwa [if_neg ho])
  rcases hvoiced with hm | ⟨_, _, hf, -⟩
  · exact hm
  · exact hf.elim

/-! ### Operations -/

theorem voiced_forward (s : Scene) (g : Grouping) (now : Nat) (summary : Notice) (kind : Kind) :
    Voiced (MayAlert g) s (s.forward g now summary kind) := by
  rcases s.forward_cases g now summary kind with ⟨he, -⟩ | ⟨child, hc, -, he⟩
  · rw [he]
    exact .inl (Lowers.refl s).mute
  · rw [he]
    have hmark : s.Lowers (s.markForward summary child kind now) := by
      unfold markForward
      split
      · exact s.lowers_books _ rfl
      · exact Lowers.refl s
    exact voiced_move (mayAlert_of_heir? hc) (hmark.trans (lowers_dismiss _ kind summary.key))
      summary.key kind

theorem lowers_takeAll (s : Scene) (children : List Notice) : s.Lowers (s.takeAll children).1 :=
  takeAll_keeps (I := fun t _ => s.Lowers t)
    (fun t _ kind child _ _ h => h.trans (lowers_dismiss t kind child.key))
    (fun t _ _ _ _ _ _ h => h.trans (t.lowers_books _ rfl)) (Lowers.refl s)

theorem voiced_restore {summary : Notice} (hn : P summary) (h : s.Lowers u) (g : Grouping)
    (group : String) (taken : Schedule) : Voiced P s (u.restore g group summary taken) := by
  have hmodify : ∀ f, u.Lowers (u.modifyRecord group f) := fun f => u.lowers_books _ rfl
  rcases u.restore_cases g group summary taken with ⟨-, he⟩ | ⟨-, -, he⟩ | ⟨-, -, he⟩
  · rw [he]
    exact .inl h.mute
  · rw [he]
    exact voiced_move hn (h.trans (hmodify _)) taken.source taken.kind
  · rw [he]
    exact .inl (h.mute.trans (mute_of_written rfl rfl rfl))

theorem voiced_handBack (h : s.Lowers u) (g : Grouping) (now : Nat) (group : String) :
    Voiced (MayAlert g) s (u.handBack g now group) := by
  rcases u.handBack_cases g now group with ⟨he, -⟩ | ⟨summary, hs, hmay, ⟨-, he⟩ | ⟨taken, -, he⟩⟩
  · rw [he]
    exact .inl h.mute
  · rw [he]
    exact .inl (h.trans (u.lowers_takeAll _)).mute
  · rw [he]
    exact voiced_restore (mayAlert_of_mayHandBack hs hmay) (h.trans (u.lowers_takeAll _)) g group
      taken

theorem mute_giveUp {a : Arbiter} (hj : a.journal = s.arbiter.journal)
    (split : List String × Deferrals) (cause : Cause) :
    s.Mute { s with arbiter := a.giveUp split cause } := by
  have hwritten : (a.giveUp split cause).journal =
      s.arbiter.journal ++ split.1.map (.voided · cause) := by
    rw [← hj]
    rfl
  refine mute_of_written rfl hwritten ?_
  rw [List.filterMap_map]
  exact List.filterMap_eq_nil_iff.mpr fun _ _ => rfl

/-- Drawn content alerts for nothing but the notice whose content it is, to complete the move that
waits for it. -/
theorem voiced_rendered (s : Scene) (n : Notice) :
    Voiced (fun m => m = n ∧ ∃ d, s.Completes n d [.completed n.key d.kind]) s (s.rendered n) := by
  have hclear : s.Lowers (s.clearDeferral n.key) := s.lowers_books _ rfl
  rcases s.rendered_cases n with ⟨-, he⟩ | ⟨d, hd, ⟨t, a, ht, ha, he⟩ | ⟨hf, hq, hu, he⟩⟩
  · rw [he]
    exact .inl (Lowers.refl s).mute
  · rw [he]
    have hmute : s.Mute t := by
      rcases ht with rfl | rfl
      · exact hclear.mute
      · refine hclear.mute.trans ?_
        unfold release
        split
        · exact (Lowers.refl _).mute
        · next p _ => exact ⟨⟨[.release n.row p.flag], rfl, rfl⟩, [], (List.append_nil _).symm, rfl⟩
    refine .inl (hmute.trans (mute_of_written rfl rfl ?_))
    rcases ha with rfl | ⟨cause, rfl⟩ <;> rfl
  · rw [he]
    have hcompletes : (s.clearDeferral n.key).outcome n d.kind = .shown →
        s.Completes n d [.completed n.key d.kind] := by
      intro ho
      simp only [Deferral.fits, Bool.and_eq_true, Membership.describes_iff] at hf
      exact ⟨hd, hf.1, hf.2.symm, hq, hu, isReady_of_shown ho, rfl⟩
    refine voiced_deliver (fun ho => ⟨rfl, d, hcompletes ho⟩) hclear d.source ?_
    split
    · exact ⟨_, rfl, rfl⟩
    · rfl

theorem voiced_handleChange (s : Scene) (g : Grouping) (now : Nat) (kind : Kind) (c : Change) :
    Voiced (MayAlert g) s (s.handleChange g now kind c) := by
  rcases s.handleChange_cases g now kind c with ⟨he, -⟩ | ⟨n, summary, -, -, -, he⟩
  · rw [he]
    exact .inl (Lowers.refl s).mute
  · rw [he]
    exact s.voiced_forward g now summary kind

theorem voiced_handleSuppression (s : Scene) (g : Grouping) (now : Nat) (group : String)
    (on : Bool) :
    Voiced (fun n => MayAlert g n ∨ on = false ∧ ∃ due, s.IsDue g group n due) s
      (s.handleSuppression g now group on) := by
  have hu : s.Lowers (s.unschedule group) := s.lowers_books _ rfl
  rcases s.handleSuppression_cases g now group on with ⟨he, -⟩ | ⟨summary, hs, h⟩
  · rw [he]
    exact .inl (Lowers.refl s).mute
  · rcases h with ⟨-, kind, -, he⟩ | ⟨-, -, -, he⟩ |
      ⟨hoff, hq, due, hdue, ⟨-, he⟩ | ⟨hdown, he⟩⟩
    · rw [he]
      exact (s.voiced_forward g now summary kind).mono fun _ h => .inl h
    · rw [he]
      exact (voiced_handBack (Lowers.refl s) g now group).mono fun _ h => .inl h
    · rw [he]
      exact .inl hu.mute
    · rw [he]
      exact voiced_move (.inr ⟨hoff, due, hs, hq, hdue, hdown⟩) hu due.source due.kind

theorem voiced_handleGroup (s : Scene) (g : Grouping) (now : Nat) (e : GroupEvent) :
    Voiced (fun n => MayAlert g n ∨ e = .suppression e.group false ∧ ∃ due,
      s.IsDue g e.group n due) s (s.handleGroup g now e) := by
  cases e with
  | formed group => exact .inl (s.lowers_books (s.arbiter.modifyRecord group id) rfl).mute
  | dissolved group =>
      exact .inl (s.lowers_books { s.arbiter with groups := s.arbiter.groups.erase group } rfl).mute
  | suppression group on =>
      refine (s.voiced_handleSuppression g now group on).mono ?_
      rintro n (h | ⟨rfl, h⟩)
      · exact .inl h
      · exact .inr ⟨rfl, h⟩

theorem voiced_handleEvent (s : Scene) (g : Grouping) (now : Nat) (e : Event) :
    Voiced (fun n => MayAlert g n ∨ e = .rendered n ∧
      ∃ d, s.Completes n d [.completed n.key d.kind]) s (s.handleEvent g now e) := by
  cases e with
  | rendered n =>
      refine (s.voiced_rendered n).mono ?_
      rintro m ⟨rfl, h⟩
      exact .inr ⟨rfl, h⟩
  | announced n =>
      have h : s.Lowers { s with arbiter := s.arbiter.announce n } := s.lowers_books _ rfl
      simp only [handleEvent]
      split
      · exact .inl h.mute
      · exact (voiced_handBack h g now n.group).mono fun _ h => .inl h
  | added n => exact .inl (s.lowers_books (s.arbiter.added n) rfl).mute
  | updated n previous =>
      simp only [handleEvent]
      split
      · exact .inl (s.lowers_books (s.arbiter.refresh n) rfl).mute
      · exact .inl (mute_giveUp (a := s.arbiter.refresh n) rfl _ .regrouped)
  | removed n => exact .inl (mute_giveUp (a := s.arbiter.added n) rfl _ .removed)

theorem mute_setQuiet (s : Scene) (on : Bool) :
    s.Mute { s with arbiter := s.arbiter.setQuiet on } := by
  by_cases hq : s.arbiter.quiet = on
  · cases on with
    | false =>
        simp only [Arbiter.setQuiet, hq, if_true]
        exact (Lowers.refl s).mute
    | true =>
        simp only [Arbiter.setQuiet, hq, if_true]
        exact mute_giveUp rfl _ .quiet
  · have hcleared := s.lowers_books
      { s.arbiter with quiet := on, groups := s.arbiter.groups.map fun _ _ => {} } rfl
    simp only [Arbiter.setQuiet, hq, if_false]
    split
    · exact hcleared.mute.trans (mute_giveUp rfl _ .quiet)
    · exact hcleared.mute

end Scene

/-- The notices for which a deed may alert: the one whose content was drawn, and those of the
groups it is done by. -/
def Deed.Concerns (d : Deed) (n : Notice) : Prop := d.drawn? = some n ∨ d.Names n

namespace Scene
variable {s t u : Scene}

/-- A deed of handling is mute, or it alerts once: for a notice that it elects, or for one whose
content has been drawn and completes the move that waited for it. -/
theorem voiced_elected (s : Scene) {d : Deed} (hd : d.isHandling = true) :
    Voiced (fun n => s.Elects d n ∨
      (d.drawn? = some n ∧ ∃ r, s.Completes n r [.completed n.key r.kind])) s (s.act d) := by
  cases d with
  | arrange screen | report => cases hd
  | read => exact .inl ⟨⟨[], (List.append_nil _).symm, rfl⟩, [], (List.append_nil _).symm, rfl⟩
  | perform g now o =>
      cases o with
      | event e =>
          refine (s.voiced_handleEvent g now e).mono ?_
          rintro n (h | ⟨rfl, h⟩)
          · exact .inl (elects_of_mayAlert _ h)
          · exact .inr ⟨rfl, h⟩
      | groupEvent e =>
          exact (s.voiced_handleGroup g now e).mono fun _ h => .inl (elects_handleGroup h)
      | suppression group on =>
          exact (s.voiced_handleSuppression g now group on).mono
            fun _ h => .inl (elects_handleSuppression h)
      | change kind c =>
          exact (s.voiced_handleChange g now kind c).mono fun _ h => .inl (elects_of_mayAlert _ h)
      | rendered n =>
          refine (s.voiced_rendered n).mono ?_
          rintro m ⟨rfl, h⟩
          exact .inr ⟨rfl, h⟩
      | removed n => exact .inl (mute_giveUp (a := s.arbiter.added n) rfl _ .removed)
      | regrouped n => exact .inl (mute_giveUp (a := s.arbiter) rfl _ .regrouped)
      | quiet on => cases hd

/-- **A deed of handling is mute, or alerts once and says so.** -/
theorem voiced_act (s : Scene) {d : Deed} (hd : d.isHandling = true) :
    Voiced d.Concerns s (s.act d) := by
  refine (s.voiced_elected hd).mono ?_
  rintro n (h | ⟨h, -⟩)
  · exact .inr h.names
  · exact .inl h

/-! ### Courses -/

/-- The alerts that the calls between the two scenes give are those of which the actions between
them tell, in the same order. -/
def Tallies (s t : Scene) : Prop :=
  ∃ made actions, t.screen.calls = s.screen.calls ++ made ∧
    t.arbiter.journal = s.arbiter.journal ++ actions ∧
    made.filterMap Call.alert? = actions.filterMap Action.alert?

theorem Tallies.trans (h : s.Tallies t) (h' : t.Tallies u) : s.Tallies u := by
  obtain ⟨made, actions, hm, ha, he⟩ := h
  obtain ⟨more, others, hn, hb, he'⟩ := h'
  refine ⟨made ++ more, actions ++ others, ?_, ?_, ?_⟩
  · rw [hn, hm, List.append_assoc]
  · rw [hb, ha, List.append_assoc]
  · rw [List.filterMap_append, List.filterMap_append, he, he']

theorem Voiced.tallies {P : Notice → Prop} (h : Voiced P s t) : s.Tallies t := by
  rcases h with h | ⟨n, kind, -, h⟩
  · obtain ⟨⟨made, hm, hm'⟩, actions, ha, ha'⟩ := h
    exact ⟨made, actions, hm, ha, hm'.trans ha'.symm⟩
  · obtain ⟨downs, -, hcalls, -⟩ := h.call
    obtain ⟨a, ha, ha'⟩ := h.journal
    have hlow : s.Lowers { s with screen := s.screen.lower downs } := ⟨downs, rfl, rfl⟩
    obtain ⟨made, hm, hm'⟩ := hlow.mute.calls
    refine ⟨_, [a], by rw [hcalls, hm, List.append_assoc], ha, ?_⟩
    rw [List.filterMap_append, hm', List.nil_append]
    split <;> simp [ha', Call.alert?]

theorem tallies_course : ∀ {ds : List Deed} {s : Scene}, (∀ d ∈ ds, d.isHandling = true) →
    s.Tallies (s.course ds)
  | [], _, _ => ⟨[], [], (List.append_nil _).symm, (List.append_nil _).symm, rfl⟩
  | d :: _, s, h =>
      (s.voiced_act (h d List.mem_cons_self)).tallies.trans
        (tallies_course fun x hx => h x (List.mem_cons_of_mem d hx))

end Scene

/-! ### Runs -/

namespace Session

/-- Between flushes the journal tells of no alert. -/
theorem unvoiced_step {s : Session} (h : s.scene.arbiter.journal.filterMap Action.alert? = [])
    (r : Request) : (s.step r).1.scene.arbiter.journal.filterMap Action.alert? = [] := by
  cases r with
  | host c | advance micros | close => exact h
  | bind =>
      simp only [step, bind]
      split <;> exact h
  | send e =>
      simp only [step, send]
      split <;> exact h
  | quiet on =>
      obtain ⟨actions, ha, ha'⟩ := (s.scene.mute_setQuiet on).journal
      show (s.scene.arbiter.setQuiet on).journal.filterMap Action.alert? = []
      rw [ha, List.filterMap_append, h, ha', List.append_nil]
  | flush =>
      simp only [step]
      cases hr : s.roster with
      | none =>
          rw [flush_of_none hr]
          exact h
      | some roster =>
          rw [flush_of_some hr]
          rfl

theorem unvoiced_run : ∀ {s : Session}, s.scene.arbiter.journal.filterMap Action.alert? = [] →
    ∀ rs : List Request, (s.run rs).scene.arbiter.journal.filterMap Action.alert? = []
  | _, h, [] => h
  | _, h, r :: rs => unvoiced_run (unvoiced_step h r) rs

end Session

/-- **Every alert is written down, once and in order.**  In every run of a new session: a flush is
refused, and does nothing, or it hands out the journal of its deeds.  Every deed is mute or alerts
for one notice, which is the one whose content was drawn or one of the groups; so the keys and kinds
for which the calls of the flush alert are those of the moves that the reply says were made or
completed.  An alert comes up exactly if its key was not up at the time of the call, and is updated
otherwise; the row of the notice is ready then, and no deferral to it is left. -/
theorem alerts_are_written (settings : Settings) (clock : Clock) (rs : List Request) :
    let s := (Session.create settings clock).run rs
    let t := s.scene.course s.deeds
    (s.step .flush).2 =
        (if s.roster.isSome then .actions t.arbiter.journal else .refused .notBound) ∧
      (s.step .flush).1.scene.screen = t.screen ∧
      s.scene.Throughout (fun u d => Scene.Voiced d.Concerns u (u.act d)) s.deeds ∧
      ∃ made, t.screen.calls = s.scene.screen.calls ++ made ∧
        made.filterMap Call.alert? = (s.step .flush).2.journal.filterMap Action.alert? := by
  intro s t
  have hunvoiced : s.scene.arbiter.journal.filterMap Action.alert? = [] :=
    Session.unvoiced_run (s := Session.create settings clock) rfl rs
  cases hr : s.roster with
  | none =>
      have hflush : s.step .flush = (s, .refused .notBound) := Session.flush_of_none hr
      have ht : t = s.scene := by
        show s.scene.course s.deeds = s.scene
        rw [Session.deeds_of_none hr]
        rfl
      rw [hflush, ht, Session.deeds_of_none hr]
      exact ⟨rfl, rfl, trivial, [], (List.append_nil _).symm, rfl⟩
  | some roster =>
      have hd := Session.does_deeds hr
      have ht : (s.flushed roster).2 = t := hd.course.symm
      have hflush : s.step .flush = _ := Session.flush_of_some hr
      obtain ⟨made, actions, hmade, hwritten, hsame⟩ := Scene.tallies_course hd.handling
      rw [hflush, ht]
      refine ⟨rfl, rfl, ?_, made, hmade, ?_⟩
      · exact Scene.throughout_of_mem fun u d hmem => u.voiced_act (hd.handling d hmem)
      · show _ = t.arbiter.journal.filterMap Action.alert?
        rw [hwritten, List.filterMap_append, hunvoiced, List.nil_append, hsame]

end AlertHandoff
