import AlertHandoff.Scene.Operation

/-! # What an operation can do

The operations of the arbiter branch on guards.  This module says once, for each of them, which
results are possible and under which guard: `arbiter_deliver` and `isUp_deliver` by the outcome of
the delivery, then `forward_cases`, `restore_cases`, `handBack_cases`, `rendered_cases` and
`handleSuppression_cases`; `mayForward_iff` and `mayHandBack_iff` say what the two guards ask.
`takeAll_keeps` is the induction over the children that alerts are taken from, and
`record_modifyRecord` and its neighbours give what is remembered of a group after each change of the
records.  Later proofs go through these statements and do not open the operations again. -/

namespace AlertHandoff

/-- The deferrals after an alert was handed over with a given outcome. -/
def Outcome.pending (o : Outcome) (ds : Deferrals) (n : Notice) (source : String) (kind : Kind) :
    Deferrals :=
  match o with
  | .shown => ds.erase n.key
  | .deferred => ds.insert n.key (Deferral.fresh n source kind)
  | .unavailable => ds

namespace Arbiter

/-! ### Quiet mode -/

theorem pending_setQuiet (a : Arbiter) (on : Bool) :
    (a.setQuiet on).pending = if on then a.pending.filter fun _ d => !d.isLive else a.pending := by
  by_cases hq : a.quiet = on <;> cases on <;>
    simp [setQuiet, giveUp, Deferrals.dropLive, Keyed.extract, hq]

theorem groups_setQuiet (a : Arbiter) (on : Bool) :
    (a.setQuiet on).groups =
      if a.quiet = on then a.groups else a.groups.map fun _ _ => {} := by
  by_cases hq : a.quiet = on <;> cases on <;> simp [setQuiet, giveUp, hq]

@[simp] theorem announced_setQuiet (a : Arbiter) (on : Bool) :
    (a.setQuiet on).announced = a.announced := by
  by_cases hq : a.quiet = on <;> cases on <;> simp [setQuiet, giveUp, hq]

@[simp] theorem settings_setQuiet (a : Arbiter) (on : Bool) :
    (a.setQuiet on).settings = a.settings := by
  by_cases hq : a.quiet = on <;> cases on <;> simp [setQuiet, giveUp, hq]

end Arbiter

namespace Scene

/-! ### Records -/

theorem record_of_groups {s t : Scene} (h : t.arbiter.groups = s.arbiter.groups) (x : String) :
    t.arbiter.record x = s.arbiter.record x := by
  simp only [Arbiter.record, h]

theorem record_modifyRecord (s : Scene) (group x : String) (f : GroupRecord → GroupRecord) :
    (s.modifyRecord group f).arbiter.record x =
      if x = group then f (s.arbiter.record x) else s.arbiter.record x := by
  simp only [Arbiter.record, modifyRecord, Arbiter.getElem?_groups_modifyRecord]
  split
  · next hx =>
    subst hx
    rfl
  · rfl

theorem record_unschedule (s : Scene) (group x : String) :
    (s.unschedule group).arbiter.record x =
      if x = group then { s.arbiter.record x with schedule := none } else s.arbiter.record x := by
  by_cases hx : x = group
  · subst hx
    simp only [Arbiter.record, unschedule, Std.ExtTreeMap.getElem?_modify_self, if_true]
    cases s.arbiter.groups[x]? <;> rfl
  · simp [Arbiter.record, unschedule, Std.ExtTreeMap.getElem?_modify, hx, Ne.symm hx]

theorem record_dissolved (s : Scene) (g : Grouping) (now : Nat) (group x : String) :
    (s.handleGroup g now (.dissolved group)).arbiter.record x =
      if x = group then {} else s.arbiter.record x := by
  by_cases hx : x = group
  · simp [Arbiter.record, handleGroup, hx]
  · simp [Arbiter.record, handleGroup, Std.ExtTreeMap.getElem?_erase, hx, Ne.symm hx]

theorem record_setQuiet {s : Scene} {on : Bool} (hon : s.arbiter.quiet ≠ on) (x : String) :
    (s.arbiter.setQuiet on).record x = {} := by
  simp only [Arbiter.record, Arbiter.groups_setQuiet, if_neg hon, Std.ExtTreeMap.getElem?_map]
  cases s.arbiter.groups[x]? <;> rfl

theorem getElem?_pending_clearDeferral {s : Scene} {key x : String} {d : Deferral}
    (hd : (s.clearDeferral key).arbiter.pending[x]? = some d) :
    s.arbiter.pending[x]? = some d := by
  simp only [clearDeferral, Std.ExtTreeMap.getElem?_erase] at hd
  split at hd
  · cases hd
  · exact hd

/-! ### Delivering an alert -/

theorem deliver_of_deferred {s : Scene} {n : Notice} {kind : Kind}
    (h : s.outcome n kind = .deferred) (source : String) :
    ∃ p, s.screen.presenter kind = some p ∧
      s.deliver n source kind = s.defer n source kind p.flag := by
  unfold outcome at h
  cases hp : s.screen.presenter kind with
  | none => simp [hp] at h
  | some p =>
      refine ⟨p, rfl, ?_⟩
      by_cases hr : s.screen.isReady n.row p.flag <;> simp_all [deliver]

theorem missing_of_deferred {s : Scene} {n : Notice} {kind : Kind}
    (h : s.outcome n kind = .deferred) :
    ∃ p, s.screen.presenter kind = some p ∧ s.screen.isReady n.row p.flag = false := by
  unfold outcome at h
  split at h
  · cases h
  · next p hp =>
    split at h
    · cases h
    · next hr => exact ⟨p, hp, by simpa using hr⟩

theorem presenter_of_outcome {s : Scene} {n : Notice} {kind : Kind}
    (h : s.outcome n kind ≠ .unavailable) : (s.screen.presenter kind).isSome = true := by
  rw [Ne, outcome_eq_unavailable_iff] at h
  exact Option.isSome_iff_ne_none.mpr h

theorem arbiter_deliver (s : Scene) (n : Notice) (source : String) (kind : Kind) :
    (s.deliver n source kind).arbiter =
      { s.arbiter with
        pending := (s.outcome n kind).pending s.arbiter.pending n source kind } := by
  cases h : s.outcome n kind with
  | shown => rw [deliver_of_shown h]; rfl
  | unavailable => rw [deliver_of_unavailable h]; rfl
  | deferred =>
      obtain ⟨p, -, hd⟩ := deliver_of_deferred h source
      rw [hd]
      rfl

/-- Handing an alert over brings up the destination if its content is ready, and nothing else. -/
theorem isUp_deliver (s : Scene) (n : Notice) (source : String) (kind k : Kind) (key : String) :
    (s.deliver n source kind).screen.isUp k key =
      (s.screen.isUp k key || (k == kind && key == n.key && s.outcome n kind == .shown)) := by
  cases h : s.outcome n kind with
  | shown =>
      have hne : s.outcome n kind ≠ .unavailable := by
        rw [h]
        decide
      have hp := presenter_of_outcome hne
      rw [deliver_of_shown h, Screen.isUp_alert]
      by_cases hk : k = kind
      · subst hk
        simp [hp]
      · simp [beq_false_of_ne hk]
  | unavailable => simp [deliver_of_unavailable h]
  | deferred =>
      obtain ⟨p, -, hd⟩ := deliver_of_deferred h source
      have hu : (s.defer n source kind p.flag).screen.isUp k key = s.screen.isUp k key := by
        simp only [defer]
        split <;> rfl
      simp [hd, hu]

theorem isSome_presenter_deliver (s : Scene) (n : Notice) (source : String) (kind k : Kind) :
    ((s.deliver n source kind).screen.presenter k).isSome = (s.screen.presenter k).isSome := by
  cases h : s.outcome n kind with
  | shown =>
      rw [deliver_of_shown h]
      simp only [Screen.alert]
      split <;> simp only [Screen.update, Screen.raise, Screen.presenter_callPresenter] <;>
        split <;> simp
  | unavailable => rw [deliver_of_unavailable h]
  | deferred =>
      obtain ⟨p, -, hd⟩ := deliver_of_deferred h source
      rw [hd]
      simp only [defer]
      split <;> rfl

theorem journal_move {s : Scene} {kind : Kind} (h : (s.screen.presenter kind).isSome = true)
    (n : Notice) (source : String) :
    (s.move n source kind).arbiter.journal =
        s.arbiter.journal ++ [.moved source n.key kind] ∨
      (s.move n source kind).arbiter.journal =
        s.arbiter.journal ++ [.deferred source n.key kind] := by
  rw [move, write, Arbiter.journal_write, arbiter_deliver]
  cases ho : s.outcome n kind with
  | shown => exact .inl rfl
  | deferred => exact .inr rfl
  | unavailable =>
      rw [outcome_eq_unavailable_iff] at ho
      simp [ho] at h

/-! ### Moving an alert on and taking it back -/

theorem screen_markForward (s : Scene) (summary child : Notice) (kind : Kind) (now : Nat) :
    (s.markForward summary child kind now).screen = s.screen := by
  unfold markForward
  split <;> rfl

theorem arbiter_markForward (s : Scene) (summary child : Notice) (kind : Kind) (now : Nat) :
    (s.markForward summary child kind now).arbiter = { s.arbiter with
      groups := (if summary.policy.summaryOnly = true ∧ s.screen.isUp kind child.key = false then
        s.arbiter.groups.insert summary.group
          { s.arbiter.record summary.group with lastForward := some now }
      else s.arbiter.groups) } := by
  by_cases h : summary.policy.summaryOnly = true ∧ s.screen.isUp kind child.key = false
  · simp [markForward, h.1, h.2, modifyRecord, Arbiter.modifyRecord]
  · have hmark : s.markForward summary child kind now = s := by
      unfold markForward
      rw [if_neg (by simpa using h)]
    rw [hmark, if_neg h]

theorem mayForward_iff {s : Scene} {g : Grouping} {summary : Notice} {kind : Kind} :
    s.mayForward g summary kind = true ↔
      s.arbiter.quiet = false ∧ g.suppressed summary.group = true ∧
        s.screen.isUp kind summary.key = true ∧
        s.arbiter.joining summary.group (g.children summary.group) = [] := by
  simp [mayForward, and_assoc]

theorem mayHandBack_iff {s : Scene} {g : Grouping} {now : Nat} {group : String}
    {summary : Notice} :
    s.mayHandBack g now group summary = true ↔
      s.arbiter.quiet = false ∧ summary.policy.summaryOnly = true ∧
        (s.arbiter.record group).mayReturn s.arbiter.settings.window now = true ∧
        1 < s.expected g group := by
  simp [mayHandBack, and_assoc]

/-- Either nothing is moved on, or the guard holds and the alert of the summary goes to the
heir. -/
theorem forward_cases (s : Scene) (g : Grouping) (now : Nat) (summary : Notice) (kind : Kind) :
    (s.forward g now summary kind = s ∧
        (s.mayForward g summary kind = true → heir? g summary.group = none)) ∨
      ∃ child, heir? g summary.group = some child ∧ s.mayForward g summary kind = true ∧
        s.forward g now summary kind =
          ((s.markForward summary child kind now).dismiss kind summary.key).move child
            summary.key kind := by
  unfold forward
  split
  · next hg =>
    cases hc : heir? g summary.group with
    | none => exact .inl ⟨rfl, fun _ => rfl⟩
    | some child => exact .inr ⟨child, rfl, hg, rfl⟩
  · next hg => exact .inl ⟨rfl, fun h => absurd h hg⟩

def turnBack (s : Scene) (key : String) : Scene :=
  { s with arbiter :=
      { s.arbiter with pending := Deferrals.mark s.arbiter.pending key true } }

theorem pending_turnBack (s : Scene) (key k : String) :
    (s.turnBack key).arbiter.pending[k]? =
      if key = k then s.arbiter.pending[k]?.map fun d => { d with isReversed := true }
      else s.arbiter.pending[k]? := by
  by_cases hk : key = k
  · subst hk
    simp [turnBack, Deferrals.mark]
  · simp [turnBack, Deferrals.mark, Std.ExtTreeMap.getElem?_modify, hk]

theorem takeAlert_cases (child : Notice) (s : Scene) (taken : Option Schedule) :
    takeAlert child s taken = (s, taken) ∨
      ∃ kind, s.screen.kindUp? child.key = some kind ∧
        takeAlert child s taken = (s.dismiss kind child.key, some ⟨kind, child.key⟩) := by
  unfold takeAlert
  split
  · split
    · exact .inl rfl
    · next kind hk => exact .inr ⟨kind, hk, rfl⟩
  · exact .inl rfl

theorem takeDeferral_cases (child : Notice) (s : Scene) (taken : Option Schedule) :
    takeDeferral child s taken = (s, taken) ∨
      ∃ d, s.arbiter.pending[child.key]? = some d ∧ d.isLive = true ∧
        takeDeferral child s taken = (s.turnBack child.key, some ⟨d.kind, child.key⟩) := by
  unfold takeDeferral
  split
  · exact .inl rfl
  · next d hd =>
    split
    · next hl => exact .inr ⟨d, hd, hl, rfl⟩
    · exact .inl rfl

/-- What is kept when one alert of a child is dismissed, and when one move to a child is taken back,
is kept when alerts are taken from all the children. -/
theorem takeAll_keeps {I : Scene → Option Schedule → Prop} {children : List Notice}
    (hdismiss : ∀ s taken kind, ∀ child ∈ children, s.screen.kindUp? child.key = some kind →
      I s taken → I (s.dismiss kind child.key) (some ⟨kind, child.key⟩))
    (hturn : ∀ s taken d, ∀ child ∈ children, s.arbiter.pending[child.key]? = some d →
      d.isLive = true → I s taken → I (s.turnBack child.key) (some ⟨d.kind, child.key⟩))
    {s : Scene} (h : I s none) : I (s.takeAll children).1 (s.takeAll children).2 := by
  have hfrom : ∀ acc : Scene × Option Schedule, I acc.1 acc.2 → ∀ child ∈ children,
      I (takeFrom acc child).1 (takeFrom acc child).2 := by
    rintro ⟨t, taken⟩ ht child hc
    have halert : I (takeAlert child t taken).1 (takeAlert child t taken).2 := by
      rcases takeAlert_cases child t taken with he | ⟨kind, hk, he⟩
      · rw [he]
        exact ht
      · rw [he]
        exact hdismiss t taken kind child hc hk ht
    unfold takeFrom
    generalize takeAlert child t taken = acc at halert ⊢
    rcases takeDeferral_cases child acc.1 acc.2 with he | ⟨d, hd, hl, he⟩
    · rw [he]
      exact halert
    · rw [he]
      exact hturn acc.1 acc.2 d child hc hd hl halert
  exact List.foldlRecOn (motive := fun acc => I acc.1 acc.2) (b := (s, none)) children takeFrom h
    hfrom

/-- What was taken from the children is left alone, given to the summary, or scheduled for it. -/
theorem restore_cases (s : Scene) (g : Grouping) (group : String) (summary : Notice)
    (taken : Schedule) :
    (s.screen.isUp taken.kind summary.key = true ∧ s.restore g group summary taken = s) ∨
      (s.screen.isUp taken.kind summary.key = false ∧ 1 < (g.children group).length ∧
        s.restore g group summary taken =
          (s.modifyRecord group fun r => { r with lastForward := none }).move summary taken.source
            taken.kind) ∨
      (s.screen.isUp taken.kind summary.key = false ∧ (g.children group).length ≤ 1 ∧
        s.restore g group summary taken =
          (s.modifyRecord group fun _ => { lastForward := none, schedule := some taken }).write
            [.scheduled group taken.kind]) := by
  unfold restore
  split
  · next hu => exact .inl ⟨hu, rfl⟩
  · next hu =>
    have hu : s.screen.isUp taken.kind summary.key = false := by simpa using hu
    split
    · next hl => exact .inr (.inl ⟨hu, hl, rfl⟩)
    · next hl => exact .inr (.inr ⟨hu, Nat.le_of_not_lt hl, rfl⟩)

/-- Either the guard fails or nothing was taken, and nothing changes but what the taking did; or
something was taken and is restored. -/
theorem handBack_cases (s : Scene) (g : Grouping) (now : Nat) (group : String) :
    (s.handBack g now group = s ∧ ∀ summary, g.summary group = some summary →
        s.mayHandBack g now group summary = false) ∨
      ∃ summary, g.summary group = some summary ∧ s.mayHandBack g now group summary = true ∧
        ((s.takeAll (g.children group)).2 = none ∧
            s.handBack g now group = (s.takeAll (g.children group)).1 ∨
          ∃ taken, (s.takeAll (g.children group)).2 = some taken ∧
            s.handBack g now group =
              (s.takeAll (g.children group)).1.restore g group summary taken) := by
  unfold handBack
  cases hs : g.summary group with
  | none => exact .inl ⟨rfl, by simp⟩
  | some summary =>
      dsimp only
      split
      · next hg =>
        refine .inr ⟨summary, rfl, hg, ?_⟩
        rcases s.takeAll (g.children group) with ⟨t, _ | taken⟩
        · exact .inl ⟨rfl, rfl⟩
        · exact .inr ⟨taken, rfl, rfl⟩
      · next hg => exact .inl ⟨rfl, fun n hn => by cases hn; simpa using hg⟩

/-- A reported change moves nothing on, or it is that the current summary of a suppressed group came
up. -/
theorem handleChange_cases (s : Scene) (g : Grouping) (now : Nat) (kind : Kind) (c : Change) :
    (s.handleChange g now kind c = s ∧ ∀ n summary, c = .raised n → n.isHead = true →
        g.suppressed n.group = true → g.summary n.group = some summary → summary.key ≠ n.key) ∨
      ∃ n summary, c = .raised n ∧ g.summary n.group = some summary ∧ summary.key = n.key ∧
        s.handleChange g now kind c = s.forward g now summary kind := by
  cases c with
  | dismissed key => exact .inl ⟨rfl, by simp⟩
  | raised n =>
      unfold handleChange
      dsimp only
      split
      · cases hs : g.summary n.group with
        | none =>
            refine .inl ⟨rfl, ?_⟩
            intro m summary hm _ _ hsum
            cases hm
            rw [hs] at hsum
            cases hsum
        | some summary =>
            by_cases hk : summary.key = n.key
            · exact .inr ⟨n, summary, rfl, hs, hk, if_pos hk⟩
            · refine .inl ⟨if_neg hk, ?_⟩
              intro m summary' hm _ _ hsum
              cases hm
              rw [hs] at hsum
              cases hsum
              exact hk
      · next hg =>
        refine .inl ⟨rfl, ?_⟩
        intro m summary hm hhead hsup
        cases hm
        simp [hhead, hsup] at hg

/-! ### Content that has been drawn -/

@[simp] theorem arbiter_release (s : Scene) (n : Notice) (kind : Kind) :
    (s.release n kind).arbiter = s.arbiter := by
  unfold release
  split <;> rfl

/-- Drawn content is nobody's concern, or ends the move that waited for it without an alert, or
carries that move out. -/
theorem rendered_cases (s : Scene) (n : Notice) :
    (s.arbiter.pending[n.key]? = none ∧ s.rendered n = s) ∨
      ∃ d, s.arbiter.pending[n.key]? = some d ∧
        ((∃ t a, (t = s.clearDeferral n.key ∨ t = (s.clearDeferral n.key).release n d.kind) ∧
            (a = .reversed n.key ∨ ∃ cause, a = .voided n.key cause) ∧
            s.rendered n = t.write [a]) ∨
          (d.fits n = true ∧ s.arbiter.quiet = false ∧ s.screen.isUp d.kind d.source = false ∧
            s.rendered n = (s.clearDeferral n.key).complete n d)) := by
  unfold rendered
  cases hd : s.arbiter.pending[n.key]? with
  | none => exact .inl ⟨rfl, rfl⟩
  | some d =>
      refine .inr ⟨d, rfl, ?_⟩
      dsimp only
      split
      · exact .inl ⟨_, _, .inr rfl, .inl rfl, rfl⟩
      · split
        · exact .inl ⟨_, _, .inr rfl, .inr ⟨_, rfl⟩, rfl⟩
        · next hf =>
          split
          · exact .inl ⟨_, _, .inl rfl, .inr ⟨_, rfl⟩, rfl⟩
          · next hq =>
            split
            · exact .inl ⟨_, _, .inr rfl, .inr ⟨_, rfl⟩, rfl⟩
            · next hu =>
              refine .inr ⟨by simpa using hf, ?_, ?_, rfl⟩
              · simpa [clearDeferral] using hq
              · simpa [clearDeferral] using hu

theorem rendered_of_fits {s : Scene} {n : Notice} {d : Deferral}
    (hd : s.arbiter.pending[n.key]? = some d) (hf : d.fits n = true)
    (hq : s.arbiter.quiet = false) (hu : s.screen.isUp d.kind d.source = false) :
    s.rendered n = (s.clearDeferral n.key).complete n d := by
  have hlive : d.isReversed = false := by
    have hf := hf
    simp only [Deferral.fits, Bool.and_eq_true] at hf
    simpa [Deferral.isLive] using hf.1
  have hquiet : (s.clearDeferral n.key).arbiter.quiet = false := hq
  have hdown : (s.clearDeferral n.key).screen.isUp d.kind d.source = false := hu
  simp [rendered, hd, hlive, hf, hquiet, hdown]

/-! ### A change of suppression -/

/-- A change of suppression changes nothing, moves an alert of the summary on, takes alerts back,
or brings the scheduled alert of the summary. -/
theorem handleSuppression_cases (s : Scene) (g : Grouping) (now : Nat) (group : String)
    (on : Bool) :
    (s.handleSuppression g now group on = s ∧ ∀ summary, g.summary group = some summary →
        (on = true ∧ s.screen.kindUp? summary.key = none) ∨
          (on = false ∧ s.arbiter.quiet = true)) ∨
      ∃ summary, g.summary group = some summary ∧
        ((on = true ∧ ∃ kind, s.screen.kindUp? summary.key = some kind ∧
            s.handleSuppression g now group on = s.forward g now summary kind) ∨
          (on = false ∧ s.arbiter.quiet = false ∧ (s.arbiter.record group).schedule = none ∧
            s.handleSuppression g now group on = s.handBack g now group) ∨
          (on = false ∧ s.arbiter.quiet = false ∧ ∃ due,
            (s.arbiter.record group).schedule = some due ∧
            ((s.screen.isUp due.kind summary.key = true ∧
                s.handleSuppression g now group on = s.unschedule group) ∨
              (s.screen.isUp due.kind summary.key = false ∧
                s.handleSuppression g now group on =
                  (s.unschedule group).move summary due.source due.kind)))) := by
  unfold handleSuppression
  cases hs : g.summary group with
  | none => exact .inl ⟨rfl, by simp⟩
  | some summary =>
      dsimp only
      cases on with
      | true =>
          cases hk : s.screen.kindUp? summary.key with
          | none => exact .inl ⟨rfl, fun n hn => by cases hn; exact .inl ⟨rfl, hk⟩⟩
          | some kind => exact .inr ⟨summary, rfl, .inl ⟨rfl, kind, hk, rfl⟩⟩
      | false =>
          cases hq : s.arbiter.quiet with
          | true => exact .inl ⟨rfl, fun _ _ => .inr ⟨rfl, rfl⟩⟩
          | false =>
              refine .inr ⟨summary, rfl, .inr ?_⟩
              cases hd : (s.arbiter.record group).schedule with
              | none => exact .inl ⟨rfl, rfl, rfl, rfl⟩
              | some due =>
                  refine .inr ⟨rfl, rfl, due, rfl, ?_⟩
                  cases hu : s.screen.isUp due.kind summary.key with
                  | true => exact .inl ⟨rfl, by simp [unschedule, hu]⟩
                  | false => exact .inr ⟨rfl, by simp [unschedule, hu]⟩

end Scene
end AlertHandoff
