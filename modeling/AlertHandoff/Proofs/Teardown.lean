import AlertHandoff.Proofs.History
import AlertHandoff.Proofs.Stands
import AlertHandoff.Proofs.Voicing

/-! # When the content of an alert is taken down

Content that has been drawn for a move which is not to be carried out is taken down again.  That
would spoil an alert if the destination is up on the kind of the move: it is *exposed*
(`Scene.Exposed`).  A delivery never leads to this, since the alert that comes up settles what
waited for its key, and what is taken back to a summary is guarded.  A key becomes exposed only
when it is overtaken (`Scene.Overtakes`): the host raises its alert while a move of that kind waits
for its content, or a move is put off to it although it is up.

`Scene.Shelters` is what all operations keep.  `torn_down_alerts_were_overtaken` says of every
course that content is taken down under an alert only if its key was overtaken and is exposed since
then; that it happens, `content_of_alerts_is_torn_down` says of two runs. -/

namespace AlertHandoff
namespace Scene
variable {s t u : Scene} {key : String} {kind : Kind}

/-- A move of the kind waits for the content of the key, taken back or not. -/
def Waits (s : Scene) (key : String) (kind : Kind) : Prop :=
  ∃ r, s.arbiter.pending[key]? = some r ∧ r.kind = kind

/-- A move of the kind waits for the content of a key that is up on it. -/
structure Exposed (s : Scene) (key : String) (kind : Kind) : Prop where
  waits : s.Waits key kind
  up : s.screen.isUp kind key = true

/-- Content that has been drawn for the notice is not to be shown by the move that waits for it, and
so it is taken down: the move was taken back, the notice is no longer what it was, or the source has
come up again. -/
structure TearsDown (s : Scene) (n : Notice) (r : Deferral) (p : Presenter) : Prop where
  pending : s.arbiter.pending[n.key]? = some r
  presenter : s.screen.presenter r.kind = some p
  fails : r.fits n = false ∨ s.screen.isUp r.kind r.source = true

/-- What a deed calls. -/
def called (s : Scene) (d : Deed) : List Call :=
  (s.act d).screen.calls.drop s.screen.calls.length

/-- Of what is called between the two scenes, content is taken down only as the first property says.
A key that is exposed afterwards was so before, or the second property says so. -/
structure Shelters (C : Call → Prop) (X : String → Kind → Prop) (s t : Scene) : Prop where
  calls : ∃ made, t.screen.calls = s.screen.calls ++ made ∧
    ∀ row flag, .release row flag ∈ made → C (.release row flag)
  exposed : ∀ key kind, t.Exposed key kind → s.Exposed key kind ∨ X key kind

section shelters
variable {C C' : Call → Prop} {X X' : String → Kind → Prop}

theorem Shelters.refl (s : Scene) : Shelters C X s s :=
  ⟨⟨[], (List.append_nil _).symm, by simp⟩, fun _ _ => .inl⟩

theorem Shelters.trans (h : Shelters C X s t) (h' : Shelters C X t u) : Shelters C X s u := by
  obtain ⟨made, hm, hc⟩ := h.calls
  obtain ⟨more, hn, hc'⟩ := h'.calls
  refine ⟨⟨made ++ more, ?_, fun row flag hr => ?_⟩, fun key kind he => ?_⟩
  · rw [hn, hm, List.append_assoc]
  · rcases List.mem_append.mp hr with hr | hr
    · exact hc row flag hr
    · exact hc' row flag hr
  · rcases h'.exposed key kind he with he | hx
    · exact h.exposed key kind he
    · exact .inr hx

theorem Shelters.mono (h : Shelters C X s t) (hc : ∀ call, C call → C' call)
    (hx : ∀ key kind, t.Exposed key kind → X key kind → s.Exposed key kind ∨ X' key kind) :
    Shelters C' X' s t := by
  obtain ⟨made, hm, hr⟩ := h.calls
  refine ⟨⟨made, hm, fun row flag h => hc _ (hr row flag h)⟩, fun key kind he => ?_⟩
  rcases h.exposed key kind he with hs | hx'
  · exact .inl hs
  · exact hx key kind he hx'

theorem shelters_books (s : Scene) {a : Arbiter}
    (h : ∀ (key : String) r, a.pending[key]? = some r →
      ∃ r₀, s.arbiter.pending[key]? = some r₀ ∧ r₀.kind = r.kind) :
    Shelters C X s { s with arbiter := a } := by
  refine ⟨⟨[], (List.append_nil _).symm, by simp⟩, fun key kind he => .inl ⟨?_, he.up⟩⟩
  obtain ⟨r, hr, hk⟩ := he.waits
  obtain ⟨r₀, hr₀, hk₀⟩ := h key r hr
  exact ⟨r₀, hr₀, hk₀.trans hk⟩

theorem shelters_of_pending (s : Scene) {a : Arbiter} (h : a.pending = s.arbiter.pending) :
    Shelters C X s { s with arbiter := a } :=
  s.shelters_books fun _ r hr => ⟨r, by rw [← h, hr], rfl⟩

theorem shelters_of_subset (s : Scene) {a : Arbiter}
    (h : ∀ (key : String) r, a.pending[key]? = some r → s.arbiter.pending[key]? = some r) :
    Shelters C X s { s with arbiter := a } :=
  s.shelters_books fun key r hr => ⟨r, h key r hr, rfl⟩

theorem shelters_clearDeferral (s : Scene) (key : String) :
    Shelters C X s (s.clearDeferral key) :=
  s.shelters_of_subset fun _ _ hr => getElem?_pending_clearDeferral hr

theorem shelters_giveUp (s : Scene) {a : Arbiter} (ha : a.pending = s.arbiter.pending)
    (p : String → Deferral → Bool) (cause : Cause) :
    Shelters C X s { s with arbiter := a.giveUp (Keyed.extract a.pending p) cause } := by
  refine s.shelters_of_subset fun key r hr => ?_
  have hr' : (Keyed.extract a.pending p).2[key]? = some r := hr
  rw [Keyed.getElem?_extract_snd, Option.filter_eq_some_iff, ha] at hr'
  exact hr'.1

theorem shelters_dismiss (s : Scene) (kind : Kind) (key : String) :
    Shelters C X s (s.dismiss kind key) := by
  refine ⟨⟨_, Screen.calls_callPresenter _ _ _ _, fun row flag hr => ?_⟩, fun k x he => .inl ?_⟩
  · split at hr <;> simp at hr
  · have hup : (s.screen.dismiss kind key).isUp x k = true := he.up
    rw [Screen.isUp_dismiss, Bool.and_eq_true] at hup
    exact ⟨he.waits, hup.2⟩

/-- A delivery exposes no key but that of the notice, and that only if the notice is up and the move
is put off. -/
theorem exposed_deliver {n : Notice} {k : Kind} {source : String}
    (h : (s.deliver n source kind).Exposed key k) :
    s.Exposed key k ∨ (key = n.key ∧ k = kind ∧ s.screen.isUp kind n.key = true ∧
      s.outcome n kind = .deferred) := by
  obtain ⟨⟨r, hr, hk⟩, hup⟩ := h
  rw [arbiter_deliver] at hr
  rw [isUp_deliver] at hup
  by_cases hkey : key = n.key
  · subst hkey
    cases ho : s.outcome n kind with
    | shown => simp [ho, Outcome.pending] at hr
    | unavailable =>
        rw [ho] at hr hup
        exact .inl ⟨⟨r, hr, hk⟩, by simpa using hup⟩
    | deferred =>
        rw [ho] at hr hup
        simp only [Outcome.pending, Std.ExtTreeMap.getElem?_insert_self, Option.some.injEq] at hr
        have hkind : k = kind := by rw [← hk, ← hr]; rfl
        exact .inr ⟨rfl, hkind, by rw [← hkind]; simpa using hup, rfl⟩
  · have hne : ¬n.key = key := Ne.symm hkey
    refine .inl ⟨⟨r, ?_, hk⟩, by simpa [hkey] using hup⟩
    cases ho : s.outcome n kind <;>
      simpa [ho, Outcome.pending, Std.ExtTreeMap.getElem?_erase, Std.ExtTreeMap.getElem?_insert,
        hne] using hr

theorem calls_deliver (s : Scene) (n : Notice) (source : String) (kind : Kind) :
    ∃ made, (s.deliver n source kind).screen.calls = s.screen.calls ++ made ∧
      ∀ row flag, .release row flag ∉ made := by
  cases ho : s.outcome n kind with
  | unavailable =>
      rw [deliver_of_unavailable ho]
      exact ⟨[], (List.append_nil _).symm, by simp⟩
  | shown =>
      rw [deliver_of_shown ho]
      have hshown : s.outcome n kind ≠ .unavailable := by
        rw [ho]
        decide
      have hp := presenter_of_outcome hshown
      refine ⟨_, Screen.calls_alert hp n, fun row flag hr => ?_⟩
      split at hr <;> cases List.mem_singleton.mp hr
  | deferred =>
      obtain ⟨p, -, hd⟩ := deliver_of_deferred ho source
      rw [hd]
      simp only [defer]
      split
      · exact ⟨[.request n.row p.flag], rfl, by simp⟩
      · exact ⟨[], (List.append_nil _).symm, by simp⟩

theorem shelters_deliver {n : Notice} {kind : Kind}
    (hx : s.screen.isUp kind n.key = true → s.outcome n kind = .deferred → X n.key kind)
    (source : String) : Shelters C X s (s.deliver n source kind) := by
  obtain ⟨made, hm, hr⟩ := s.calls_deliver n source kind
  refine ⟨⟨made, hm, fun row flag h => absurd h (hr row flag)⟩, fun key k he => ?_⟩
  rcases exposed_deliver he with h | ⟨rfl, rfl, hup, ho⟩
  · exact .inl h
  · exact .inr (hx hup ho)

theorem shelters_move {n : Notice} {kind : Kind}
    (hx : s.screen.isUp kind n.key = true → s.outcome n kind = .deferred → X n.key kind)
    (source : String) : Shelters C X s (s.move n source kind) :=
  (shelters_deliver hx source).trans (shelters_of_pending _ rfl)

/-! ### Operations -/

/-- A move to the key is put off, and just this is written, although the key is up on the kind. -/
def PutsOff (s t : Scene) (key : String) (kind : Kind) : Prop :=
  s.screen.isUp kind key = true ∧
    ∃ source, t.arbiter.journal = s.arbiter.journal ++ [.deferred source key kind]

theorem shelters_forward (s : Scene) (g : Grouping) (now : Nat) (summary : Notice) (kind : Kind) :
    Shelters C (PutsOff s (s.forward g now summary kind)) s (s.forward g now summary kind) := by
  rcases s.forward_cases g now summary kind with ⟨he, -⟩ | ⟨child, -, -, he⟩
  · rw [he]
    exact Shelters.refl s
  · rw [he]
    have hmark : (s.markForward summary child kind now).arbiter.pending = s.arbiter.pending ∧
        (s.markForward summary child kind now).arbiter.journal = s.arbiter.journal := by
      rw [arbiter_markForward]
      exact ⟨rfl, rfl⟩
    have hscreen := screen_markForward s summary child kind now
    have hbooks : Shelters C (PutsOff s (((s.markForward summary child kind now).dismiss kind
        summary.key).move child summary.key kind)) s (s.markForward summary child kind now) := by
      have h := s.shelters_of_pending (C := C) (X := PutsOff s (((s.markForward summary child kind
        now).dismiss kind summary.key).move child summary.key kind)) hmark.1
      rwa [← hscreen] at h
    refine (hbooks.trans (shelters_dismiss _ kind summary.key)).trans
      (shelters_move (fun hup ho => ⟨?_, summary.key, ?_⟩) summary.key)
    · have hup' : ((s.markForward summary child kind now).screen.dismiss kind summary.key).isUp kind
          child.key = true := hup
      rw [hscreen, Screen.isUp_dismiss, Bool.and_eq_true] at hup'
      exact hup'.2
    · rw [move, write, Arbiter.journal_write, arbiter_deliver, ho, ← hmark.2]
      rfl

theorem shelters_turnBack (s : Scene) (key : String) : Shelters C X s (s.turnBack key) := by
  refine s.shelters_books fun k r hr => ?_
  have hr' : (s.turnBack key).arbiter.pending[k]? = some r := hr
  rw [pending_turnBack] at hr'
  split at hr'
  · obtain ⟨r₀, hr₀, rfl⟩ := Option.map_eq_some_iff.mp hr'
    exact ⟨r₀, hr₀, rfl⟩
  · exact ⟨r, hr', rfl⟩

theorem shelters_takeAll (s : Scene) (children : List Notice) :
    Shelters C X s (s.takeAll children).1 :=
  takeAll_keeps (I := fun t _ => Shelters C X s t)
    (fun t _ kind child _ _ h => h.trans (t.shelters_dismiss kind child.key))
    (fun t _ _ child _ _ _ h => h.trans (t.shelters_turnBack child.key)) (Shelters.refl s)

/-- An alert that is given back to the summary exposes nothing: the summary is not up. -/
theorem shelters_restore (s : Scene) (g : Grouping) (group : String) (summary : Notice)
    (taken : Schedule) : Shelters C X s (s.restore g group summary taken) := by
  rcases s.restore_cases g group summary taken with ⟨-, he⟩ | ⟨hdown, -, he⟩ | ⟨-, -, he⟩
  · rw [he]
    exact Shelters.refl s
  · rw [he]
    refine (s.shelters_of_pending (a := s.arbiter.modifyRecord group fun r =>
      { r with lastForward := none }) rfl).trans (shelters_move (fun hup _ => ?_) taken.source)
    have hup' : s.screen.isUp taken.kind summary.key = true := hup
    rw [hdown] at hup'
    cases hup'
  · rw [he]
    exact s.shelters_of_pending rfl

theorem shelters_handBack (s : Scene) (g : Grouping) (now : Nat) (group : String) :
    Shelters C X s (s.handBack g now group) := by
  rcases s.handBack_cases g now group with ⟨he, -⟩ | ⟨summary, -, -, ⟨-, he⟩ | ⟨taken, -, he⟩⟩
  · rw [he]
    exact Shelters.refl s
  · rw [he]
    exact s.shelters_takeAll _
  · rw [he]
    exact (s.shelters_takeAll _).trans (shelters_restore _ g group summary taken)

/-- Content that is drawn for a notice is taken down only for a reason, and exposes nothing. -/
theorem shelters_rendered (s : Scene) (n : Notice) :
    Shelters (fun call => ∃ r p, s.TearsDown n r p ∧ call = .release n.row p.flag) X s
      (s.rendered n) := by
  cases hr : s.arbiter.pending[n.key]? with
  | none =>
      rw [rendered_of_none hr]
      exact Shelters.refl s
  | some r =>
      have hclear : ∀ {C : Call → Prop} {Y : String → Kind → Prop},
          Shelters C Y s (s.clearDeferral n.key) := s.shelters_clearDeferral n.key
      have hwrite : ∀ {C : Call → Prop} {t : Scene} (actions : List Action),
          Shelters C X t (t.write actions) := fun _ => shelters_of_pending _ rfl
      -- The content is taken down.
      have hrelease : r.fits n = false ∨ s.screen.isUp r.kind r.source = true →
          Shelters (fun call => ∃ r p, s.TearsDown n r p ∧ call = .release n.row p.flag) X s
            ((s.clearDeferral n.key).release n r.kind) := by
        intro hfails
        refine hclear.trans ?_
        unfold release
        split
        · exact Shelters.refl _
        · next p hp =>
          refine ⟨⟨[.release n.row p.flag], rfl, fun row flag h => ?_⟩, fun key k he => .inl ?_⟩
          · exact ⟨r, p, ⟨hr, hp, hfails⟩, List.mem_singleton.mp h⟩
          · exact ⟨he.waits, he.up⟩
      unfold rendered
      rw [hr]
      dsimp only
      split
      · next hrev =>
        exact (hrelease (.inl (by simp [Deferral.fits, Deferral.isLive, hrev]))).trans (hwrite _)
      · split
        · next hf => exact (hrelease (.inl (by simpa using hf))).trans (hwrite _)
        · split
          · exact hclear.trans (hwrite _)
          · split
            · next hup => exact (hrelease (.inr hup)).trans (hwrite _)
            · -- The move waits on if the content is still missing: the key is no more exposed.
              have hdeliver : Shelters (fun call => ∃ r p, s.TearsDown n r p ∧
                  call = .release n.row p.flag) s.Exposed s
                  ((s.clearDeferral n.key).deliver n r.source r.kind) :=
                hclear.trans (shelters_deliver (fun hup _ => ⟨⟨r, hr, rfl⟩, hup⟩) r.source)
              exact (hdeliver.mono (fun _ h => h) fun _ _ _ hx => .inl hx).trans (hwrite _)

theorem shelters_handleChange (s : Scene) (g : Grouping) (now : Nat) (kind : Kind) (c : Change) :
    Shelters C (PutsOff s (s.handleChange g now kind c)) s (s.handleChange g now kind c) := by
  rcases s.handleChange_cases g now kind c with ⟨he, -⟩ | ⟨n, summary, -, -, -, he⟩
  · rw [he]
    exact Shelters.refl s
  · rw [he]
    exact s.shelters_forward g now summary kind

theorem shelters_handleSuppression (s : Scene) (g : Grouping) (now : Nat) (group : String)
    (on : Bool) :
    Shelters C (PutsOff s (s.handleSuppression g now group on)) s
      (s.handleSuppression g now group on) := by
  rcases s.handleSuppression_cases g now group on with ⟨he, -⟩ | ⟨summary, -, h⟩
  · rw [he]
    exact Shelters.refl s
  · rcases h with ⟨-, kind, -, he⟩ | ⟨-, -, -, he⟩ | ⟨-, -, due, -, ⟨-, he⟩ | ⟨hdown, he⟩⟩
    · rw [he]
      exact s.shelters_forward g now summary kind
    · rw [he]
      exact s.shelters_handBack g now group
    · rw [he]
      exact s.shelters_of_pending rfl
    · rw [he]
      refine Shelters.trans (t := s.unschedule group) (s.shelters_of_pending rfl)
        (shelters_move (fun hup _ => ?_) due.source)
      have hup' : s.screen.isUp due.kind summary.key = true := hup
      rw [hdown] at hup'
      cases hup'

theorem shelters_handleGroup (s : Scene) (g : Grouping) (now : Nat) (e : GroupEvent) :
    Shelters C (PutsOff s (s.handleGroup g now e)) s (s.handleGroup g now e) := by
  cases e with
  | formed group | dissolved group => exact s.shelters_of_pending rfl
  | suppression group on => exact s.shelters_handleSuppression g now group on

theorem shelters_handleEvent (s : Scene) (g : Grouping) (now : Nat) (e : Event) :
    Shelters (fun call => ∃ n r p, e = .rendered n ∧ s.TearsDown n r p ∧
      call = .release n.row p.flag) X s (s.handleEvent g now e) := by
  cases e with
  | rendered n =>
      refine (s.shelters_rendered n).mono ?_ fun key kind _ hx => .inr hx
      rintro call ⟨r, p, h⟩
      exact ⟨n, r, p, rfl, h⟩
  | announced n =>
      simp only [handleEvent]
      split
      · exact s.shelters_of_pending rfl
      · exact Shelters.trans (t := { s with arbiter := s.arbiter.announce n })
          (s.shelters_of_pending rfl) (shelters_handBack _ g now n.group)
  | added n => exact s.shelters_of_pending rfl
  | updated n previous =>
      simp only [handleEvent]
      split
      · exact s.shelters_of_pending rfl
      · exact s.shelters_giveUp (a := s.arbiter.refresh n) rfl _ .regrouped
  | removed n => exact s.shelters_giveUp (a := s.arbiter.added n) rfl _ .removed

end shelters

/-- The content that the deed takes down, if any, is that of the notice for which it has been drawn,
and there is a reason. -/
def Spoils (s : Scene) (d : Deed) (call : Call) : Prop :=
  ∃ n r p, d.drawn? = some n ∧ s.TearsDown n r p ∧ call = .release n.row p.flag

/-- **What a deed of handling takes down and exposes.** -/
theorem shelters_act (s : Scene) {d : Deed} (hd : d.isHandling = true) :
    Shelters (s.Spoils d) (PutsOff s (s.act d)) s (s.act d) := by
  cases d with
  | arrange screen | report => cases hd
  | read =>
      refine ⟨⟨[], (List.append_nil _).symm, by simp⟩, fun key kind he => .inl ⟨he.waits, ?_⟩⟩
      exact (Screen.isUp_read s.screen kind key).symm.trans he.up
  | perform g now o =>
      cases o with
      | event e =>
          refine (s.shelters_handleEvent g now e).mono ?_ fun key kind _ hx => .inr hx
          rintro call ⟨n, r, p, rfl, h⟩
          exact ⟨n, r, p, rfl, h⟩
      | groupEvent e => exact s.shelters_handleGroup g now e
      | suppression group on => exact s.shelters_handleSuppression g now group on
      | change kind c => exact s.shelters_handleChange g now kind c
      | rendered n =>
          refine (s.shelters_rendered n).mono ?_ fun key kind _ hx => .inr hx
          rintro call ⟨r, p, h⟩
          exact ⟨n, r, p, rfl, h⟩
      | removed n => exact s.shelters_giveUp (a := s.arbiter.added n) rfl _ .removed
      | regrouped n => exact s.shelters_giveUp (a := s.arbiter) rfl _ .regrouped
      | quiet on => cases hd

theorem spoils_of_called {d : Deed} (hd : ∀ screen, d ≠ .arrange screen) {row : String}
    {flag : Flag} (h : .release row flag ∈ s.called d) : s.Spoils d (.release row flag) := by
  have hhandle : d.isHandling = true → s.Spoils d (.release row flag) := by
    intro hhandling
    obtain ⟨made, hmade, hspoils⟩ := (s.shelters_act hhandling).calls
    rw [called, hmade, List.drop_left] at h
    exact hspoils row flag h
  have hsilent : (s.act d).screen = s.screen → s.Spoils d (.release row flag) := by
    intro hs
    simp [called, hs] at h
  cases d with
  | read => exact hhandle rfl
  | report => exact hsilent rfl
  | arrange screen => exact absurd rfl (hd screen)
  | perform g now o =>
      cases o with
      | event | groupEvent | suppression | change | rendered | removed | regrouped =>
          exact hhandle rfl
      | quiet on => exact hsilent rfl

/-! ### Overtaken keys -/

/-- The key is overtaken: the host raises its alert while a move of the kind waits for its content,
or a move is put off to it although it is up on the kind. -/
def Overtakes (key : String) (kind : Kind) (s : Scene) (d : Deed) : Prop :=
  (∃ n, n.key = key ∧ d = .arrange (s.screen.raise kind n) ∧ s.Waits key kind ∧
    s.screen.isUp kind key = false) ∨
  (s.screen.isUp kind key = true ∧ ∃ source, s.written d = [.deferred source key kind])

/-- **A key is exposed only when it is overtaken**, if the screen is arranged by the host. -/
theorem overtakes_of_exposed {d : Deed} (hd : s.Hosted d) (h : (s.act d).Exposed key kind) :
    Overtakes key kind s d ∨ s.Exposed key kind := by
  have hhandle : d.isHandling = true → Overtakes key kind s d ∨ s.Exposed key kind := by
    intro hhandling
    rcases (s.shelters_act hhandling).exposed key kind h with hs | ⟨hup, source, hj⟩
    · exact .inr hs
    · exact .inl (.inr ⟨hup, source, written_of_journal hj⟩)
  cases d with
  | read => exact hhandle rfl
  | report => exact .inr ⟨h.waits, h.up⟩
  | arrange screen =>
      obtain ⟨c, rfl⟩ := hd screen rfl
      have hup : (s.screen.host c).1.isUp kind key = true := h.up
      cases hdown : s.screen.isUp kind key with
      | true => exact .inr ⟨h.waits, hdown⟩
      | false =>
          rcases Session.isUp_host hup with hs | ⟨n, rfl, hn, -⟩
          · rw [hdown] at hs
            cases hs
          · exact .inl (.inl ⟨n, hn, rfl, h.waits, hdown⟩)
  | perform g now o =>
      cases o with
      | event | groupEvent | suppression | change | rendered | removed | regrouped =>
          exact hhandle rfl
      | quiet on =>
          obtain ⟨⟨r, hr, hk⟩, hup⟩ := h
          have hr' : (s.arbiter.setQuiet on).pending[key]? = some r := hr
          refine .inr ⟨⟨r, ?_, hk⟩, hup⟩
          exact (Passes.quiet s on).loses key r hr'

end Scene

/-- **Content of an alert is taken down only if its key was overtaken.**  In every course that
starts with new books and in which the screen is arranged by the host: content that the arbiter
takes down is that of a notice for which content has been drawn while a move waits for it that is
not to be carried out, and it is what the presenter of that kind needs.  If the notice is alerting
on the kind at this moment, then its key was overtaken, by the host that raised its alert or by a
move that was put off although it was up, and has been exposed ever since.  The history of a session
is such a course, whatever is asked of the session. -/
theorem torn_down_alerts_were_overtaken (settings : Settings) :
    (∀ (past : List Deed) (last : Deed) (row : String) (flag : Flag),
      let s : Scene := { arbiter := { settings } }
      s.Throughout Scene.Hosted past → (∀ screen, last ≠ .arrange screen) →
      .release row flag ∈ (s.course past).called last →
        ∃ n r p, last.drawn? = some n ∧ row = n.row ∧ flag = p.flag ∧
          (s.course past).TearsDown n r p ∧
          ((s.course past).screen.isUp r.kind n.key = true →
            s.Since (Scene.Overtakes n.key r.kind) (fun t _ => t.Exposed n.key r.kind) past)) ∧
    ∀ (clock : Clock) (rs : List Request),
      let s := Session.create settings clock
      s.scene.course (s.history rs) = (s.run rs).scene ∧
        s.scene.Throughout Scene.Hosted (s.history rs) := by
  constructor
  · intro past last row flag s hpast hlast hcall
    obtain ⟨n, r, p, hdrawn, htears, hrelease⟩ := Scene.spoils_of_called hlast hcall
    cases hrelease
    refine ⟨n, r, p, hdrawn, rfl, rfl, htears, fun hup => ?_⟩
    have hexposed : (s.course past).Exposed n.key r.kind := ⟨⟨r, htears.pending, rfl⟩, hup⟩
    have hnew : ¬s.Exposed n.key r.kind := by
      rintro ⟨⟨r, hr, -⟩, -⟩
      simp [s] at hr
    exact Scene.since_stands (P := (·.Exposed n.key r.kind))
      (fun t d => Scene.overtakes_of_exposed) hpast hexposed hnew
  · exact fun clock rs => ⟨Session.course_history rs _, Session.hosted_history rs _⟩

/-- The alert of `s` waits for the content of its only child `c` and is taken back because `d` is
about to join.  Then the content is there, the host alerts for `c` itself, and `c` is reported as
drawn. -/
def overtaken : List Request :=
  let s := Cast.troupe.notice "s"
  let c := Cast.troupe.notice "c"
  [.host (.register .headsUp 4), .bind, .send (.added s), .send (.added c),
    .host (.raise .headsUp s), .flush, .send (.announced (Cast.troupe.notice "d")), .flush,
    .host (.prepare "c" 4 true), .host (.raise .headsUp c), .flush, .send (.rendered c)]

/-- The alert of `s` moves to its only child `c`, which may alert by itself.  Then the content of
`c` is lost, `s` alerts once more, the move waits for `c`, and it is taken back because `d` is about
to join. -/
def overlaid : List Request :=
  let s := Cast.troupe.notice "s"
  let c : Notice := { Cast.troupe.notice "c" with policy := {} }
  [.host (.register .headsUp 4), .bind, .host (.prepare "c" 4 true), .send (.added s),
    .send (.added c), .host (.raise .headsUp s), .flush, .host (.prepare "c" 4 false),
    .host (.raise .headsUp s), .flush, .send (.announced (Cast.troupe.notice "d")),
    .send (.rendered c)]

/-- Content is taken down under an alert: one that the host raised, and one that the arbiter did. -/
theorem content_of_alerts_is_torn_down :
    let s := (Session.create {} {}).run overtaken
    let t := (Session.create {} {}).run overlaid
    s.scene.screen.isUp .headsUp "c" = true ∧
      (s.step .flush).2 = .actions [.reversed "c"] ∧
      (s.step .flush).1.scene.screen.calls = s.scene.screen.calls ++ [.release "c" 4] ∧
      (s.step .flush).1.scene.screen.isUp .headsUp "c" = true ∧
      t.scene.screen.isUp .headsUp "c" = true ∧
      (t.step .flush).2 = .actions [.scheduled "g" .headsUp, .reversed "c"] ∧
      (t.step .flush).1.scene.screen.calls = t.scene.screen.calls ++ [.release "c" 4] ∧
      (t.step .flush).1.scene.screen.isUp .headsUp "c" = true := by
  decide +kernel

/-- The alert under which content is taken down goes back to a time when its key was overtaken. -/
theorem overtaken_is_exposed :
    let new := (Session.create {} {}).scene
    let past := (Session.create {} {}).history overtaken
    let g := ((Session.create {} {}).run overtaken).table.grouping
    .release "c" 4 ∈
        (new.course past).called (.perform g 0 (.event (.rendered (Cast.troupe.notice "c")))) ∧
      new.Since (Scene.Overtakes "c" .headsUp) (fun t _ => t.Exposed "c" .headsUp) past := by
  intro new past g
  obtain ⟨htorn, hsession⟩ := torn_down_alerts_were_overtaken {}
  have hcourse : new.course past = ((Session.create {} {}).run overtaken).scene :=
    (hsession {} overtaken).1
  have hcall : .release "c" 4 ∈
      (new.course past).called (.perform g 0 (.event (.rendered (Cast.troupe.notice "c")))) := by
    rw [hcourse]
    decide +kernel
  obtain ⟨n, r, p, hdrawn, -, -, htears, hsince⟩ :=
    htorn past _ "c" 4 (hsession {} overtaken).2 (by simp) hcall
  cases hdrawn
  have hwaits : ((Session.create {} {}).run overtaken).scene.arbiter.pending["c"]? =
      some ⟨"s", .headsUp, ⟨"g", .child⟩, true⟩ := by decide +kernel
  have hup : ((Session.create {} {}).run overtaken).scene.screen.isUp .headsUp "c" = true := by
    decide +kernel
  have hr : (new.course past).arbiter.pending["c"]? = some r := htears.pending
  rw [← hcourse] at hwaits hup
  cases hwaits.symm.trans hr
  exact ⟨hcall, hsince hup⟩

end AlertHandoff
