import AlertHandoff.Proofs.Owner
import AlertHandoff.Proofs.Registry

/-! # What is told twice

An event may be delivered again, and a presenter may report a change again.  The second time comes
right after the first, so it meets what the first time left behind.

The roster knows the event by then (`Roster.Indexed.track_next`), and the notice that was added is
not announced any more.  A change that was reported moved the alert of the summary away, so that
there is none to move (`Scene.handleChange_again`).  Drawn content takes the move that waited for it
off the books, and what comes of it may well be another move, but none to the same key
(`Scene.pending_quiesce_of_raised`).  Only if the content is missing even now does the move wait on
(`Scene.StillWaits`); then it is put off once more in the same words, and the row is asked again.
`redelivery_is_harmless` puts this together. -/

namespace AlertHandoff

/-! ### Events that the roster knows -/

namespace Roster
variable {r r' : Roster}

theorem eq_of_getElem? (he : ∀ key : String, r.entries[key]? = r'.entries[key]?)
    (hh : ∀ g : String, r.heads[g]? = r'.heads[g]?) : r = r' := by
  obtain ⟨entries, heads⟩ := r
  obtain ⟨entries', heads'⟩ := r'
  obtain rfl : entries = entries' := Std.ExtTreeMap.ext_getElem? he
  obtain rfl : heads = heads' := Std.ExtTreeMap.ext_getElem? hh
  rfl

theorem Headed.getElem?_heads_next (h : r.Headed) (e : Event) (g : String) :
    (r.next e).heads[g]? =
      match e with
      | .added n | .updated n _ =>
        if n.role = .summary ∧ n.group = g then some n.key else r.heads[g]?.filter (· != n.key)
      | .removed n => r.heads[g]?.filter (· != n.key)
      | .announced _ | .rendered _ => r.heads[g]? := by
  cases e <;> simp only [next, getElem?_heads_enter, h.getElem?_heads_drop]

theorem Indexed.next_next (h : r.Indexed) (e : Event) : (r.next e).next e = r.next e := by
  refine eq_of_getElem? (fun key => ?_) fun g => ?_
  · rw [getElem?_entries_next]
    cases e with
    | announced n | rendered n => rfl
    | removed n | added n | updated n previous =>
        dsimp only
        rw [getElem?_entries_next]
        dsimp only
        split <;> rfl
  · rw [(h.next e).headed.getElem?_heads_next]
    cases e with
    | announced n | rendered n => rfl
    | removed n =>
        dsimp only
        rw [h.headed.getElem?_heads_next, Option.filter_filter]
        simp
    | added n | updated n previous =>
        dsimp only
        rw [h.headed.getElem?_heads_next]
        dsimp only
        split
        · rfl
        · rw [Option.filter_filter]
          simp

theorem changes_self (r : Roster) (group : String) : r.changes r group = [] := by
  simp [changes]

/-- **An event that comes again is no news to the roster**: it stays as it is, and no group event
is brought about. -/
theorem Indexed.track_next (h : r.Indexed) (e : Event) :
    (r.next e).track e = ([], r.next e) := by
  have hformed : (r.next e).formed e = [] := by
    rcases (r.next e).formed_cases e with ⟨hes, -⟩ | ⟨n, hn, hno, -⟩
    · exact hes
    · rw [hasGroup_iff.mpr ⟨n, h.member_next_of_entering hn⟩] at hno
      cases hno
  rw [track, hformed, h.next_next]
  simp [changes_self]

end Roster

namespace Scene
variable {s : Scene} {r : Roster} {n summary : Notice} {kind : Kind} {d : Deferral}

/-! ### Changes that are reported again -/

theorem forward_of_down (h : s.screen.isUp kind summary.key = false) (g : Grouping) (now : Nat) :
    s.forward g now summary kind = s := by
  simp [forward, mayForward, h]

/-- **A change that is reported again is answered once**: an alert that was moved on is not on the
summary any more. -/
theorem handleChange_again (hr : r.Indexed) (s : Scene) (now : Nat) (kind : Kind) (c : Change) :
    (s.handleChange r.grouping now kind c).handleChange r.grouping now kind c =
      s.handleChange r.grouping now kind c := by
  rcases s.handleChange_cases r.grouping now kind c with ⟨he, -⟩ | ⟨n, summary, hc, hs, -, he⟩
  · rw [he, he]
  · rcases s.forward_cases r.grouping now summary kind with ⟨hf, -⟩ | ⟨child, hheir, hmay, -⟩
    · rw [he, hf]
      exact he.trans hf
    · -- Whatever the second report leads to, the summary is down by then.
      have hne := hr.summary_key_ne hs (mem_children_of_heir? hheir).1
      have hdown := isUp_forward hmay hheir hne now
      rw [he]
      generalize s.forward r.grouping now summary kind = t at hdown ⊢
      rcases t.handleChange_cases r.grouping now kind c with ⟨he', -⟩ | ⟨m, _, hc', hs', -, he'⟩
      · exact he'
      · rw [hc] at hc'
        cases hc'
        rw [hs] at hs'
        cases hs'
        rw [he', forward_of_down hdown]

/-! ### Content that is drawn again -/

/-- A live move to the notice waits, and if its content were drawn now it would be put off again:
the notice has the place it had, quiet mode is off and the source is down, but the presenter of the
kind finds the content missing. -/
structure StillWaits (s : Scene) (n : Notice) (d : Deferral) : Prop where
  pending : s.arbiter.pending[n.key]? = some d
  fits : d.fits n = true
  quiet : s.arbiter.quiet = false
  down : s.screen.isUp d.kind d.source = false
  missing : s.outcome n d.kind = .deferred

/-- Content for the presenter is asked for, if the settings say so. -/
def ask (s : Scene) (n : Notice) (p : Presenter) : Scene :=
  { s with screen :=
      if s.arbiter.settings.asksForContent then s.screen.request n.row p.flag else s.screen }

@[simp] theorem presenter_ask (s : Scene) (n : Notice) (p : Presenter) (k : Kind) :
    (s.ask n p).screen.presenter k = s.screen.presenter k := by
  unfold ask
  split
  · cases k <;> rfl
  · rfl

@[simp] theorem isReady_ask (s : Scene) (n : Notice) (p : Presenter) (row : String) (flag : Flag) :
    (s.ask n p).screen.isReady row flag = s.screen.isReady row flag := by
  unfold ask
  split
  · exact Screen.isReady_request s.screen n.row row p.flag flag
  · rfl

@[simp] theorem news_ask (s : Scene) (n : Notice) (p : Presenter) :
    (s.ask n p).screen.news = s.screen.news := by
  unfold ask
  split <;> rfl

theorem StillWaits.ask (h : s.StillWaits n d) (p : Presenter) :
    (s.ask n p).StillWaits n d where
  pending := h.pending
  fits := h.fits
  quiet := h.quiet
  down := by
    have hd := h.down
    rw [Screen.isUp] at hd ⊢
    rwa [presenter_ask]
  missing := by
    have hm := h.missing
    simpa [outcome] using hm

theorem rendered_of_stillWaits (h : s.StillWaits n d) :
    ∃ p, s.screen.presenter d.kind = some p ∧ s.screen.isReady n.row p.flag = false ∧
      s.rendered n = s.ask n p := by
  obtain ⟨p, hp, hready⟩ := missing_of_deferred h.missing
  refine ⟨p, hp, hready, ?_⟩
  have hmissing : (s.clearDeferral n.key).outcome n d.kind = .deferred := h.missing
  have hdeliver : (s.clearDeferral n.key).deliver n d.source d.kind =
      (s.clearDeferral n.key).defer n d.source d.kind p.flag := by
    obtain ⟨q, hq, he⟩ := deliver_of_deferred hmissing d.source
    cases hp.symm.trans hq
    exact he
  have hsame : (s.arbiter.pending.erase n.key).insert n.key (Deferral.fresh n d.source d.kind) =
      s.arbiter.pending := by
    rw [fresh_of_fits h.fits, Keyed.insert_erase_self h.pending]
  rw [rendered_of_fits h.pending h.fits h.quiet h.down, complete, hmissing, if_neg (by decide),
    hdeliver]
  simp only [write, Arbiter.write, List.append_nil, defer, clearDeferral, hsame]
  rfl

/-- Drawn content leaves no move to its notice, unless it was drawn for nothing. -/
theorem rendered_ends (s : Scene) (n : Notice) :
    (∃ d, s.StillWaits n d) ∨ (s.rendered n).arbiter.pending[n.key]? = none := by
  rcases s.rendered_cases n with ⟨hnone, he⟩ | ⟨d, hd, ⟨t, a, ht, -, he⟩ | ⟨hf, hq, hu, he⟩⟩
  · rw [he]
    exact .inr hnone
  · have hbooks : t.arbiter = (s.clearDeferral n.key).arbiter := by
      rcases ht with rfl | rfl
      · rfl
      · exact arbiter_release _ n d.kind
    rw [he, write, hbooks]
    exact .inr Std.ExtTreeMap.getElem?_erase_self
  · by_cases hm : s.outcome n d.kind = .deferred
    · exact .inl ⟨d, hd, hf, hq, hu, hm⟩
    · right
      have hm : (s.clearDeferral n.key).outcome n d.kind ≠ .deferred := hm
      rw [he, complete, write, arbiter_deliver]
      cases ho : (s.clearDeferral n.key).outcome n d.kind with
      | deferred => exact absurd ho hm
      | shown | unavailable => simp [Arbiter.write, Outcome.pending, clearDeferral]

/-- Where all alerts that came up are those of one notice, handling the news puts off no move to
it. -/
theorem pending_quiesce_of_raised (hr : r.Indexed)
    (hn : ∀ x ∈ s.screen.news, ∀ m, x.2 = .raised m → m = n) (now : Nat) :
    (s.quiesce r.grouping now).arbiter.pending[n.key]? = s.arbiter.pending[n.key]? := by
  rcases alters_quiesce hr.coherent s now n.key with h | ⟨⟨group, child, hchild, hk⟩, -⟩
  · exact h
  · -- The notice has the key of a child, so that it is no summary and none of the news moves
    -- anything.
    have hstay : ∀ (t : Scene) (x : Kind × Change), (∀ m, x.2 = .raised m → m = n) →
        t.handleChange r.grouping now x.1 x.2 = t := by
      intro t x hx
      rcases t.handleChange_cases r.grouping now x.1 x.2 with ⟨he, -⟩ | ⟨m, summary, hm, hs, hkey, -⟩
      · exact he
      · rw [hx m hm, ← hk] at hkey
        exact absurd hkey (hr.summary_key_ne hs hchild)
    have hsame := quiesce_keeps r.grouping now (s := s)
      (I := fun xs t => t.arbiter = s.arbiter ∧ (∀ x ∈ xs, ∀ m, x.2 = .raised m → m = n) ∧
        ∀ x ∈ t.screen.news, ∀ m, x.2 = .raised m → m = n)
      (fun x xs t ⟨ha, hxs, ht⟩ => by
        rw [hstay t x (hxs x List.mem_cons_self)]
        exact ⟨ha, fun y hy => hxs y (List.mem_cons_of_mem x hy), ht⟩)
      (fun xs t ⟨ha, hxs, _⟩ => ⟨ha, hxs, by simp⟩) (fun t ⟨ha, _, ht⟩ => ⟨ha, ht, ht⟩)
      ⟨rfl, hn, hn⟩
    rw [hsame.1]

/-- When drawn content has been dealt with, and the news that came of it as well, no move to its
notice is on record, or it waits still. -/
theorem waits_of_rendered (hr : r.Indexed) (hn : s.screen.news = []) (n : Notice) (now : Nat) :
    let t := (s.rendered n).quiesce r.grouping now
    t.arbiter.pending[n.key]? = none ∨ ∃ d, t.StillWaits n d := by
  intro t
  rcases s.rendered_ends n with ⟨d, h⟩ | hnone
  · obtain ⟨p, -, -, he⟩ := rendered_of_stillWaits h
    have hnews : (s.ask n p).screen.news = [] := by rw [news_ask, hn]
    refine .inr ⟨d, ?_⟩
    show ((s.rendered n).quiesce r.grouping now).StillWaits n d
    rw [he, quiesce_of_no_news hnews]
    exact h.ask p
  · refine .inl ((pending_quiesce_of_raised hr (fun x hx m hm => ?_) now).trans hnone)
    rcases (s.within_rendered n).raised x.1 m (hm ▸ hx) with hold | hm
    · simp [hn] at hold
    · exact hm

end Scene

/-! ### The session -/

namespace Session
variable {now : Nat} {x : Roster × Scene} {e : Event}

theorem handle_of_no_news (ht : x.1.track e = ([], x.1))
    (hn : (x.2.handleEvent x.1.grouping now e).screen.news = []) :
    handle now x e = (x.1, x.2.handleEvent x.1.grouping now e) := by
  have hnext : x.1.next e = x.1 := congrArg Prod.snd ht
  simp [handle, ht, hnext, Scene.quiesce_of_no_news hn, replay]

theorem sound_foldl_handle (now : Nat) : ∀ (es : List Event) {x : Roster × Scene}, x.1.Indexed →
    x.2.screen.news = [] → (es.foldl (handle now) x).1.Indexed ∧
      (es.foldl (handle now) x).2.screen.news = []
  | [], _, hi, hn => ⟨hi, hn⟩
  | e :: es, x, hi, _ => sound_foldl_handle now es (hi.next e) (news_handle now x e)

theorem handle_added_again (hi : x.1.Indexed) (now : Nat) (n : Notice) :
    handle now (handle now x (.added n)) (.added n) = handle now x (.added n) := by
  have hannounced : (handle now x (.added n)).2.arbiter.announced =
      x.2.arbiter.announced.erase n.key := (Cast.books_result ⟨now, x.1, x.2, .added n⟩).2.2
  have hsame : (handle now x (.added n)).2.arbiter.added n =
      (handle now x (.added n)).2.arbiter := by
    rw [Arbiter.added, hannounced, Keyed.erase_erase_self, ← hannounced]
  have hevent : (handle now x (.added n)).2.handleEvent (handle now x (.added n)).1.grouping now
      (.added n) = (handle now x (.added n)).2 := by
    rw [Scene.handleEvent, hsame]
  have htrack : (handle now x (.added n)).1.track (.added n) = ([], (handle now x (.added n)).1) :=
    hi.track_next (.added n)
  rw [handle_of_no_news htrack (by rw [hevent]; exact news_handle now x _), hevent]

theorem handle_rendered_again (hi : x.1.Indexed) (hn : x.2.screen.news = []) (now : Nat)
    (n : Notice) :
    let y := handle now x (.rendered n)
    (y.2.arbiter.pending[n.key]? = none ∧ handle now y (.rendered n) = y) ∨
      ∃ d p, y.2.StillWaits n d ∧ y.2.screen.presenter d.kind = some p ∧
        y.2.screen.isReady n.row p.flag = false ∧
        handle now y (.rendered n) = (y.1, y.2.ask n p) := by
  intro y
  have hnews : y.2.screen.news = [] := news_handle now x _
  have htrack : y.1.track (.rendered n) = ([], y.1) := hi.track_next (.rendered n)
  rcases Scene.waits_of_rendered hi hn n now with hnone | ⟨d, h⟩
  · have hnone : y.2.arbiter.pending[n.key]? = none := hnone
    have hevent : y.2.handleEvent y.1.grouping now (.rendered n) = y.2 :=
      Scene.rendered_of_none hnone
    refine .inl ⟨hnone, ?_⟩
    rw [handle_of_no_news htrack (by rw [hevent, hnews]), hevent]
  · have h : y.2.StillWaits n d := h
    obtain ⟨p, hp, hready, he⟩ := Scene.rendered_of_stillWaits h
    have hevent : y.2.handleEvent y.1.grouping now (.rendered n) = y.2.ask n p := he
    refine .inr ⟨d, p, h, hp, hready, ?_⟩
    rw [handle_of_no_news htrack (by rw [hevent, Scene.news_ask, hnews]), hevent]

end Session

/-- **What is told twice is done once.**  Take any session that has been run and has handled its news
and after that any events, and any reading of the clock.

If a notice is added and the event comes again, nothing changes at all.  If content is drawn and that
is told again, the roster, the books, the presenters and the content that is ready stay as they are.
Nothing changes if no move to the notice is on record after the first time; otherwise the move waits
still, since the presenter finds the content missing, and all that is done is to ask the row for it
once more, if the settings say so.  And in every scene, a change that is reported to the arbiter
again changes nothing. -/
theorem redelivery_is_harmless (settings : Settings) (clock : Clock) (rs : List Request)
    (now : Nat) (es : List Event) :
    let s := (Session.create settings clock).run rs
    let x := es.foldl (Session.handle now) (s.table, s.scene.quiesce s.table.grouping now)
    (∀ n, let y := Session.handle now x (.added n)
      Session.handle now y (.added n) = y) ∧
    (∀ n, let y := Session.handle now x (.rendered n)
      let z := Session.handle now y (.rendered n)
      z.1 = y.1 ∧ z.2.arbiter = y.2.arbiter ∧
        (∀ kind, z.2.screen.presenter kind = y.2.screen.presenter kind) ∧
        (∀ row flag, z.2.screen.isReady row flag = y.2.screen.isReady row flag) ∧
        ((y.2.arbiter.pending[n.key]? = none ∧ z.2 = y.2) ∨
          ∃ d p, y.2.StillWaits n d ∧ y.2.screen.presenter d.kind = some p ∧
            y.2.screen.isReady n.row p.flag = false ∧ z.2 = y.2.ask n p)) ∧
    ∀ (t : Scene) kind c, let u := t.handleChange x.1.grouping now kind c
      u.handleChange x.1.grouping now kind c = u := by
  intro s x
  obtain ⟨hi, hn⟩ : x.1.Indexed ∧ x.2.screen.news = [] :=
    Session.sound_foldl_handle now es (Session.indexed_run settings clock rs)
      (s.scene.news_quiesce s.table.role_of_mem_children now)
  refine ⟨Session.handle_added_again hi now, fun n => ?_, fun t kind c =>
    Scene.handleChange_again hi t now kind c⟩
  intro y z
  have hz : (y.2.arbiter.pending[n.key]? = none ∧ z = y) ∨ ∃ d p, y.2.StillWaits n d ∧
      y.2.screen.presenter d.kind = some p ∧ y.2.screen.isReady n.row p.flag = false ∧
        z = (y.1, y.2.ask n p) := Session.handle_rendered_again hi hn now n
  rcases hz with ⟨hnone, he⟩ | ⟨d, p, h, hp, hready, he⟩
  · rw [he]
    exact ⟨rfl, rfl, fun _ => rfl, fun _ _ => rfl, .inl ⟨hnone, rfl⟩⟩
  · rw [he]
    exact ⟨rfl, rfl, y.2.presenter_ask n p, y.2.isReady_ask n p,
      .inr ⟨d, p, h, hp, hready, rfl⟩⟩

/-- Content that is reported without being there is asked for every time. -/
example :
    let s := Cast.troupe.notice "s"
    let c := Cast.troupe.notice "c"
    let drawn := [Request.send (.rendered c), .flush]
    let first := (Session.create {} {}).run ([.host (.register .headsUp 4), .bind, .send (.added s),
      .send (.added c), .host (.raise .headsUp s), .flush] ++ drawn)
    (first.run drawn).scene.screen.calls = first.scene.screen.calls ++ [.request "c" 4] := by
  decide +kernel

end AlertHandoff
