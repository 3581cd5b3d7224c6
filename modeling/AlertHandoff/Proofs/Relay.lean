import AlertHandoff.Proofs.Course
import AlertHandoff.Proofs.Owner
import AlertHandoff.Proofs.Record
import AlertHandoff.Proofs.Voicing
import Mathlib.Data.List.Induction

/-! # Relaying the alert of a summary

An alert that comes up for the summary of a suppressed group is relayed to a child.  `Scene.Relays`
says under which conditions, and `Scene.Relayed` all that is done then.  One of the conditions is
that nobody is about to join the group.  The books have a list of these notices, but the condition
is about the events of which the arbiter was told: `Event.Announces` reads them from the latest one
backwards, and `Event.getElem?_announced` says that the list agrees with it.

`summary_alerts_are_relayed` puts this together: the alert is relayed under these conditions, and
otherwise nothing is done at all. -/

namespace AlertHandoff

/-- No child of a group has the key of the summary of the group. -/
def Grouping.Apart (g : Grouping) : Prop :=
  ∀ group summary, g.summary group = some summary → ∀ c ∈ g.children group, c.key ≠ summary.key

/-! ### Who is announced, by the events -/

namespace Event

/-- The event says whether the key is announced: it is from now on, or it is no longer. -/
def settles (key : String) : Event → Bool
  | .announced n | .added n | .removed n => n.key == key
  | .updated .. | .rendered _ => false

/-- The event says what the notice of the key is like, in case that it is announced. -/
def depicts (key : String) : Event → Bool
  | .announced n | .updated n _ => n.key == key
  | .added _ | .removed _ | .rendered _ => false

/-- Of the events that say whether the key is announced the latest one announces it, and of those
that say what its notice is like the latest one is about this notice. -/
structure Announces (es : List Event) (key : String) (n : Notice) : Prop where
  latest : ∃ m, es.reverse.find? (·.settles key) = some (.announced m)
  notice : ∃ e, es.reverse.find? (·.depicts key) = some e ∧ e.notice = n

variable {es : List Event} {e : Event} {key : String} {n : Notice}

theorem find?_concat (p : Event → Bool) (es : List Event) (e : Event) :
    (es ++ [e]).reverse.find? p = if p e then some e else es.reverse.find? p := by
  rw [List.reverse_append, List.reverse_singleton, List.singleton_append, List.find?_cons]
  cases p e <;> rfl

/-- Who is announced is depicted as well. -/
theorem exists_announces {m : Notice}
    (hm : es.reverse.find? (·.settles key) = some (.announced m)) : ∃ n, Announces es key n := by
  have hmem := List.mem_of_find?_eq_some hm
  have hkey : (Event.announced m).settles key = true := by simpa using List.find?_some hm
  have hsome : (es.reverse.find? (·.depicts key)).isSome = true :=
    List.find?_isSome.mpr ⟨.announced m, hmem, hkey⟩
  obtain ⟨e, he⟩ := Option.isSome_iff_exists.mp hsome
  exact ⟨e.notice, ⟨m, hm⟩, e, he, rfl⟩

theorem announces_concat_of_not (hs : e.settles key = false) (hd : e.depicts key = false) :
    Announces (es ++ [e]) key n ↔ Announces es key n := by
  have hlatest : (es ++ [e]).reverse.find? (·.settles key) = es.reverse.find? (·.settles key) := by
    rw [find?_concat, if_neg (by simp [hs])]
  have hnotice : (es ++ [e]).reverse.find? (·.depicts key) = es.reverse.find? (·.depicts key) := by
    rw [find?_concat, if_neg (by simp [hd])]
  constructor
  · rintro ⟨hl, hn⟩
    rw [hlatest] at hl
    rw [hnotice] at hn
    exact ⟨hl, hn⟩
  · rintro ⟨hl, hn⟩
    rw [← hlatest] at hl
    rw [← hnotice] at hn
    exact ⟨hl, hn⟩

theorem getElem?_listed (e : Event) (m : Keyed Notice) :
    (e.listed m)[e.notice.key]? = match e with
      | .announced n => some n
      | .added _ | .removed _ => none
      | .updated n _ => m[n.key]?.map fun _ => n
      | .rendered n => m[n.key]? := by
  cases e <;> simp [listed, notice]

theorem announces_updated {u : Notice} {previous : Membership} :
    Announces (es ++ [.updated u previous]) u.key n ↔ (∃ x, Announces es u.key x) ∧ n = u := by
  have hsettles : (Event.updated u previous).settles u.key = false := rfl
  have hdepicts : (Event.updated u previous).depicts u.key = true := by simp [depicts]
  constructor
  · rintro ⟨⟨m, hm⟩, e, he, rfl⟩
    rw [find?_concat, hsettles] at hm
    rw [find?_concat, hdepicts] at he
    cases he
    exact ⟨exists_announces hm, rfl⟩
  · rintro ⟨⟨x, ⟨m, hm⟩, -⟩, rfl⟩
    refine ⟨⟨m, ?_⟩, .updated n previous, ?_, rfl⟩
    · rw [find?_concat, hsettles]
      exact hm
    · rw [find?_concat, hdepicts]
      rfl

theorem settles_of_ne (h : key ≠ e.notice.key) : e.settles key = false ∧ e.depicts key = false := by
  have hne : e.notice.key ≠ key := Ne.symm h
  cases e <;> simp_all [settles, depicts, notice]

/-- **Who is announced goes back to the events.** -/
theorem getElem?_announced (es : List Event) (key : String) (n : Notice) :
    (es.foldl (fun m e => e.listed m) (∅ : Keyed Notice))[key]? = some n ↔ Announces es key n := by
  induction es using List.reverseRecOn generalizing n with
  | nil => exact ⟨fun h => by simp at h, fun ⟨⟨m, hm⟩, _⟩ => by cases hm⟩
  | append_singleton es e ih =>
      rw [List.foldl_append, List.foldl_cons, List.foldl_nil]
      by_cases hkey : key = e.notice.key
      · subst hkey
        rw [getElem?_listed]
        cases e with
        | announced k =>
            have hs : (Event.announced k).settles k.key = true := by simp [settles]
            constructor
            · rintro ⟨⟩
              exact ⟨⟨n, by rw [find?_concat]; exact if_pos hs⟩, .announced n,
                by rw [find?_concat]; exact if_pos hs, rfl⟩
            · rintro ⟨-, e, he, rfl⟩
              rw [find?_concat] at he
              rw [← Option.some.inj ((if_pos hs).symm.trans he)]
              rfl
        | added k | removed k =>
            have hs : ∀ e : Event, (e = .added k ∨ e = .removed k) → e.settles k.key = true := by
              rintro e (rfl | rfl) <;> simp [settles]
            constructor
            · rintro ⟨⟩
            · rintro ⟨⟨m, hm⟩, -⟩
              rw [find?_concat] at hm
              have he := Option.some.inj ((if_pos (hs _ (by simp))).symm.trans hm)
              cases he
        | updated k previous =>
            show (_ : Option Notice) = some n ↔ Announces _ k.key n
            rw [announces_updated, Option.map_eq_some_iff, exists_and_right]
            exact and_congr (exists_congr fun x => ih x) eq_comm
        | rendered k =>
            rw [announces_concat_of_not rfl rfl]
            exact ih n
      · obtain ⟨hs, hd⟩ := settles_of_ne hkey
        rw [getElem?_listed_of_ne hkey, announces_concat_of_not hs hd]
        exact ih n
end Event

namespace Deed

/-- The event of which the arbiter is told by the deed. -/
def told? : Deed → Option Event
  | .perform _ _ (.event e) => some e
  | .perform _ _ (.removed n) => some (.removed n)
  | _ => none

end Deed

namespace Scene
variable {s t : Scene} {g : Grouping} {now : Nat} {kind : Kind} {n summary child : Notice}

theorem announced_act (s : Scene) (d : Deed) :
    (s.act d).arbiter.announced =
      d.told?.elim s.arbiter.announced fun e => e.listed s.arbiter.announced := by
  cases d with
  | read | arrange screen | report => rfl
  | perform g now o =>
      cases o with
      | event e => exact (s.within_handleEvent g now e).announced
      | groupEvent e =>
          cases e with
          | formed group | dissolved group => rfl
          | suppression group on => exact (s.within_suppression g now group on).announced
      | suppression group on => exact (s.within_suppression g now group on).announced
      | change kind c => exact (s.within_handleChange g now kind c).announced
      | rendered n => exact (s.within_rendered n).announced
      | removed n | regrouped n => rfl
      | quiet on => exact Arbiter.announced_setQuiet s.arbiter on

theorem announced_course : ∀ (ds : List Deed) (s : Scene),
    (s.course ds).arbiter.announced =
      (ds.filterMap Deed.told?).foldl (fun m e => e.listed m) s.arbiter.announced
  | [], _ => rfl
  | d :: ds, s => by
      have hd := announced_course ds (s.act d)
      rw [announced_act] at hd
      show ((s.act d).course ds).arbiter.announced = _
      rw [hd]
      cases h : d.told? <;> simp [h]

/-! ### When an alert is relayed, and to whom -/

/-- An alert that came up on the kind for a notice is relayed: quiet mode is off; the notice is the
summary of its group, by its role and by its key; the group is suppressed; the summary is up; nobody
is about to join the group, by the events so far; and the child is the first one that takes the
alerts of the summary. -/
structure Relays (es : List Event) (s : Scene) (g : Grouping) (kind : Kind)
    (n summary child : Notice) : Prop where
  awake : s.arbiter.quiet = false
  head : n.role = .summary
  suppressed : g.suppressed n.group = true
  current : g.summary n.group = some summary
  key : summary.key = n.key
  up : s.screen.isUp kind summary.key = true
  joined : ∀ key m, Event.Announces es key m → m.role = .child → m.group = n.group →
    ∃ c ∈ g.children n.group, c.key = m.key
  heir : (g.children n.group).find? (·.policy.viaSummary) = some child

/-- These are the conditions under which handling the change moves the alert on. -/
theorem relays_iff {es : List Event} (hg : g.Coherent)
    (hes : ∀ (key : String) m, s.arbiter.announced[key]? = some m ↔ Event.Announces es key m) :
    Relays es s g kind n summary child ↔
      n.isHead = true ∧ g.suppressed n.group = true ∧ g.summary n.group = some summary ∧
        summary.key = n.key ∧ s.mayForward g summary kind = true ∧
        heir? g summary.group = some child := by
  have hjoin : s.arbiter.joining n.group (g.children n.group) = [] ↔
      ∀ key m, Event.Announces es key m → m.role = .child → m.group = n.group →
        ∃ c ∈ g.children n.group, c.key = m.key := by
    rw [Arbiter.joining_eq_nil_iff]
    exact forall_congr' fun key => forall_congr' fun m => imp_congr (hes key m) Iff.rfl
  rw [mayForward_iff]
  constructor
  · rintro ⟨hq, hh, hsup, hs, hk, hu, hj, hc⟩
    rw [hg n.group summary hs]
    exact ⟨by simp [Notice.isHead, hh], hsup, hs, hk, ⟨hq, hsup, hu, hjoin.mpr hj⟩, hc⟩
  · rintro ⟨hh, hsup, hs, hk, hmay, hc⟩
    rw [hg n.group summary hs] at hmay hc
    obtain ⟨hq, -, hu, hj⟩ := hmay
    exact ⟨hq, by simpa [Notice.isHead] using hh, hsup, hs, hk, hu, hjoin.mp hj, hc⟩

theorem handleChange_of_relays {es : List Event} (hg : g.Coherent)
    (hes : ∀ (key : String) m, s.arbiter.announced[key]? = some m ↔ Event.Announces es key m)
    (h : Relays es s g kind n summary child) (now : Nat) :
    s.handleChange g now kind (.raised n) =
      ((s.markForward summary child kind now).dismiss kind summary.key).move child summary.key
        kind := by
  obtain ⟨hh, hsup, hs, hk, hmay, hc⟩ := (relays_iff hg hes).mp h
  simp [handleChange, hh, hsup, hs, hk, forward, hmay, hc]

theorem handleChange_of_not_relays {es : List Event} (hg : g.Coherent)
    (hes : ∀ (key : String) m, s.arbiter.announced[key]? = some m ↔ Event.Announces es key m)
    (h : ¬∃ summary child, Relays es s g kind n summary child) (now : Nat) :
    s.handleChange g now kind (.raised n) = s := by
  dsimp only [handleChange]
  split
  · next hguard =>
    rw [Bool.and_eq_true] at hguard
    split
    · rfl
    · next summary hs =>
      split
      · next hk =>
        rcases s.forward_cases g now summary kind with ⟨he, -⟩ | ⟨child, hc, hmay, -⟩
        · exact he
        · exact absurd ⟨summary, child,
            (relays_iff hg hes).mpr ⟨hguard.1, hguard.2, hs, hk, hmay, hc⟩⟩ h
      · rfl
  · rfl

/-! ### What relaying does -/

/-- The child, whose content is ready, takes the alert now: it is updated if it is up, and comes up
otherwise; no move to it is left; and the move is written down. -/
structure TakesAlert (s : Scene) (kind : Kind) (p : Presenter) (summary child : Notice)
    (t : Scene) : Prop where
  presenter : t.screen.presenter kind =
    some (if s.screen.isUp kind child.key then (p.dismiss summary.key).update child.key true
      else (p.dismiss summary.key).raise child)
  pending : t.arbiter.pending = s.arbiter.pending.erase child.key
  journal : t.arbiter.journal = s.arbiter.journal ++ [.moved summary.key child.key kind]
  rows : t.screen.rows = s.screen.rows
  calls : t.screen.calls = s.screen.calls ++ [.dismiss kind summary.key,
    if s.screen.isUp kind child.key then .update kind child.key true else .raise kind child.key]

/-- The child, whose content is not ready, waits for it: a live move to it takes the place of an
earlier one; the content is asked for, if the settings say so; and what is put off is written
down. -/
structure WaitsForAlert (s : Scene) (kind : Kind) (p : Presenter) (summary child : Notice)
    (t : Scene) : Prop where
  presenter : t.screen.presenter kind = some (p.dismiss summary.key)
  pending : t.arbiter.pending = s.arbiter.pending.insert child.key
    { source := summary.key, kind := kind, membership := child.membership, isReversed := false }
  journal : t.arbiter.journal = s.arbiter.journal ++ [.deferred summary.key child.key kind]
  rows : t.screen.rows =
    if s.arbiter.settings.asksForContent then (s.screen.request child.row p.flag).rows
    else s.screen.rows
  calls : t.screen.calls = s.screen.calls ++ .dismiss kind summary.key ::
    if s.arbiter.settings.asksForContent then [.request child.row p.flag] else []

/-- The alert goes from the summary to the child, on the presenter of the kind, and nothing else
changes.  The moment is kept for a summary that alone may alert, unless the child is up already. -/
structure Relayed (s : Scene) (now : Nat) (kind : Kind) (p : Presenter) (summary child : Notice)
    (t : Scene) : Prop where
  settings : t.arbiter.settings = s.arbiter.settings
  quiet : t.arbiter.quiet = s.arbiter.quiet
  announced : t.arbiter.announced = s.arbiter.announced
  groups : t.arbiter.groups =
    if summary.policy.summaryOnly = true ∧ s.screen.isUp kind child.key = false then
      s.arbiter.groups.insert summary.group
        { s.arbiter.record summary.group with lastForward := some now }
    else s.arbiter.groups
  others : ∀ k, k ≠ kind → t.screen.presenter k = s.screen.presenter k
  up : ∀ k key, t.screen.isUp k key =
    if k = kind ∧ key = summary.key then false
    else s.screen.isUp k key ||
      (k == kind && key == child.key && s.screen.isReady child.row p.flag)
  outcome : if s.screen.isReady child.row p.flag then TakesAlert s kind p summary child t
    else WaitsForAlert s kind p summary child t

section delivery
variable {u : Scene} {p : Presenter} {source : String}

theorem move_of_ready (hp : s.screen.presenter kind = some p)
    (hready : s.screen.isReady n.row p.flag = true) (source : String) :
    s.move n source kind =
      { s.clearDeferral n.key with screen := s.screen.alert kind n }.write
        [.moved source n.key kind] := by
  have hshown : s.outcome n kind = .shown := by simp [outcome, hp, hready]
  rw [move, hshown, deliver_of_shown hshown]
  rfl

theorem move_of_not_ready (hp : s.screen.presenter kind = some p)
    (hready : s.screen.isReady n.row p.flag = false) (source : String) :
    s.move n source kind =
      (s.defer n source kind p.flag).write [.deferred source n.key kind] := by
  have hdeferred : s.outcome n kind = .deferred := by simp [outcome, hp, hready]
  simp [move, hdeferred, deliver, hp, hready, Outcome.actions]

theorem presenter_move_of_ne {k : Kind} (hk : k ≠ kind) (n : Notice) (source : String) :
    (s.move n source kind).screen.presenter k = s.screen.presenter k := by
  show (s.deliver n source kind).screen.presenter k = _
  cases ho : s.outcome n kind with
  | unavailable => rw [deliver_of_unavailable ho]
  | shown =>
      rw [deliver_of_shown ho]
      simp only [Screen.alert]
      split <;> simp [Screen.update, Screen.raise, Screen.presenter_callPresenter, hk]
  | deferred =>
      obtain ⟨p, -, hd⟩ := deliver_of_deferred ho source
      rw [hd, defer]
      split <;> rfl

variable (hp : s.screen.presenter kind = some p)
  (hscreen : u.screen = s.screen.dismiss kind summary.key)
  (hpending : u.arbiter.pending = s.arbiter.pending)
  (hjournal : u.arbiter.journal = s.arbiter.journal)

include hp hscreen in
theorem presenter_dismissed : u.screen.presenter kind = some (p.dismiss summary.key) := by
  simp [hscreen, Screen.dismiss, Screen.presenter_callPresenter, hp]

include hscreen in
theorem rows_dismissed : u.screen.rows = s.screen.rows := by simp [hscreen, Screen.dismiss]

include hp hscreen in
theorem calls_dismissed : u.screen.calls = s.screen.calls ++ [.dismiss kind summary.key] := by
  simp [hscreen, Screen.dismiss, Screen.calls_callPresenter, hp]

include hp hscreen hpending hjournal in
theorem takesAlert_move (hne : child.key ≠ summary.key)
    (hready : s.screen.isReady child.row p.flag = true) :
    TakesAlert s kind p summary child (u.move child summary.key kind) := by
  have hq := presenter_dismissed hp hscreen
  have hrows := rows_dismissed hscreen
  have hcalls := calls_dismissed hp hscreen
  have hup : u.screen.isUp kind child.key = s.screen.isUp kind child.key := by
    simp [hscreen, hne]
  have hready' : u.screen.isReady child.row (p.dismiss summary.key).flag = true := by
    simpa [Screen.isReady, hrows] using hready
  rw [move_of_ready hq hready']
  refine ⟨?_, by rw [← hpending]; rfl, by rw [← hjournal]; rfl, ?_, ?_⟩
  · show (u.screen.alert kind child).presenter kind = _
    unfold Screen.alert
    rw [hup]
    split <;> simp [Screen.update, Screen.raise, Screen.presenter_callPresenter, hq]
  · show (u.screen.alert kind child).rows = _
    rw [← hrows]
    unfold Screen.alert
    split <;> simp [Screen.update, Screen.raise]
  · show (u.screen.alert kind child).calls = _
    rw [Screen.calls_alert (by rw [hq]; rfl), hcalls, hup, List.append_assoc]
    rfl

include hp hscreen hpending hjournal in
theorem waitsForAlert_move (hsettings : u.arbiter.settings = s.arbiter.settings)
    (hready : s.screen.isReady child.row p.flag = false) :
    WaitsForAlert s kind p summary child (u.move child summary.key kind) := by
  have hq := presenter_dismissed hp hscreen
  have hrows := rows_dismissed hscreen
  have hcalls := calls_dismissed hp hscreen
  have hready' : u.screen.isReady child.row (p.dismiss summary.key).flag = false := by
    simpa [Screen.isReady, hrows] using hready
  rw [move_of_not_ready hq hready']
  refine ⟨?_, by rw [← hpending]; rfl, by rw [← hjournal]; rfl, ?_, ?_⟩
  · rw [← hq]
    simp only [write, defer]
    split <;> rfl
  · simp only [write, defer, hsettings, Presenter.flag_dismiss]
    split
    · simp [Screen.request, Screen.setRow, hrows]
    · exact hrows
  · simp only [write, defer, hsettings, Presenter.flag_dismiss]
    split <;> simp [Screen.request, hcalls]

end delivery

/-- **What relaying does**, to a child that has not the key of the summary. -/
theorem relayed_move {p : Presenter} (hp : s.screen.presenter kind = some p)
    (hne : child.key ≠ summary.key) (now : Nat) :
    Relayed s now kind p summary child
      (((s.markForward summary child kind now).dismiss kind summary.key).move child summary.key
        kind) := by
  -- The scene once the summary has been dismissed.
  generalize hu : (s.markForward summary child kind now).dismiss kind summary.key = u
  have hscreen : u.screen = s.screen.dismiss kind summary.key := by
    rw [← hu, ← screen_markForward s summary child kind now]
    rfl
  have hbooks : u.arbiter = (s.markForward summary child kind now).arbiter := by
    rw [← hu]
    rfl
  rw [arbiter_markForward] at hbooks
  have hdeliver := u.arbiter_deliver child summary.key kind
  have hready : (u.outcome child kind == .shown) = s.screen.isReady child.row p.flag := by
    simp only [outcome, presenter_dismissed hp hscreen, Screen.isReady, rows_dismissed hscreen,
      Presenter.flag_dismiss]
    cases (s.screen.rows child.row).isReady p.flag <;> rfl
  refine ⟨?settings, ?quiet, ?announced, ?groups, ?others, ?up, ?outcome⟩
  case settings | quiet | announced | groups =>
    simp only [move, write, Arbiter.write, hdeliver, hbooks]
  case others =>
    intro k hk
    rw [presenter_move_of_ne hk, hscreen, Screen.dismiss, Screen.presenter_callPresenter, if_neg hk]
  case up =>
    intro k key
    have hup := u.isUp_deliver child summary.key kind k key
    rw [hready, hscreen, Screen.isUp_dismiss] at hup
    rw [move, write, hup]
    by_cases hsum : k = kind ∧ key = summary.key
    · obtain ⟨rfl, rfl⟩ := hsum
      simp [Ne.symm hne]
    · have hother : (k == kind && key == summary.key) = false := by simpa using hsum
      rw [if_neg hsum, hother, Bool.not_false, Bool.true_and]
  case outcome =>
    split
    · next hr => exact takesAlert_move hp hscreen (by rw [hbooks]) (by rw [hbooks]) hne hr
    · next hr =>
      exact waitsForAlert_move hp hscreen (by rw [hbooks]) (by rw [hbooks]) (by rw [hbooks])
        (by simpa using hr)

end Scene

/-- **The alert of a summary is relayed exactly when it should be, with exactly this effect.**  Take
an arbiter with any past, and a grouping in which every summary is in its group and has a key of its
own.  To be told that an alert came up on a kind changes anything just if the alert is relayed to
some child, and then all that changes is what relaying it does. -/
theorem summary_alerts_are_relayed (settings : Settings) (screen : Screen) (past : List Deed)
    {g : Grouping} (hg : g.Coherent) (hapart : g.Apart) (now : Nat) (kind : Kind) (n : Notice) :
    let s := ({ arbiter := { settings }, screen } : Scene).course past
    let events := past.filterMap Deed.told?
    let t := s.perform g now (.change kind (.raised n))
    (t ≠ s ↔ ∃ summary child, Scene.Relays events s g kind n summary child) ∧
      ∀ summary child, Scene.Relays events s g kind n summary child →
        ∃ p, s.screen.presenter kind = some p ∧ Scene.Relayed s now kind p summary child t := by
  intro s events t
  have hes : ∀ (key : String) m, s.arbiter.announced[key]? = some m ↔
      Event.Announces events key m := by
    intro key m
    rw [← Event.getElem?_announced, Scene.announced_course]
  have heffect : ∀ summary child, Scene.Relays events s g kind n summary child →
      ∃ p, s.screen.presenter kind = some p ∧ Scene.Relayed s now kind p summary child t := by
    intro summary child h
    obtain ⟨p, hp⟩ := Option.isSome_iff_exists.mp (Screen.isSome_presenter_of_isUp h.up)
    have hne := hapart n.group summary h.current child (List.mem_of_find?_eq_some h.heir)
    have hmove := Scene.relayed_move hp hne now
    rw [← Scene.handleChange_of_relays hg hes h now] at hmove
    exact ⟨p, hp, hmove⟩
  refine ⟨⟨fun hne => ?_, ?_⟩, heffect⟩
  · by_contra hno
    exact hne (Scene.handleChange_of_not_relays hg hes hno now)
  · rintro ⟨summary, child, h⟩ he
    obtain ⟨p, -, hrelayed⟩ := heffect summary child h
    -- The summary is up before, and not after.
    have hdown := hrelayed.up kind summary.key
    rw [if_pos ⟨rfl, rfl⟩, he, h.up] at hdown
    cases hdown

theorem Cast.coherent_duo : Cast.duo.Coherent := by
  intro group n hn
  by_cases h : group = "g" <;> simp_all [duo, Grouping.assign, Grouping.empty]
  subst hn
  rfl

theorem Cast.apart_duo : Cast.duo.Apart := by
  intro group summary hs c hc
  by_cases h : group = "g" <;> simp_all [duo, Grouping.assign, Grouping.empty]
  subst hs
  decide

/-- The summary `s` is up, and `d` was about to join its group. -/
def withdrawn : List Deed :=
  [.arrange { headsUp := some { flag := 4, up := {"s"} } },
    .perform .empty 0 (.event (.announced (Cast.troupe.notice "d"))),
    .perform .empty 0 (.removed (Cast.troupe.notice "d"))]

theorem relays_withdrawn (settings : Settings) :
    Scene.Relays (withdrawn.filterMap Deed.told?)
      (({ arbiter := { settings } } : Scene).course withdrawn) Cast.duo .headsUp
      (Cast.troupe.notice "s") (Cast.troupe.notice "s") (Cast.troupe.notice "c") where
  awake := rfl
  head := by decide
  suppressed := by decide
  current := by decide
  key := rfl
  up := by
    show Screen.isUp { headsUp := some { flag := 4, up := {"s"} } } .headsUp "s" = true
    decide
  joined key m hm := by
    rw [← Event.getElem?_announced] at hm
    simp [withdrawn, List.filterMap, Deed.told?, Event.listed] at hm
  heir := by decide

theorem alert_is_relayed_after_withdrawal :
    let s := ({} : Scene).course withdrawn
    let t := s.perform Cast.duo 7 (.change .headsUp (.raised (Cast.troupe.notice "s")))
    t ≠ s ∧ ∃ p, s.screen.presenter .headsUp = some p ∧
      Scene.Relayed s 7 .headsUp p (Cast.troupe.notice "s") (Cast.troupe.notice "c") t := by
  have h := relays_withdrawn {}
  obtain ⟨hiff, heffect⟩ := summary_alerts_are_relayed {} {} withdrawn Cast.coherent_duo
    Cast.apart_duo 7 .headsUp (Cast.troupe.notice "s")
  exact ⟨hiff.mpr ⟨_, _, h⟩, heffect _ _ h⟩

/-- If the settings say so, the move is put off and nothing is asked for. -/
theorem deferred_move_asks_for_nothing :
    let s := ({ arbiter := { settings := { asksForContent := false } } } : Scene).course withdrawn
    let t := s.perform Cast.duo 0 (.change .headsUp (.raised (Cast.troupe.notice "s")))
    Scene.Relays (withdrawn.filterMap Deed.told?) s Cast.duo .headsUp (Cast.troupe.notice "s")
        (Cast.troupe.notice "s") (Cast.troupe.notice "c") ∧
      s.screen.isReady "c" 4 = false ∧
      t.arbiter.pending["c"]? = some
        { source := "s", kind := .headsUp, membership := ⟨"g", .child⟩, isReversed := false } ∧
      t.screen.calls = [.dismiss .headsUp "s"] := by
  intro s t
  exact ⟨relays_withdrawn _, by decide, by decide +kernel, by decide +kernel⟩

end AlertHandoff
