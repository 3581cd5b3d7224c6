import AlertHandoff.Proofs.Stands

/-! # The alert is with its owner

While a group is suppressed and no child is about to join it, the alert belongs on the only child,
and it is misplaced on the summary (`misplaced`).  The arbiter looks for a misplaced alert when one
comes up on the summary and when the suppression of the group begins.  Otherwise it overlooks that
one has become misplaced, and that happens in three ways (`Moment.overlooks`): the last child that
was about to join is removed, the summary alerts on a second kind when the suppression begins, or
another summary, which alerts already, takes the place of the summary of a suppressed group.

`misplaced_result_eq` says that an event misplaces an alert exactly if it is overlooked in one of
these ways. -/

namespace AlertHandoff

/-- The alert of a kind is on the summary of a suppressed group, although the child alerts through
the summary and no other child is about to join. -/
def misplaced (r : Roster) (s : Scene) (g : String) (kind : Kind) : Bool :=
  match r.summary g, r.children g with
  | some summary, [child] =>
    child.policy.viaSummary && (s.arbiter.joining g [child]).isEmpty &&
      s.screen.isUp kind summary.key
  | _, _ => false

theorem misplaced_iff {r : Roster} {s : Scene} {g : String} {kind : Kind} :
    misplaced r s g kind = true ↔
      ∃ summary child, r.summary g = some summary ∧ r.children g = [child] ∧
        child.policy.viaSummary = true ∧ s.arbiter.joining g [child] = [] ∧
        s.screen.isUp kind summary.key = true := by
  unfold misplaced
  split
  · next summary child hs hc => simp [hs, hc, List.isEmpty_iff, and_assoc]
  · next hne =>
    constructor
    · intro h
      cases h
    · rintro ⟨summary, child, hs, hc, -⟩
      exact absurd hc (hne summary child hs)

theorem suppressed_of_misplaced {r : Roster} {s : Scene} {g : String} {kind : Kind}
    (h : misplaced r s g kind = true) : r.suppressed g = true := by
  obtain ⟨summary, child, hs, hc, -⟩ := misplaced_iff.mp h
  simp [Roster.suppressed, hs, hc]

theorem misplaced_read (r : Roster) (s : Scene) (g : String) (kind : Kind) :
    misplaced r { s with screen := s.screen.read } g kind = misplaced r s g kind := by
  simp [misplaced]

/-! ### Children about to join -/

theorem Arbiter.joining_congr {a b : Arbiter} (h : a.announced = b.announced) (group : String)
    (known : List Notice) : a.joining group known = b.joining group known := by
  unfold Arbiter.joining
  rw [h]

theorem Arbiter.joining_eq_nil_iff {a : Arbiter} {group : String} {known : List Notice} :
    a.joining group known = [] ↔
      ∀ (key : String) n, a.announced[key]? = some n → n.role = .child → n.group = group →
        ∃ k ∈ known, k.key = n.key := by
  rw [List.eq_nil_iff_forall_not_mem]
  constructor
  · intro h key n hn hr hg
    have hmem := h n
    rw [Arbiter.mem_joining] at hmem
    refine Classical.byContradiction fun hno => hmem ⟨⟨key, hn⟩, hr, hg, ?_⟩
    exact fun k hk hkey => hno ⟨k, hk, hkey⟩
  · intro h n hn
    obtain ⟨⟨key, ha⟩, hr, hg, hne⟩ := Arbiter.mem_joining.mp hn
    obtain ⟨k, hk, hkey⟩ := h key n ha hr hg
    exact hne k hk hkey

/-! ### Moving the alert on -/

namespace Scene
variable {s : Scene} {g : Grouping} {summary child : Notice} {kind : Kind}

theorem isUp_forward (hm : s.mayForward g summary kind = true)
    (hc : heir? g summary.group = some child) (hne : summary.key ≠ child.key) (now : Nat) :
    (s.forward g now summary kind).screen.isUp kind summary.key = false := by
  rcases s.forward_cases g now summary kind with ⟨-, hnone⟩ | ⟨child', hc', -, he⟩
  · rw [hnone hm] at hc
    cases hc
  · rw [hc] at hc'
    cases hc'
    have hd : ((s.markForward summary child kind now).dismiss kind summary.key).screen.isUp kind
        summary.key = false := by
      simp [dismiss]
    have hu := isUp_deliver ((s.markForward summary child kind now).dismiss kind summary.key) child
      summary.key kind kind summary.key
    rw [hd] at hu
    rw [he]
    refine hu.trans ?_
    simp [hne]

end Scene

namespace Cast
variable {c : Cast} {r : Roster} {s t : Scene} {g : String} {kind : Kind} {P : Notice → Prop}

/-- An alert that work has misplaced was misplaced before, or it is reported that it came up. -/
theorem misplaced_of_within (hw : s.Within P t) (h : misplaced r t g kind = true) :
    misplaced r s g kind = true ∨ ∃ summary n, r.summary g = some summary ∧ P n ∧
      n.key = summary.key ∧ (kind, .raised n) ∈ t.screen.news := by
  obtain ⟨summary, child, hs, hc, hp, hj, hu⟩ := misplaced_iff.mp h
  rcases hw.up kind summary.key hu with hu | ⟨n, hn, hk, hnews⟩
  · rw [Arbiter.joining_congr hw.announced] at hj
    exact .inl (misplaced_iff.mpr ⟨summary, child, hs, hc, hp, hj, hu⟩)
  · exact .inr ⟨summary, n, hs, hn, hk, hnews⟩

theorem misplaced_forward (hr : c.Keeps r) {summary : Notice} (hs : r.summary g = some summary)
    (hq : s.arbiter.quiet = false) (h : misplaced r s g kind = true) (now : Nat) :
    misplaced r (s.forward r.grouping now summary kind) g kind = false := by
  have hsup : r.grouping.suppressed g = true := suppressed_of_misplaced h
  obtain ⟨summary', child, hs', hc, hp, hj, hu⟩ := misplaced_iff.mp h
  rw [hs] at hs'
  cases hs'
  have hg : summary.group = g := (hr.summary hs).2.2.1
  have hch : r.grouping.children g = [child] := hc
  have hheir : Scene.heir? r.grouping summary.group = some child := by
    simp [Scene.heir?, hg, hch, hp]
  have hmay : s.mayForward r.grouping summary kind = true := by
    simp [Scene.mayForward, hq, hg, hch, hsup, hu, hj]
  have hne : summary.key ≠ child.key := by
    have hmem : child ∈ r.children g := by
      rw [hc]
      exact List.mem_singleton_self child
    exact hr.summary_key_ne hs hmem
  have hdown := Scene.isUp_forward hmay hheir hne now
  rw [Bool.eq_false_iff]
  intro hm
  obtain ⟨summary', -, hs', -, -, -, hu'⟩ := misplaced_iff.mp hm
  rw [hs] at hs'
  cases hs'
  rw [hdown] at hu'
  cases hu'

theorem misplaced_handleChange (hr : c.Keeps r) {n summary : Notice} (hn : c.Admits n)
    (hs : r.summary g = some summary) (hk : n.key = summary.key)
    (hq : s.arbiter.quiet = false) (h : misplaced r s g kind = true) (now : Nat) :
    misplaced r (s.handleChange r.grouping now kind (.raised n)) g kind = false := by
  have hsup : r.grouping.suppressed g = true := suppressed_of_misplaced h
  obtain ⟨-, ha, hg, hrole⟩ := hr.summary hs
  have hng : n.group = g := (group_eq hn ha hk).trans hg
  have hhead : n.isHead = true := by
    simp [Notice.isHead, role_eq hn ha hk, hrole]
  have hsg : r.grouping.summary g = some summary := hs
  have he : s.handleChange r.grouping now kind (.raised n) =
      s.forward r.grouping now summary kind := by
    simp [Scene.handleChange, hhead, hng, hsup, hsg, hk]
  rw [he]
  exact misplaced_forward hr hs hq h now

/-- While news is handled, a misplaced alert is among the changes still to be handled. -/
structure Tidying (c : Cast) (r : Roster) (g : String) (kind : Kind) (due : List (Kind × Change))
    (s : Scene) : Prop where
  quiet : s.arbiter.quiet = false
  knows : c.Knows s
  admits : ∀ k n, (k, .raised n) ∈ due → c.Admits n
  reported : misplaced r s g kind = true → ∃ summary n, r.summary g = some summary ∧
    n.key = summary.key ∧ (kind, .raised n) ∈ due

theorem Tidying.handleChange (hr : c.Keeps r) {x : Kind × Change} {xs : List (Kind × Change)}
    (h : c.Tidying r g kind (x :: xs) s) (now : Nat) :
    c.Tidying r g kind xs (s.handleChange r.grouping now x.1 x.2) := by
  have hw := s.within_handleChange r.grouping now x.1 x.2
  refine ⟨hw.quiet.trans h.quiet, ?_, fun k n hn => h.admits k n (List.mem_cons_of_mem x hn), ?_⟩
  · exact h.knows.within hw fun n ⟨_, hn⟩ => hr.admits_of_mem_children hn
  · intro hm
    rcases misplaced_of_within hw hm with hs | ⟨summary, n, hsum, ⟨_, hn⟩, hk, -⟩
    · obtain ⟨summary, n, hsum, hk, hn⟩ := h.reported hs
      rcases List.mem_cons.mp hn with rfl | hn
      · have ha := h.admits kind n List.mem_cons_self
        have hdone := misplaced_handleChange hr ha hsum hk h.quiet hs now
        rw [hdone] at hm
        cases hm
      · exact ⟨summary, n, hsum, hk, hn⟩
    · exact absurd hk.symm (hr.summary_key_ne hsum hn)

/-- **Handling the news puts things right**: where a misplaced alert is in the news, no alert is
misplaced once the news has been handled. -/
theorem misplaced_quiesce (hr : c.Keeps r) (h : c.Tidying r g kind s.screen.news s) (now : Nat) :
    misplaced r (s.quiesce r.grouping now) g kind = false := by
  have hdone : c.Tidying r g kind [] (s.quiesce r.grouping now) := by
    refine Scene.quiesce_keeps _ now (fun _ _ _ ht => ht.handleChange hr now) ?_ ?_ h
    · intro due t ht
      refine ⟨ht.quiet, ht.knows.read, ht.admits, fun hm => ht.reported ?_⟩
      rw [misplaced_read] at hm
      exact hm
    · intro t ht
      refine ⟨ht.quiet, ht.knows, ht.knows.raised, fun hm => ?_⟩
      obtain ⟨_, _, -, -, hn⟩ := ht.reported hm
      cases hn
  rw [Bool.eq_false_iff]
  intro hm
  obtain ⟨_, _, -, -, hn⟩ := hdone.reported hm
  cases hn

theorem misplaced_quiesce_of_within (hr : c.Keeps r) (hs : c.Knows s) (hw : s.Within P t)
    (hp : ∀ n, P n → c.Admits n) (hq : s.arbiter.quiet = false)
    (h : misplaced r s g kind = false) (now : Nat) :
    misplaced r (t.quiesce r.grouping now) g kind = false := by
  refine misplaced_quiesce hr ⟨hw.quiet.trans hq, hs.within hw hp, (hs.within hw hp).raised, ?_⟩ now
  intro hm
  rcases misplaced_of_within hw hm with hm | ⟨summary, n, hsum, -, hk, hn⟩
  · rw [h] at hm
    cases hm
  · exact ⟨summary, n, hsum, hk, hn⟩

theorem misplaced_replay (hr : c.Keeps r) (hs : c.Knows s) (hn : s.screen.news = [])
    (hq : s.arbiter.quiet = false) (h : misplaced r s g kind = false) (now : Nat)
    (es : List GroupEvent) :
    misplaced r (Session.replay r.grouping now s es) g kind = false := by
  have hstep : ∀ e ∈ es, ∀ t, c.Knows t → t.screen.news = [] →
      (t.arbiter.quiet = false ∧ misplaced r t g kind = false) →
      ((t.handleGroup r.grouping now e).quiesce r.grouping now).arbiter.quiet = false ∧
        misplaced r ((t.handleGroup r.grouping now e).quiesce r.grouping now) g kind = false := by
    intro e _ t ht _ ⟨hq, hm⟩
    have hw := hr.within_handleGroup t now e
    refine ⟨?_, misplaced_quiesce_of_within hr ht hw (fun n => hr.admits_of_member) hq hm now⟩
    rw [(books_quiesce _ _ _).2.1, hw.quiet, hq]
  exact (replay_keeps hr now hs hn ⟨hq, h⟩ hstep).2.2.2

end Cast

/-! ### Overlooked alerts -/

namespace Moment

def withdraws (m : Moment) : Bool :=
  match m.event with
  | .removed n => m.roster.entries[n.key]?.isNone
  | _ => false

/-- The suppression of a group begins, and the first kind its summary alerts on is another. -/
def passesOver (m : Moment) (g : String) (kind : Kind) : Bool :=
  !m.roster.suppressed g &&
    (m.next.summary g).all fun summary => m.after.screen.kindUp? summary.key != some kind

def replaces (m : Moment) (g : String) : Bool :=
  m.roster.suppressed g && (m.next.summary g).map (·.key) != (m.roster.summary g).map (·.key)

/-- The alert of a kind is misplaced in a group once the arbiter has handled the event, and nothing
will make it look there. -/
def overlooks (m : Moment) (g : String) (kind : Kind) : Bool :=
  misplaced m.next m.after g kind && (m.withdraws || m.passesOver g kind || m.replaces g)

end Moment

namespace Cast
variable {c : Cast} {m : Moment} {g : String} {kind : Kind}

theorem child_key_eq {r : Roster} {e : Event} (h : c.Keeps r) (he : c.Admits e.notice)
    {a b : Notice} (ha : r.children g = [a]) (hb : (r.next e).children g = [b]) :
    a.key = b.key := by
  have hmem : ∀ x, x ∈ (r.next e).children g ↔ x = b := by simp [hb]
  have hold : ∀ x, x ∈ r.children g ↔ x = a := by simp [ha]
  have hb' := (mem_children_next h he).mp ((hmem b).mpr rfl)
  cases e with
  | announced n | rendered n => rw [(hold b).mp hb']
  | removed n => rw [(hold b).mp hb'.2]
  | added n | updated n previous =>
      dsimp only at hb'
      split at hb'
      · next hbn =>
        refine Classical.byContradiction fun hne => hne ?_
        have han : a.key ≠ n.key := by
          rw [← hbn]
          exact hne
        have ha' := (mem_children_next h he (m := a) (g := g)).mpr
          ((if_neg han).mpr ((hold a).mpr rfl))
        rw [(hmem a).mp ha']
      · rw [(hold b).mp hb']

theorem misplaced_of_next (h : c.Stands m) (hsup : m.roster.suppressed g = true)
    (hr : m.replaces g = false) {s : Scene} (hm : misplaced m.next s g kind = true) :
    misplaced m.roster s g kind = true := by
  obtain ⟨summary, child, hs, hc, hp, hj, hu⟩ := misplaced_iff.mp hm
  obtain ⟨⟨old, ho⟩, hl⟩ := Roster.suppressed_iff.mp hsup
  obtain ⟨child', hc'⟩ := List.length_eq_one_iff.mp hl
  have hkey : child'.key = child.key := child_key_eq h.keeps h.admits hc' hc
  have hold : old.key = summary.key := by
    simp only [Moment.replaces, hsup, hs, ho, Bool.true_and, Option.map_some,
      bne_eq_false_iff_eq, Option.some.injEq] at hr
    exact hr.symm
  have ha : c.Admits child := by
    apply h.next.admits_of_mem_children (g := g)
    rw [hc]
    exact List.mem_singleton_self child
  have ha' : c.Admits child' := by
    apply h.keeps.admits_of_mem_children (g := g)
    rw [hc']
    exact List.mem_singleton_self child'
  refine misplaced_iff.mpr ⟨old, child', ho, hc', ?_, ?_, ?_⟩
  · rw [ha'.2, hkey, ← ha.2]
    exact hp
  · refine Eq.trans ?_ hj
    unfold Arbiter.joining
    simp only [List.all_cons, List.all_nil, Bool.and_true, hkey]
  · rw [hold]
    exact hu

theorem joining_of_listing (h : c.Stands m) (hw : m.withdraws = false) {a b : Notice}
    (ha : m.roster.children g = [a]) (hb : m.next.children g = [b])
    (hj : (m.scene.listing m.event).arbiter.joining g [a] = []) :
    m.scene.arbiter.joining g [a] = [] := by
  have hkey : a.key = b.key := child_key_eq h.keeps h.admits ha hb
  rw [Arbiter.joining_eq_nil_iff] at hj ⊢
  intro key n hn hr hg
  obtain ⟨rfl, hadm⟩ := h.knows.announced key n hn
  have hlisted := h.knows.listing h.admits
  have hkept : ∀ n', (m.event.listed m.scene.arbiter.announced)[n.key]? = some n' →
      ∃ k ∈ [a], k.key = n.key := by
    intro n' hn'
    obtain ⟨hk, hadm'⟩ := hlisted.announced n.key n' hn'
    have hrole : n'.role = .child := (role_eq hadm' hadm hk).trans hr
    have hgroup : n'.group = g := (group_eq hadm' hadm hk).trans hg
    rw [← hk]
    exact hj n.key n' hn' hrole hgroup
  by_cases hother : n.key = m.event.notice.key
  · cases he : m.event with
    | rendered x => exact hkept n (by rw [he]; exact hn)
    | announced x =>
        have hx : x.key = n.key := by rw [hother, he]; rfl
        exact hkept x (by rw [he, ← hx]; simp [Event.listed])
    | updated x previous =>
        have hx : x.key = n.key := by rw [hother, he]; rfl
        exact hkept x (by rw [he]; simp [Event.listed, hn, hx])
    | added x =>
        have hx : x.key = n.key := by rw [hother, he]; rfl
        have hadmx : c.Admits (Event.added x).notice := by
          rw [← he]
          exact h.admits
        have hmem : x ∈ m.next.children g := by
          unfold Moment.next
          rw [he, mem_children_next h.keeps hadmx]
          have hgroup : x.group = g := (group_eq hadmx hadm hx).trans hg
          have hrole : x.role = .child := (role_eq hadmx hadm hx).trans hr
          exact (if_pos rfl).mpr ⟨rfl, hgroup, hrole⟩
        rw [hb, List.mem_singleton] at hmem
        exact ⟨a, List.mem_singleton_self a, by rw [hkey, ← hmem, hx]⟩
    | removed x =>
        have hx : x.key = n.key := by rw [hother, he]; rfl
        simp only [Moment.withdraws, he, Option.isNone_eq_false_iff,
          Option.isSome_iff_exists] at hw
        obtain ⟨y, hy⟩ := hw
        obtain ⟨hyk, hadmy⟩ := h.keeps.entry x.key y hy
        have hyn : y.key = n.key := hyk.trans hx
        have hmem : y ∈ m.roster.children g := by
          rw [h.keeps.mem_children, hyk]
          exact ⟨hy, (group_eq hadmy hadm hyn).trans hg, (role_eq hadmy hadm hyn).trans hr⟩
        rw [ha, List.mem_singleton] at hmem
        exact ⟨a, List.mem_singleton_self a, by rw [← hmem, hyn]⟩
  · exact hkept n ((Event.getElem?_listed_of_ne hother _).trans hn)

/-- Where nothing was misplaced, the arbiter's own handling of an event misplaces nothing in the
roster it was handled with. -/
theorem misplaced_after (h : c.Stands m) (hq : m.scene.arbiter.quiet = false)
    (hl : misplaced m.roster (m.scene.listing m.event) g kind = false) :
    misplaced m.roster m.after g kind = false := by
  refine misplaced_quiesce_of_within h.keeps (h.knows.listing h.admits)
    (m.scene.within_handleEvent m.roster.grouping m.now m.event) ?_ hq hl m.now
  rintro n (rfl | hn)
  · exact h.admits
  · exact h.keeps.admits_of_member (.inl hn)

/-- An alert that is misplaced in a group that was suppressed already was overlooked because a child
was withdrawn or the summary replaced. -/
theorem overlooks_of_suppressed (h : c.Stands m) (hq : m.scene.arbiter.quiet = false)
    (h₀ : misplaced m.roster m.scene g kind = false) (hsup : m.roster.suppressed g = true)
    (hm : misplaced m.next m.after g kind = true) :
    m.withdraws = true ∨ m.replaces g = true := by
  cases hw : m.withdraws with
  | true => exact .inl rfl
  | false =>
  cases hr : m.replaces g with
  | true => exact .inr rfl
  | false =>
      have hafter := misplaced_of_next h hsup hr hm
      have hlist : misplaced m.roster (m.scene.listing m.event) g kind = false := by
        rw [Bool.eq_false_iff]
        intro hl
        obtain ⟨summary, child, hs, hc, hp, hj, hu⟩ := misplaced_iff.mp hl
        obtain ⟨_, child', _, hc', _⟩ := misplaced_iff.mp hm
        have hj' := joining_of_listing h hw hc hc' hj
        have := misplaced_iff.mpr ⟨summary, child, hs, hc, hp, hj', hu⟩
        rw [h₀] at this
        cases this
      rw [misplaced_after h hq hlist] at hafter
      cases hafter

theorem group_eq_of_suppressed_ne (h : c.Stands m)
    (hne : m.next.suppressed g ≠ m.roster.suppressed g) : g = m.event.notice.group :=
  Classical.byContradiction fun hg => hne (suppressed_next_of_ne h.keeps h.admits hg)

theorem misplaced_result_of_stay (h : c.Stands m)
    (hstay : m.next.suppressed m.event.notice.group = m.roster.suppressed m.event.notice.group) :
    misplaced m.next m.result g kind = misplaced m.next m.after g kind := by
  obtain ⟨before, after, -, he⟩ := h.result_eq
  have hshift : shift m.roster m.next m.event.notice.group = [] := if_pos hstay
  rw [he, hshift]
  rfl

theorem misplaced_result_of_begin (h : c.Stands m) (h₀ : m.roster.suppressed g = false)
    (h₁ : m.next.suppressed g = true) (kind : Kind) :
    ∃ before, misplaced m.next m.result g kind =
      misplaced m.next ((((m.after.withRecords before).handleSuppression m.next.grouping m.now g
        true)).quiesce m.next.grouping m.now) g kind := by
  have hne : m.next.suppressed g ≠ m.roster.suppressed g := by
    rw [h₀, h₁]
    decide
  have hg := group_eq_of_suppressed_ne h hne
  subst hg
  obtain ⟨before, after, -, he⟩ := h.result_eq
  have hshift : shift m.roster m.next m.event.notice.group =
      [.suppression m.event.notice.group true] := by
    unfold shift
    rw [if_neg hne, h₁]
  refine ⟨before, ?_⟩
  rw [he, hshift]
  rfl

theorem handleSuppression_of_kindUp {s : Scene} {r : Grouping} {summary : Notice} (now : Nat)
    (hs : r.summary g = some summary) (hk : s.screen.kindUp? summary.key = some kind) :
    s.handleSuppression r now g true = s.forward r now summary kind := by
  simp [Scene.handleSuppression, hs, hk]

/-- If the summary alerts first of all on a kind, that alert moves when the suppression begins. -/
theorem misplaced_of_found (h : c.Stands m) (hq : m.scene.arbiter.quiet = false)
    (h₀ : m.roster.suppressed g = false) {summary : Notice} (hs : m.next.summary g = some summary)
    (hk : m.after.screen.kindUp? summary.key = some kind)
    (hm : misplaced m.next m.after g kind = true) :
    misplaced m.next m.result g kind = false := by
  obtain ⟨before, hres⟩ := misplaced_result_of_begin h h₀ (suppressed_of_misplaced hm) kind
  have hm' : misplaced m.next (m.after.withRecords before) g kind = true := hm
  have hq' : (m.after.withRecords before).arbiter.quiet = false := (books_after m).2.1.trans hq
  have hknows := h.knows_withRecords before
  have he := handleSuppression_of_kindUp (r := m.next.grouping)
    (s := m.after.withRecords before) m.now hs hk
  have hdone := misplaced_forward h.next hs hq' hm' m.now
  have hw := (m.after.withRecords before).within_forward m.next.grouping m.now summary kind
  have hknows' := hknows.within hw fun n hn => h.next.admits_of_mem_children hn
  rw [hres, he]
  refine misplaced_quiesce h.next ⟨hw.quiet.trans hq', hknows', hknows'.raised, ?_⟩ m.now
  intro hm
  rw [hdone] at hm
  cases hm

end Cast

namespace Scene

theorem isUp_quiesce_of_calm {s : Scene} (hs : s.Calm) (g : Grouping) (now : Nat) (k : Kind)
    (key : String) : (s.quiesce g now).screen.isUp k key = s.screen.isUp k key := by
  cases hn : s.screen.news with
  | nil => rw [quiesce_of_no_news hn]
  | cons x xs =>
      have hr : (s.round g now).screen.news = [] := by
        rw [round_of_calm hs]
        exact Screen.news_read s.screen
      simp only [quiesce, hn, List.length_cons, rounds, List.isEmpty_cons, Bool.false_eq_true,
        if_false]
      split
      · rw [round_of_calm hs]
        exact Screen.isUp_read s.screen k key
      · next he => simp [hr] at he

theorem isUp_forward_of_ne {s : Scene} {k kind : Kind} {key : String} {summary : Notice}
    (hne : k ≠ kind ∨ key ≠ summary.key) (hu : s.screen.isUp k key = true) (g : Grouping)
    (now : Nat) : (s.forward g now summary kind).screen.isUp k key = true := by
  rcases s.forward_cases g now summary kind with ⟨he, -⟩ | ⟨child, -, -, he⟩
  · rw [he]
    exact hu
  · have hm := screen_markForward s summary child kind now
    have hd : ((s.markForward summary child kind now).dismiss kind summary.key).screen.isUp k key =
        true := by
      rcases hne with hne | hne <;> simp [dismiss, hm, hu, hne]
    have hdel := isUp_deliver ((s.markForward summary child kind now).dismiss kind summary.key)
      child summary.key kind k key
    rw [hd, Bool.true_or] at hdel
    rw [he]
    exact hdel

end Scene

namespace Cast
variable {c : Cast} {m : Moment} {g : String} {kind : Kind}

/-- If the summary alerts first of all on another kind, the alert stays where it is. -/
theorem misplaced_of_passed (h : c.Stands m) (h₀ : m.roster.suppressed g = false)
    {summary : Notice} (hs : m.next.summary g = some summary)
    (hk : m.after.screen.kindUp? summary.key ≠ some kind)
    (hm : misplaced m.next m.after g kind = true) :
    misplaced m.next m.result g kind = true := by
  obtain ⟨before, hres⟩ := misplaced_result_of_begin h h₀ (suppressed_of_misplaced hm) kind
  rw [hres]
  obtain ⟨summary', child, hs', hc, hp, hj, hu⟩ := misplaced_iff.mp hm
  rw [hs] at hs'
  cases hs'
  cases hkey : m.after.screen.kindUp? summary.key with
  | none =>
      have hno : m.after.screen.isUp kind summary.key = false := by
        have := List.find?_eq_none.mp hkey kind (Kind.mem_all kind)
        simpa using this
      rw [hno] at hu
      cases hu
  | some first =>
      have hne : kind ≠ first := by
        rintro rfl
        exact hk hkey
      have he := handleSuppression_of_kindUp (r := m.next.grouping)
        (s := m.after.withRecords before) m.now hs hkey
      rw [he]
      have hcalm : (m.after.withRecords before).Calm := by
        intro x hx
        have hx' : x ∈ m.after.screen.news := hx
        rw [h.news_after] at hx'
        cases hx'
      have hcalm' := hcalm.forward m.next.role_of_mem_children m.now summary first
      have hw := (m.after.withRecords before).within_forward m.next.grouping m.now summary first
      have hbooks := books_quiesce ((m.after.withRecords before).forward m.next.grouping m.now
        summary first) m.next.grouping m.now
      refine misplaced_iff.mpr ⟨summary, child, hs, hc, hp, ?_, ?_⟩
      · refine Eq.trans ?_ hj
        exact Arbiter.joining_congr (hbooks.2.2.trans hw.announced) g [child]
      · rw [Scene.isUp_quiesce_of_calm hcalm']
        exact Scene.isUp_forward_of_ne (s := m.after.withRecords before) (.inl hne) hu _ _

theorem next_of_withdraws (hw : m.withdraws = true) : m.next = m.roster := by
  unfold Moment.withdraws at hw
  split at hw
  · next n he =>
    rw [Option.isNone_iff_eq_none] at hw
    simp [Moment.next, he, Roster.next, Roster.drop, hw]
  · cases hw

theorem group_of_replaces (h : c.Stands m) (hr : m.replaces g = true) :
    g = m.event.notice.group := by
  refine Classical.byContradiction fun hne => ?_
  have hs : m.next.summary g = m.roster.summary g := summary_next_of_ne h.keeps h.admits hne
  simp [Moment.replaces, hs] at hr

theorem misplaced_of_unseen (h : c.Stands m) (h₁ : m.roster.suppressed g = true)
    (hu : m.withdraws = true ∨ m.replaces g = true)
    (hm : misplaced m.next m.after g kind = true) :
    misplaced m.next m.result g kind = true := by
  have hsup := suppressed_of_misplaced hm
  rw [misplaced_result_of_stay h, hm]
  rcases hu with hw | hr
  · rw [next_of_withdraws hw]
  · rw [← group_of_replaces h hr, hsup, h₁]

/-- **Exactly what is overlooked**: where an alert was not misplaced before an event, it is
misplaced after it if and only if the event overlooks it. -/
theorem misplaced_result_eq (h : c.Stands m) (hq : m.scene.arbiter.quiet = false)
    (h₀ : misplaced m.roster m.scene g kind = false) :
    misplaced m.next m.result g kind = m.overlooks g kind := by
  unfold Moment.overlooks
  cases hm : misplaced m.next m.after g kind with
  | false =>
      have hq' : m.after.arbiter.quiet = false := (books_after m).2.1.trans hq
      rw [Bool.false_and]
      exact misplaced_replay h.next h.knows_after h.news_after hq' hm m.now _
  | true =>
  rw [Bool.true_and]
  cases h₁ : m.roster.suppressed g with
  | true =>
      have hover := overlooks_of_suppressed h hq h₀ h₁ hm
      rw [misplaced_of_unseen h h₁ hover hm]
      rcases hover with hw | hr
      · simp [hw]
      · simp [hr]
  | false =>
      obtain ⟨summary, child, hs, -⟩ := misplaced_iff.mp hm
      have hw : m.withdraws = false := by
        rw [Bool.eq_false_iff]
        intro hw
        have hsup := suppressed_of_misplaced hm
        rw [next_of_withdraws hw, h₁] at hsup
        cases hsup
      by_cases hk : m.after.screen.kindUp? summary.key = some kind
      · rw [misplaced_of_found h hq h₁ hs hk hm]
        simp [hw, Moment.passesOver, Moment.replaces, h₁, hs, hk]
      · rw [misplaced_of_passed h h₁ hs hk hm]
        simp [Moment.passesOver, h₁, hs, hk]

end Cast

/-! ### Runs -/

namespace Session

/-- The host reads the feed that says that a misplaced alert came up, or an event that is handled
overlooks one. -/
def overlooks (s : Session) (g : String) (kind : Kind) : Request → Bool
  | .host (.drain k) => k == kind && s.roster.any fun r => misplaced r s.scene g kind
  | .flush => s.moments.any fun m => m.overlooks g kind
  | _ => false

/-- All notices are those of the cast, and quiet mode is off. -/
structure Awake (c : Cast) (s : Session) : Prop where
  speaks : c.Speaks s
  quiet : s.scene.arbiter.quiet = false

/-- Moreover, an alert that is misplaced is in the news. -/
structure Orderly (c : Cast) (g : String) (kind : Kind) (s : Session) : Prop extends Awake c s where
  tidying : ∀ r, s.roster = some r → c.Tidying r g kind s.scene.screen.news s.scene

variable {c : Cast} {g : String} {kind : Kind} {s : Session}

theorem awake_create (c : Cast) (settings : Settings) (clock : Clock) :
    Awake c (create settings clock) :=
  ⟨speaks_create c settings clock, rfl⟩

theorem orderly_create (c : Cast) (g : String) (kind : Kind) (settings : Settings)
    (clock : Clock) : Orderly c g kind (create settings clock) :=
  ⟨awake_create c settings clock, fun r hr => by cases hr⟩

theorem Awake.moments (h : Awake c s) {roster : Roster} (hr : s.roster = some roster) :
    (∀ m ∈ s.moments, c.Stands m ∧ m.scene.arbiter.quiet = false) ∧
      (s.flushed roster).2.arbiter.quiet = false := by
  have hk := moments_keep (P := fun _ x => x.arbiter.quiet = false) h.speaks hr
    ((Cast.books_quiesce _ _ _).2.1.trans h.quiet) fun m _ hs hq =>
      (Cast.books_result _).2.1.trans hq
  exact ⟨hk.1, hk.2.2.2⟩

theorem awake_step (h : Awake c s) {r : Request} (hr : ∀ n ∈ r.notices, c.Admits n)
    (hq : r ≠ .quiet true) : Awake c (s.step r).1 := by
  refine ⟨speaks_step h.speaks hr, ?_⟩
  cases r with
  | advance micros | close | host x => exact h.quiet
  | send e =>
      simp only [step, send]
      split <;> exact h.quiet
  | bind =>
      simp only [step, bind]
      split <;> exact h.quiet
  | quiet on =>
      have hon : on = false := by
        cases on with
        | false => rfl
        | true => exact absurd rfl hq
      exact (Arbiter.quiet_setQuiet _ on).trans hon
  | flush =>
      simp only [step]
      cases hro : s.roster with
      | none =>
          rw [flush_of_none hro]
          exact h.quiet
      | some roster =>
          rw [flush_of_some hro]
          exact (h.moments hro).2

/-- A call of the host misplaces an alert only by raising one, and hides one only by reading the
feed that reports it. -/
theorem tidying_host {r : Roster} {s : Scene} (h : c.Tidying r g kind s.screen.news s)
    {x : HostCall} (hk : c.Knows { s with screen := (s.screen.host x).1 })
    (hd : x = .drain kind → misplaced r s g kind = false) :
    c.Tidying r g kind (s.screen.host x).1.news { s with screen := (s.screen.host x).1 } := by
  refine ⟨h.quiet, hk, hk.raised, fun hm => ?_⟩
  obtain ⟨summary, child, hs, hc, hp, hj, hu⟩ := misplaced_iff.mp hm
  have hnew : (s.screen.host x).1.isUp kind summary.key = true := hu
  rcases isUp_host hnew with hold | ⟨n, -, hkey, hn⟩
  · have hm' : misplaced r s g kind = true :=
      misplaced_iff.mpr ⟨summary, child, hs, hc, hp, hj, hold⟩
    obtain ⟨summary', n, hs', hkey, hn⟩ := h.reported hm'
    refine ⟨summary', n, hs', hkey, mem_news_host ?_ ?_ hn⟩
    · rintro flag rfl
      unfold Screen.isUp at hnew
      rw [Screen.host_register_fst, if_pos rfl] at hnew
      simp [Presenter.isUp] at hnew
    · intro hx
      rw [hd hx] at hm'
      cases hm'
  · exact ⟨summary, n, hs, hkey, hn⟩

theorem misplaced_flushed (h : Orderly c g kind s) {roster : Roster} (hr : s.roster = some roster)
    (ho : s.overlooks g kind .flush = false) :
    misplaced (s.flushed roster).1 (s.flushed roster).2 g kind = false := by
  have h₀ : misplaced roster (s.scene.quiesce roster.grouping s.clock.now) g kind = false :=
    Cast.misplaced_quiesce (h.speaks.roster roster hr) (h.tidying roster hr) s.clock.now
  refine (moments_keep (P := fun r x => misplaced r x g kind = false) h.speaks hr h₀ ?_).2.2.2
  intro m hm hstands hmis
  have hq := ((h.toAwake.moments hr).1 m hm).2
  rw [Cast.misplaced_result_eq hstands hq hmis]
  simp only [overlooks, List.any_eq_false] at ho
  simpa using ho m hm

theorem orderly_step (h : Orderly c g kind s) {r : Request} (hr : ∀ n ∈ r.notices, c.Admits n)
    (hq : r ≠ .quiet true) (ho : s.overlooks g kind r = false) :
    Orderly c g kind (s.step r).1 := by
  have hs := awake_step h.toAwake hr hq
  refine ⟨hs, ?_⟩
  have hclear : ∀ r : Roster, ∀ x : Scene, x.arbiter.quiet = false → c.Knows x →
      misplaced r x g kind = false → c.Tidying r g kind x.screen.news x := by
    intro r x hq hk hm
    refine ⟨hq, hk, hk.raised, fun hm' => ?_⟩
    rw [hm] at hm'
    cases hm'
  cases r with
  | advance micros | close => exact h.tidying
  | host x =>
      refine fun r hr => tidying_host (h.tidying r hr) hs.speaks.knows ?_
      rintro rfl
      have hr' : s.roster = some r := hr
      simp only [overlooks, beq_self_eq_true, Bool.true_and, hr'] at ho
      exact ho
  | send e =>
      simp only [step, send]
      split <;> exact h.tidying
  | bind =>
      intro r hr
      simp only [step, bind] at hr ⊢
      split at hr
      · next hb =>
        rw [if_pos hb]
        exact h.tidying r hr
      · next hb =>
        rw [if_neg hb]
        cases hr
        exact hclear {} s.scene h.quiet h.speaks.knows rfl
  | quiet on =>
      have hon : on = false := by
        cases on with
        | false => rfl
        | true => exact absurd rfl hq
      have he : s.scene.arbiter.setQuiet on = s.scene.arbiter := by
        subst hon
        simp [Arbiter.setQuiet, h.quiet]
      simp only [step, he]
      exact h.tidying
  | flush =>
      intro r hr
      simp only [step] at hs hr ⊢
      cases hro : s.roster with
      | none =>
          rw [flush_of_none hro] at hr ⊢
          exact h.tidying r hr
      | some roster =>
          rw [flush_of_some hro] at hs hr ⊢
          cases hr
          exact hclear _ _ hs.quiet hs.speaks.knows (misplaced_flushed h hro ho)

end Session

/-- **The alert is with its owner.**  In a run in which every key keeps its group, role and policy
and quiet mode stays off: if nothing was overlooked for a group and a kind, then after every flush
the summary of the group does not alert on the kind, provided that the group is suppressed, its only
child alerts through the summary and no other child is about to join.  And an event misplaces the
alert of a group where it was not exactly if it overlooks it. -/
theorem alert_is_with_its_owner {c : Cast} {rs : List Request} (settings : Settings)
    (clock : Clock) (hc : ∀ r ∈ rs, ∀ n ∈ r.notices, c.Admits n) (hq : .quiet true ∉ rs) :
    let new := Session.create settings clock
    (∀ g kind, Session.Along (fun s r => s.overlooks g kind r = false) new (rs ++ [.flush]) →
      ∀ roster summary child, (new.run (rs ++ [.flush])).roster = some roster →
        roster.summary g = some summary → roster.children g = [child] →
        child.policy.viaSummary = true →
        (new.run (rs ++ [.flush])).scene.arbiter.joining g [child] = [] →
        (new.run (rs ++ [.flush])).scene.screen.isUp kind summary.key = false) ∧
      ∀ g kind, ∀ m ∈ (new.run rs).moments, misplaced m.roster m.scene g kind = false →
        misplaced m.next m.result g kind = m.overlooks g kind := by
  intro new
  have hclass : ∀ r ∈ rs, (∀ n ∈ r.notices, c.Admits n) ∧ r ≠ .quiet true := by
    intro r hr
    refine ⟨hc r hr, ?_⟩
    rintro rfl
    exact hq hr
  constructor
  · intro g kind ho roster summary child hro hs hch hp hj
    obtain ⟨ho, hflush, -⟩ := Session.along_append.mp ho
    have h : Session.Orderly c g kind (new.run rs) :=
      Session.Along.keeps (I := Session.Orderly c g kind)
        (fun s r hr hs => Session.orderly_step hs hr.2.1 hr.2.2 hr.1) rs
        (ho.and_mem hclass) (Session.orderly_create c g kind settings clock)
    rw [Session.run_append] at hro hj ⊢
    have hrun : (new.run rs).run [.flush] = (new.run rs).flush.1 := rfl
    rw [hrun] at hro hj ⊢
    cases hr : (new.run rs).roster with
    | none =>
        rw [Session.flush_of_none hr, hr] at hro
        cases hro
    | some before =>
        have hm := Session.misplaced_flushed h hr hflush
        rw [Session.flush_of_some hr] at hro hj ⊢
        cases hro
        rw [Bool.eq_false_iff] at hm ⊢
        exact fun hu => hm (misplaced_iff.mpr ⟨summary, child, hs, hch, hp, hj, hu⟩)
  · intro g kind m hm hmis
    have h : Session.Awake c (new.run rs) :=
      Session.Along.keeps (I := Session.Awake c) (fun s r hr hs => Session.awake_step hs hr.1 hr.2) rs
        (Session.along_of_mem hclass) (Session.awake_create c settings clock)
    cases hr : (new.run rs).roster with
    | none =>
        simp only [Session.moments, hr] at hm
        cases hm
    | some roster =>
        obtain ⟨hstands, hquiet⟩ := (h.moments hr).1 m hm
        exact Cast.misplaced_result_eq hstands hquiet hmis

/-- The summary `s` and the child `c` are added, and the host raises the alert of the summary. -/
def handover : List Request :=
  [.host (.register .headsUp 4), .bind, .send (.added (Cast.troupe.notice "s")),
    .send (.added (Cast.troupe.notice "c")), .flush, .host (.prepare "c" 4 true),
    .host (.raise .headsUp (Cast.troupe.notice "s"))]

theorem handover_is_with_its_owner :
    (∀ r ∈ handover, ∀ n ∈ r.notices, Cast.troupe.Admits n) ∧ .quiet true ∉ handover ∧
      ((Session.create {} {}).run (handover ++ [.flush])).scene.screen.isUp .headsUp "s" =
        false := by
  have hc : ∀ r ∈ handover, ∀ n ∈ r.notices, Cast.troupe.Admits n := by decide
  have hq : .quiet true ∉ handover := by decide
  refine ⟨hc, hq, ?_⟩
  exact (alert_is_with_its_owner {} {} hc hq).1 "g" .headsUp (by decide +kernel)
    ((({} : Roster).next (.added (Cast.troupe.notice "s"))).next (.added (Cast.troupe.notice "c")))
    (Cast.troupe.notice "s") (Cast.troupe.notice "c") (by decide +kernel) (by decide +kernel)
    (by decide +kernel) (by decide) (by decide +kernel)

/-- While `d` is about to join, the alert of the summary stays where it is; then `d` is removed. -/
def withdrawal : List Request :=
  [.host (.register .headsUp 4), .bind, .send (.added (Cast.troupe.notice "s")),
    .send (.added (Cast.troupe.notice "c")), .send (.announced (Cast.troupe.notice "d")), .flush,
    .host (.raise .headsUp (Cast.troupe.notice "s")), .flush,
    .send (.removed (Cast.troupe.notice "d")), .flush]

/-- Once `d` is removed the alert is misplaced, and flushing does not put that right. -/
theorem withdrawal_is_overlooked :
    ((Session.create {} {}).run withdrawal).roster.any (fun r =>
      misplaced r ((Session.create {} {}).run withdrawal).scene "g" .headsUp) = true := by
  decide +kernel

end AlertHandoff
