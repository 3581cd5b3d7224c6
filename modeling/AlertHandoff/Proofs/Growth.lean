import AlertHandoff.Proofs.Story
import AlertHandoff.Proofs.Unasked

/-! # When a scheduled alert falls due

An alert that was taken back from the only child of a group is scheduled for the summary, to come up
once the group has grown.  What brings it up is the end of the suppression (`Moment.Brings`), and
one event ends the suppression of a group in two ways: a second child enters, or the only one is
taken out.  In the first case the group has two children by then, in the second it has none, and the
alert comes up all the same: `scheduled_alerts_end_suppression`.  That there are alerts of the second
kind, `shrunken_group_gets_its_alert` says of a run in which the group never grows. -/

namespace AlertHandoff
namespace Roster
variable {r : Roster} {e : Event} {group : String} {c : Notice}

theorem suppression_of_mem_track {on : Bool} (h : .suppression group on ∈ (r.track e).1) :
    (r.next e).suppressed group = on ∧ r.suppressed group = !on := by
  rcases List.mem_append.mp h with h | h
  · rcases r.formed_cases e with ⟨hes, -⟩ | ⟨n, -, -, hes⟩ <;> rw [hes] at h
    · cases h
    · cases List.mem_singleton.mp h
  · obtain ⟨g, -, h⟩ := List.mem_flatMap.mp h
    rcases mem_changes_iff.mp h with ⟨he, hne⟩ | ⟨he, -⟩ <;> cases he
    exact ⟨rfl, Bool.eq_not_of_ne (Ne.symm hne)⟩

/-- The event enters a child of the group under another key than that of the notice. -/
def Joins (e : Event) (group : String) (c : Notice) : Prop :=
  ∃ n, e.entering? = some n ∧ n.group = group ∧ n.role = .child ∧ n.key ≠ c.key

theorem Indexed.two_children (h : r.Indexed) (hc : r.children group = [c])
    (he : Joins e group c) : ((r.next e).children group).length = 2 := by
  obtain ⟨n, hn, hgroup, hrole, hk⟩ := he
  have hne : c ≠ n := fun heq => hk (congrArg Notice.key heq.symm)
  have hentry : e.entryKey? ≠ some c.key := by
    rw [Event.entryKey?_of_entering hn]
    exact fun heq => hk (Option.some.inj heq)
  have hperm : ((r.next e).children group).Perm [c, n] := by
    rw [List.perm_ext_iff_of_nodup ((h.next e).nodup_children group) (by simp [hne])]
    intro x
    rw [h.mem_children_next_iff, hc, hn, List.mem_singleton, List.mem_cons, List.mem_singleton]
    constructor
    · rintro (⟨hx, -⟩ | ⟨-, hx⟩)
      · exact .inr (Option.some.inj hx).symm
      · exact .inl hx
    · rintro (rfl | rfl)
      · exact .inr ⟨hentry, rfl⟩
      · exact .inl ⟨rfl, hgroup, hrole⟩
  exact hperm.length_eq

/-- **How the number of children comes to differ from one**: another child joins, and there are two,
or the event is about the only child, and there is none. -/
theorem Indexed.children_of_ne_one (h : r.Indexed) (hc : r.children group = [c])
    (hne : ((r.next e).children group).length ≠ 1) :
    (Joins e group c ∧ ((r.next e).children group).length = 2) ∨
      (e.entryKey? = some c.key ∧ (r.next e).children group = []) := by
  have hmem : ∀ x, x ∈ (r.next e).children group ↔
      (e.entering? = some x ∧ x.group = group ∧ x.role = .child) ∨
        (e.entryKey? ≠ some x.key ∧ x = c) := by
    intro x
    rw [h.mem_children_next_iff, hc, List.mem_singleton]
  have hone : ∀ x, (∀ y, y ∈ (r.next e).children group ↔ y = x) → False := by
    intro x hx
    have hperm : ((r.next e).children group).Perm [x] := by
      rw [List.perm_ext_iff_of_nodup ((h.next e).nodup_children group) (by simp)]
      simpa using hx
    exact hne hperm.length_eq
  by_cases hentry : e.entryKey? = some c.key
  · -- The only child is taken out, and does not come in again.
    refine .inr ⟨hentry, List.eq_nil_iff_forall_not_mem.mpr fun x hx => hone x fun y => ?_⟩
    have honly : ∀ z, z ∈ (r.next e).children group → e.entering? = some z := by
      intro z hz
      rcases (hmem z).mp hz with ⟨hz, -⟩ | ⟨hz, rfl⟩
      · exact hz
      · exact absurd hentry hz
    constructor
    · intro hy
      exact Option.some.inj ((honly y hy).symm.trans (honly x hx))
    · rintro rfl
      exact hx
  · -- The only child stays, and there is another one.
    refine .inl ?_
    by_cases hjoins : Joins e group c
    · exact ⟨hjoins, h.two_children hc hjoins⟩
    · refine (hone c fun y => ?_).elim
      rw [hmem]
      constructor
      · rintro (⟨hy, hplace⟩ | ⟨-, hy⟩)
        · refine absurd ?_ hentry
          rw [Event.entryKey?_of_entering hy]
          by_contra hk
          exact hjoins ⟨y, hy, hplace.1, hplace.2, fun heq => hk (congrArg some heq)⟩
        · exact hy
      · rintro rfl
        exact .inr ⟨hentry, rfl⟩

end Roster

/-- One of the group events that the event brings about ends the suppression of the group, and in
the scene it meets the alert is due that was scheduled for the summary of the group. -/
def Moment.Brings (m : Moment) (s : Scene) (group : String) (n : Notice) (due : Schedule) : Prop :=
  ∃ before after, (m.roster.track m.event).1 = before ++ .suppression group false :: after ∧
    s = Session.replay m.next.grouping m.now m.after before ∧
    s.IsDue m.next.grouping group n due

/-- **A scheduled alert falls due as the suppression ends, whether the group grows or shrinks.**  In
every run of a new session, whenever an event brings up the alert that was scheduled for the summary
of a group, the alert is handed over to the summary, and before the event the group had just one
child.  Then either a second child joined the group by the event, and there are two now, or the event
took the only child out, and there is none. -/
theorem scheduled_alerts_end_suppression (settings : Settings) (clock : Clock)
    (rs : List Request) {m : Moment} (hm : m ∈ (Session.create settings clock).past rs)
    {s : Scene} {group : String} {n : Notice} {due : Schedule} (h : m.Brings s group n due) :
    s.handleGroup m.next.grouping m.now (.suppression group false) =
        (s.unschedule group).move n due.source due.kind ∧
      ∃ c, m.roster.children group = [c] ∧
        (2 ≤ (m.next.children group).length ↔ Roster.Joins m.event group c) ∧
        ((m.next.children group).length < 2 ↔ m.event.entryKey? = some c.key) ∧
        ((m.next.children group).length < 2 → m.next.children group = []) := by
  have hindexed := (Session.sound_of_mem_past settings clock rs m hm).indexed
  obtain ⟨before, after, htrack, -, hdue⟩ := h
  obtain ⟨hoff, hon⟩ := Roster.suppression_of_mem_track
    (show .suppression group false ∈ (m.roster.track m.event).1 by simp [htrack])
  refine ⟨Scene.handleSuppression_of_isDue hdue m.now, ?_⟩
  obtain ⟨-, hlength⟩ := Roster.suppressed_iff.mp hon
  obtain ⟨c, hc⟩ := List.length_eq_one_iff.mp hlength
  have hne : (m.next.children group).length ≠ 1 := by
    intro hlength
    have hsuppressed : m.next.suppressed group = true :=
      Roster.suppressed_iff.mpr ⟨⟨n, hdue.summary⟩, hlength⟩
    exact Bool.noConfusion (hsuppressed.symm.trans hoff)
  -- An event by which another child joins is not about the only child.
  have hother : Roster.Joins m.event group c → m.event.entryKey? ≠ some c.key := by
    rintro ⟨x, hx, -, -, hk⟩ hentry
    rw [Event.entryKey?_of_entering hx] at hentry
    exact hk (Option.some.inj hentry)
  refine ⟨c, hc, ?_⟩
  rcases hindexed.children_of_ne_one hc hne with ⟨hjoins, htwo⟩ | ⟨hentry, hnone⟩
  · have htwo : (m.next.children group).length = 2 := htwo
    exact ⟨iff_of_true (by omega) hjoins, iff_of_false (by omega) (hother hjoins), by omega⟩
  · have hnone : m.next.children group = [] := hnone
    have hzero : (m.next.children group).length = 0 := List.length_eq_zero_iff.mpr hnone
    exact ⟨iff_of_false (by omega) fun hjoins => hother hjoins hentry,
      iff_of_true (by omega) hentry, fun _ => hnone⟩

/-- The alert of `s` moves to its only child `c`.  As `d` is announced, it is taken back from `c` and
scheduled for `s`. -/
def expecting : List Request :=
  let s := Cast.troupe.notice "s"
  let c := Cast.troupe.notice "c"
  [.host (.register .headsUp 4), .bind, .host (.prepare "c" 4 true), .host (.prepare "s" 4 true),
    .send (.added s), .send (.added c), .host (.raise .headsUp s), .flush,
    .send (.announced (Cast.troupe.notice "d")), .flush]

/-- Then `d` is withdrawn, and `c` is removed as well. -/
def shrinking : List Request :=
  expecting ++ [.send (.removed (Cast.troupe.notice "d")), .flush,
    .send (.removed (Cast.troupe.notice "c")), .flush]

def growing : List Request := expecting ++ [.send (.added (Cast.troupe.notice "d")), .flush]

theorem shrunken_group_gets_its_alert :
    ∃ m ∈ (Session.create {} {}).past shrinking,
      m.Brings m.after "g" (Cast.troupe.notice "s") ⟨.headsUp, "c"⟩ ∧
        m.next.children "g" = [] ∧ m.after.screen.isUp .headsUp "s" = false ∧
        m.result.screen.isUp .headsUp "s" = true ∧
        m.result.arbiter.journal = [.moved "c" "s" .headsUp] := by
  refine ⟨((Session.create {} {}).past shrinking).getLast (by decide +kernel),
    List.getLast_mem _, ⟨[], [], ?_, rfl, ?_, ?_, ?_, ?_⟩, ?_, ?_, ?_, ?_⟩ <;>
    decide +kernel

theorem grown_group_gets_its_alert :
    ∃ m ∈ (Session.create {} {}).past growing,
      m.Brings m.after "g" (Cast.troupe.notice "s") ⟨.headsUp, "c"⟩ ∧
        ∃ c, m.roster.children "g" = [c] ∧ Roster.Joins m.event "g" c := by
  obtain ⟨m, hm, hgrown, hbrings⟩ : ∃ m ∈ (Session.create {} {}).past growing,
      2 ≤ (m.next.children "g").length ∧
        m.Brings m.after "g" (Cast.troupe.notice "s") ⟨.headsUp, "c"⟩ := by
    refine ⟨((Session.create {} {}).past growing).getLast (by decide +kernel),
      List.getLast_mem _, ?_, ⟨[], [], ?_, rfl, ?_, ?_, ?_, ?_⟩⟩ <;>
      decide +kernel
  obtain ⟨-, c, hc, hjoins, -⟩ := scheduled_alerts_end_suppression {} {} growing hm hbrings
  exact ⟨m, hm, hbrings, c, hc, hjoins.mp hgrown⟩

end AlertHandoff
