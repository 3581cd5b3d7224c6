import AlertHandoff.Proofs.Directory
import Mathlib.Data.List.Induction

/-! # The roster is read off the events

The roster is brought up to date event by event, and only the maps of the moment are kept.  But all
its answers can be read off the events themselves, from the latest one backwards: a notice is
tracked if an event entered it and no event since then entered or took out its key (`Tracked`), and
it is the head of its group if, besides, no event since then entered another summary of the group
(`Heads`).

What one event does to the answers (`Roster.entries_next_iff` and its neighbours) is what one event
more does to the readings (`latest_concat`), so that `roster_follows_the_events` is an induction over
the events.  The same is true of the answers that a directory keeps
(`Directory.reflects_following`). -/

namespace AlertHandoff

/-- One of the events has the first property, and none since then has the second. -/
def Latest (P Q : Event → Prop) (es : List Event) : Prop :=
  ∃ before e after, es = before ++ e :: after ∧ P e ∧ ∀ x ∈ after, ¬Q x

theorem not_latest_nil {P Q : Event → Prop} : ¬Latest P Q [] := by
  rintro ⟨before, e, after, he, -⟩
  simp at he

theorem latest_concat {P Q : Event → Prop} {es : List Event} {e : Event} :
    Latest P Q (es ++ [e]) ↔ P e ∨ (¬Q e ∧ Latest P Q es) := by
  constructor
  · rintro ⟨before, x, after, he, hx, hafter⟩
    rcases List.eq_nil_or_concat after with rfl | ⟨rest, y, rfl⟩
    · obtain ⟨-, hlast⟩ := List.append_inj' he rfl
      rw [List.singleton_inj.mp hlast]
      exact .inl hx
    · rw [List.concat_eq_append] at he hafter
      have he' : es ++ [e] = (before ++ x :: rest) ++ [y] := by simpa using he
      obtain ⟨hes, hlast⟩ := List.append_inj' he' rfl
      obtain rfl := List.singleton_inj.mp hlast
      refine .inr ⟨hafter e (by simp), before, x, rest, hes, hx, fun z hz => ?_⟩
      exact hafter z (List.mem_append_left _ hz)
  · rintro (hP | ⟨hQ, before, x, after, rfl, hx, hafter⟩)
    · exact ⟨es, e, [], rfl, hP, by simp⟩
    · refine ⟨before, x, after ++ [e], by simp, hx, fun y hy => ?_⟩
      rcases List.mem_append.mp hy with hy | hy
      · exact hafter y hy
      · rwa [List.mem_singleton.mp hy]

/-- An event entered the notice, and no event since then entered or took out its key. -/
def Tracked (es : List Event) (n : Notice) : Prop :=
  Latest (·.entering? = some n) (·.entryKey? = some n.key) es

theorem tracked_concat {es : List Event} {e : Event} {n : Notice} :
    Tracked (es ++ [e]) n ↔
      e.entering? = some n ∨ (e.entryKey? ≠ some n.key ∧ Tracked es n) :=
  latest_concat

/-- The notice is tracked as a child of the group. -/
def TrackedChild (es : List Event) (group : String) (n : Notice) : Prop :=
  Tracked es n ∧ n.group = group ∧ n.role = .child

/-- An event entered the notice as a summary of the group, and no event since then entered or took
out its key or entered a summary of the group. -/
def Heads (es : List Event) (group : String) (n : Notice) : Prop :=
  Latest (fun e => e.entering? = some n ∧ n.role = .summary ∧ n.group = group)
    (fun e => e.entryKey? = some n.key ∨ e.Crowns group) es

theorem heads_concat {es : List Event} {e : Event} {group : String} {n : Notice} :
    Heads (es ++ [e]) group n ↔
      (e.entering? = some n ∧ n.role = .summary ∧ n.group = group) ∨
        (¬(e.entryKey? = some n.key ∨ e.Crowns group) ∧ Heads es group n) :=
  latest_concat

namespace Roster

/-- The roster that has followed the events. -/
def following (es : List Event) : Roster := es.foldl next {}

theorem following_concat (es : List Event) (e : Event) :
    following (es ++ [e]) = (following es).next e := by
  simp [following]

theorem indexed_following (es : List Event) : (following es).Indexed := by
  induction es using List.reverseRecOn with
  | nil => exact indexed_empty
  | append_singleton es e ih =>
      rw [following_concat]
      exact ih.next e

theorem entries_following (es : List Event) (key : String) (n : Notice) :
    (following es).entries[key]? = some n ↔ Tracked es n ∧ n.key = key := by
  induction es using List.reverseRecOn with
  | nil => exact iff_of_false (by simp [following]) fun h => not_latest_nil h.1
  | append_singleton es e ih =>
      rw [following_concat, entries_next_iff, ih, tracked_concat]
      constructor
      · rintro (⟨he, hk⟩ | ⟨he, hn, rfl⟩)
        · exact ⟨.inl he, hk⟩
        · exact ⟨.inr ⟨he, hn⟩, rfl⟩
      · rintro ⟨he | ⟨he, hn⟩, rfl⟩
        · exact .inl ⟨he, rfl⟩
        · exact .inr ⟨he, hn, rfl⟩

theorem mem_children_following (es : List Event) (g : String) (n : Notice) :
    n ∈ (following es).children g ↔ TrackedChild es g n := by
  rw [(indexed_following es).mem_children, entries_following, TrackedChild]
  simp

theorem summary_following (es : List Event) (g : String) (n : Notice) :
    (following es).summary g = some n ↔ Heads es g n := by
  induction es using List.reverseRecOn with
  | nil =>
      refine iff_of_false (fun h => ?_) not_latest_nil
      simp [following, summary] at h
  | append_singleton es e ih =>
      rw [following_concat, (indexed_following es).summary_next_iff, ih, heads_concat, not_or,
        and_assoc]

end Roster

/-- A directory and a roster that have followed the same events agree. -/
theorem Directory.reflects_following (es : List Event) :
    (Directory.following es).Reflects (Roster.following es) (Roster.following es) := by
  induction es using List.reverseRecOn with
  | nil => exact Directory.reflects_empty
  | append_singleton es e ih =>
      have hconcat : Directory.following (es ++ [e]) = ((Directory.following es).observe e).2 := by
        simp [Directory.following]
      rw [hconcat, Roster.following_concat]
      exact (ih.observe (Roster.indexed_following es) e).2

/-- **The roster is a function of the events it has followed.**  For every list of events: the
notice tracked under a key is the one that was entered last, unless the key was taken out since
then.  The children of a group are the tracked children that name it, in increasing order of their
keys and each once.  Its summary is the latest one entered, unless something happened to its key
since then: an older one never comes back.  The groups are those that have a summary or a child, in
increasing order and each once, and a group is suppressed while it has a summary and exactly one
child.  A directory, which keeps the groups and changes only those that an event touches, gives the
same answers. -/
theorem roster_follows_the_events (es : List Event) :
    let r := Roster.following es
    (∀ (key : String) n, r.entries[key]? = some n ↔ Tracked es n ∧ n.key = key) ∧
      (∀ g, (∀ n, n ∈ r.children g ↔ TrackedChild es g n) ∧
        (r.children g).Pairwise (fun a b => compare a.key b.key = .lt) ∧
        (∀ n, r.summary g = some n ↔ Heads es g n) ∧
        (g ∈ r.groups ↔ (∃ n, Heads es g n) ∨ ∃ n, TrackedChild es g n) ∧
        (r.suppressed g = true ↔ (∃ n, Heads es g n) ∧ ∃! n, TrackedChild es g n)) ∧
      r.groups.Pairwise (compare · · = .lt) ∧ (Directory.following es).Answers r := by
  intro r
  have hr : r.Indexed := Roster.indexed_following es
  refine ⟨Roster.entries_following es, fun g => ?_, r.pairwise_groups,
    (Directory.reflects_following es).answers hr⟩
  have hchildren := Roster.mem_children_following es g
  have hsummary := Roster.summary_following es g
  refine ⟨hchildren, hr.ordered_children g, hsummary, ?_, ?_⟩
  · rw [hr.mem_groups, Roster.hasGroup_iff]
    constructor
    · rintro ⟨n, hn | hn⟩
      · exact .inl ⟨n, (hsummary n).mp hn⟩
      · exact .inr ⟨n, (hchildren n).mp hn⟩
    · rintro (⟨n, hn⟩ | ⟨n, hn⟩)
      · exact ⟨n, .inl ((hsummary n).mpr hn)⟩
      · exact ⟨n, .inr ((hchildren n).mpr hn)⟩
  · rw [Roster.suppressed_iff]
    refine and_congr (exists_congr fun n => hsummary n) ?_
    rw [List.length_eq_one_iff]
    constructor
    · rintro ⟨c, hc⟩
      refine ⟨c, (hchildren c).mp (by simp [r, hc]), fun n hn => ?_⟩
      have hn := (hchildren n).mpr hn
      rwa [hc, List.mem_singleton] at hn
    · rintro ⟨c, hc, honly⟩
      refine ⟨c, List.perm_singleton.mp ?_⟩
      rw [List.perm_ext_iff_of_nodup (hr.nodup_children g) (by simp)]
      intro n
      rw [List.mem_singleton]
      exact ⟨fun hn => honly n ((hchildren n).mp hn), fun hn => hn ▸ (hchildren c).mpr hc⟩

end AlertHandoff
