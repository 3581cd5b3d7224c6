import AlertHandoff.Roster
import AlertHandoff.Session.Quiescence

/-! # Handling news always ends

`Scene.Settles` is the loop that reads every feed and handles what was in them until nothing is
left, without a bound on the number of rounds.  It need not end for every grouping: a summary that
is listed as its own child could hand its alert to itself for ever.  The roster lists as children
only notices with the role of a child, so what the first round brings up concerns no summary, and
the second round only reads: `settling_ends`. -/

namespace AlertHandoff
namespace Scene

/-- Rounds that each find some news lead from the first scene to the second, which has none; there
are as many as the number says. -/
inductive Settles (g : Grouping) (now : Nat) : Nat → Scene → Scene → Prop
  | done {s : Scene} : s.screen.news = [] → Settles g now 0 s s
  | again {n : Nat} {s t : Scene} : s.screen.news ≠ [] → Settles g now n (s.round g now) t →
      Settles g now (n + 1) s t

variable {g : Grouping} {now : Nat} {s t u : Scene}

theorem Settles.news {n : Nat} (h : Settles g now n s t) : t.screen.news = [] := by
  induction h with
  | done hs => exact hs
  | again _ _ ih => exact ih

theorem Settles.unique {n m : Nat} (h : Settles g now n s t) (h' : Settles g now m s u) :
    m = n ∧ u = t := by
  induction h generalizing m u with
  | done hs =>
      cases h' with
      | done _ => exact ⟨rfl, rfl⟩
      | again hs' _ => exact absurd hs hs'
  | again hs _ ih =>
      cases h' with
      | done hs' => exact absurd hs' hs
      | again _ h' =>
          obtain ⟨rfl, rfl⟩ := ih h'
          exact ⟨rfl, rfl⟩

/-- As many rounds as are needed to settle, or more, lead to the settled scene. -/
theorem Settles.rounds_eq {n : Nat} (h : Settles g now n s t) :
    ∀ m, n ≤ m → rounds g now m s = t := by
  induction h with
  | done hs => exact fun m _ => rounds_of_no_news hs m
  | again hs _ ih =>
      intro m hm
      obtain ⟨m, rfl⟩ : ∃ k, m = k + 1 := ⟨m - 1, by omega⟩
      rw [rounds, if_neg (by simpa using hs)]
      exact ih m (by omega)

theorem settles_of_calm (hs : s.Calm) (g : Grouping) (now : Nat) :
    ∃ n ≤ 1, ∃ t, Settles g now n s t := by
  by_cases hn : s.screen.news = []
  · exact ⟨0, by omega, s, .done hn⟩
  · refine ⟨1, by omega, _, .again hn (.done ?_)⟩
    rw [round_of_calm hs]
    exact Screen.news_read s.screen

theorem exists_settles (hg : ∀ group, ∀ n ∈ g.children group, n.role = .child) (now : Nat)
    (s : Scene) : ∃ n ≤ 2, n ≤ s.screen.news.length + 1 ∧ ∃ t, Settles g now n s t := by
  by_cases hn : s.screen.news = []
  · exact ⟨0, by omega, by omega, s, .done hn⟩
  · obtain ⟨n, hle, t, ht⟩ := settles_of_calm (calm_round s hg now) g now
    have hpos : 0 < s.screen.news.length := List.length_pos_iff.mpr hn
    exact ⟨n + 1, by omega, by omega, t, .again hn ht⟩

theorem feed_of_no_news (hn : s.screen.news = []) {k : Kind} {p : Presenter}
    (hp : s.screen.presenter k = some p) : p.feed = [] := by
  rw [List.eq_nil_iff_forall_not_mem]
  intro c hc
  have hmem : (k, c) ∈ s.screen.news := Screen.mem_news.mpr ⟨p, hp, hc⟩
  rw [hn] at hmem
  cases hmem

theorem read_of_no_news (hn : s.screen.news = []) :
    ({ s with screen := s.screen.read } : Scene) = s := by
  have hmap : ∀ k, (s.screen.presenter k).map (·.read) = s.screen.presenter k := by
    intro k
    cases hp : s.screen.presenter k with
    | none => rfl
    | some p =>
        have hread : p.read = p := by
          unfold Presenter.read
          rw [← feed_of_no_news hn hp]
        rw [Option.map_some, hread]
  have hread : s.screen.read = s.screen := by
    unfold Screen.read
    rw [show s.screen.headsUp.map (·.read) = s.screen.headsUp from hmap .headsUp,
      show s.screen.ambientPulse.map (·.read) = s.screen.ambientPulse from hmap .ambientPulse]
  rw [hread]

/-- Where every child has the role of a child, handling news until there is none takes two rounds;
one that finds no news does nothing. -/
theorem quiesce_eq_round_round (s : Scene)
    (hg : ∀ group, ∀ n ∈ g.children group, n.role = .child) (now : Nat) :
    s.quiesce g now = (s.round g now).round g now := by
  have hidle : ∀ t : Scene, t.screen.news = [] → t.round g now = t := by
    intro t ht
    unfold Scene.round
    rw [ht]
    exact read_of_no_news ht
  cases hn : s.screen.news with
  | nil => rw [quiesce_of_no_news hn, hidle s hn, hidle s hn]
  | cons x xs =>
      have hc : ((s.round g now).round g now).screen.news = [] := by
        rw [round_of_calm (calm_round s hg now)]
        exact Screen.news_read _
      simp only [Scene.quiesce, hn, List.length_cons, rounds, List.isEmpty_cons, Bool.false_eq_true,
        if_false]
      split
      · next he => rw [hidle _ (List.isEmpty_iff.mp he)]
      · rw [rounds_of_no_news hc]

end Scene

/-- **Handling news always ends.**  With the groups of a roster, in every scene, whatever alerts the
host raised or took down before: the loop ends, in one way, after at most two rounds that find some
news; the scene it ends in is the one `quiesce` computes; a second round only reads the feeds, so it
calls no presenter and no row; and in the end no feed holds a change. -/
theorem settling_ends (r : Roster) (now : Nat) (s : Scene) :
    ∃ n ≤ 2, Scene.Settles r.grouping now n s (s.quiesce r.grouping now) ∧
      (∀ m t, Scene.Settles r.grouping now m s t → m = n ∧ t = s.quiesce r.grouping now) ∧
      (s.round r.grouping now).round r.grouping now =
        { s.round r.grouping now with screen := (s.round r.grouping now).screen.read } ∧
      ((s.round r.grouping now).round r.grouping now).screen.calls =
        (s.round r.grouping now).screen.calls ∧
      ∀ kind p, (s.quiesce r.grouping now).screen.presenter kind = some p → p.feed = [] := by
  have hread := Scene.round_of_calm (Scene.calm_round s r.role_of_mem_children now) r.grouping now
  obtain ⟨n, hle, hfuel, t, ht⟩ := Scene.exists_settles r.role_of_mem_children now s
  obtain rfl : s.quiesce r.grouping now = t := ht.rounds_eq _ hfuel
  refine ⟨n, hle, ht, fun m u hu => ht.unique hu, hread, ?_, ?_⟩
  · rw [hread]
    rfl
  · exact fun kind p hp => Scene.feed_of_no_news ht.news hp

end AlertHandoff
