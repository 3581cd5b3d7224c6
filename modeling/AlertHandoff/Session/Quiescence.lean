import AlertHandoff.Scene.Operation
import AlertHandoff.Screen.News

/-! # Handling news until there is none

Handling the changes that presenters report may itself change what is alerting.  `Scene.round`
reads every feed and handles what was in them; `Scene.quiesce` repeats that until the feeds are
empty.

Where the children of every group have the role of a child, two rounds are enough: a round only
moves alerts from summaries to children, and an alert that comes up on a child moves nothing.  So
`quiesce` allows one round for each change that is waiting and one more, and that bound is never
what stops it (`news_quiesce`). -/

namespace AlertHandoff
namespace Scene

/-- Reads every feed and handles the changes that were in them, in order. -/
def round (s : Scene) (g : Grouping) (now : Nat) : Scene :=
  s.screen.news.foldl (fun s x => s.handleChange g now x.1 x.2) { s with screen := s.screen.read }

/-- Repeats rounds until there is no news, at most the given number of times. -/
def rounds (g : Grouping) (now : Nat) : Nat → Scene → Scene
  | 0, s => s
  | n + 1, s => if s.screen.news.isEmpty then s else rounds g now n (s.round g now)

/-- Handles the changes that presenters report until there are none. -/
def quiesce (s : Scene) (g : Grouping) (now : Nat) : Scene :=
  rounds g now (s.screen.news.length + 1) s

theorem rounds_of_no_news {g : Grouping} {now : Nat} {s : Scene} (h : s.screen.news = []) :
    ∀ n, rounds g now n s = s
  | 0 => rfl
  | n + 1 => by simp [rounds, h]

theorem quiesce_of_no_news {s : Scene} (h : s.screen.news = []) (g : Grouping) (now : Nat) :
    s.quiesce g now = s :=
  rounds_of_no_news h _

/-! ### The bound -/

/-- No news is about a summary that came up, so that handling it moves nothing. -/
def Calm (s : Scene) : Prop := ∀ x ∈ s.screen.news, ∀ n, x.2 = .raised n → n.isHead = false

theorem handleChange_of_calm {c : Change} (h : ∀ n, c = .raised n → n.isHead = false)
    (s : Scene) (g : Grouping) (now : Nat) (kind : Kind) : s.handleChange g now kind c = s := by
  cases c with
  | dismissed key => rfl
  | raised n => simp [handleChange, h n rfl]

theorem mem_news_move {s : Scene} {n : Notice} {source : String} {kind k : Kind} {c : Change}
    (h : (k, c) ∈ (s.move n source kind).screen.news) :
    (k, c) ∈ s.screen.news ∨ c = .raised n := by
  simp only [move, write, deliver] at h
  split at h
  · exact .inl h
  · split at h
    · exact Screen.mem_news_alert h
    · simp only [defer] at h
      split at h <;> exact .inl h

/-- Where every child has the role of a child, moving an alert on adds no news about a summary
that came up. -/
theorem Calm.forward {s : Scene} (hs : s.Calm) {g : Grouping}
    (hg : ∀ group, ∀ n ∈ g.children group, n.role = .child) (now : Nat) (summary : Notice)
    (kind : Kind) : (s.forward g now summary kind).Calm := by
  unfold Scene.forward
  split
  · split
    · exact hs
    · next child hc =>
      have hm : (s.markForward summary child kind now).screen = s.screen := by
        unfold markForward
        split <;> rfl
      rintro ⟨k, c⟩ hx n rfl
      rcases mem_news_move hx with hx | hx
      · rcases Screen.mem_news_dismiss hx with hx | hx
        · rw [hm] at hx
          exact hs _ hx n rfl
        · cases hx
      · cases hx
        simp [Notice.isHead, hg _ _ (mem_children_of_heir? hc).1]
  · exact hs

theorem Calm.handleChange {s : Scene} (hs : s.Calm) {g : Grouping}
    (hg : ∀ group, ∀ n ∈ g.children group, n.role = .child) (now : Nat) (kind : Kind)
    (c : Change) : (s.handleChange g now kind c).Calm := by
  unfold Scene.handleChange
  split
  · exact hs
  · split
    · split
      · exact hs
      · split
        · exact hs.forward hg now _ kind
        · exact hs
    · exact hs

/-- After a round no news is about a summary that came up. -/
theorem calm_round (s : Scene) {g : Grouping}
    (hg : ∀ group, ∀ n ∈ g.children group, n.role = .child) (now : Nat) :
    (s.round g now).Calm := by
  unfold round
  generalize s.screen.news = xs
  suffices h : ∀ t : Scene, t.Calm →
      (xs.foldl (fun s x => s.handleChange g now x.1 x.2) t).Calm from
    h _ (by simp [Calm])
  induction xs with
  | nil => exact fun t ht => ht
  | cons x xs ih => exact fun t ht => ih _ (ht.handleChange hg now x.1 x.2)

theorem round_of_calm {s : Scene} (hs : s.Calm) (g : Grouping) (now : Nat) :
    s.round g now = { s with screen := s.screen.read } := by
  unfold round
  unfold Calm at hs
  generalize s.screen.news = xs at hs
  generalize ({ s with screen := s.screen.read } : Scene) = t
  induction xs generalizing t with
  | nil => rfl
  | cons x xs ih =>
    rw [List.foldl_cons, handleChange_of_calm (hs x (by simp)),
      ih (fun y hy => hs y (by simp [hy]))]

/-- **The bound never stops it**: where every child has the role of a child, all news has been
handled in the end. -/
theorem news_quiesce (s : Scene) {g : Grouping}
    (hg : ∀ group, ∀ n ∈ g.children group, n.role = .child) (now : Nat) :
    (s.quiesce g now).screen.news = [] := by
  cases hn : s.screen.news with
  | nil => rw [quiesce_of_no_news hn, hn]
  | cons x xs =>
    have hc : ((s.round g now).round g now).screen.news = [] := by
      rw [round_of_calm (calm_round s hg now)]
      simp
    simp only [quiesce, hn, List.length_cons, rounds, List.isEmpty_cons, Bool.false_eq_true,
      if_false]
    split
    · next h => exact List.isEmpty_iff.1 h
    · rw [rounds_of_no_news hc, hc]

end Scene
end AlertHandoff
