import AlertHandoff.Screen.Basic

/-! # News of a screen

The news of a screen are the changes in the feeds of its presenters that nobody has read yet.
Reading empties every feed.  A call adds at most the change it brings about: `mem_news_raise` and
its neighbours say which. -/

namespace AlertHandoff
namespace Screen

/-- The changes nobody has read yet, those of the first kind first. -/
def news (s : Screen) : List (Kind × Change) :=
  Kind.all.flatMap fun kind => ((s.presenter kind).elim [] (·.feed)).map (kind, ·)

/-- The screen once every feed has been read. -/
def read (s : Screen) : Screen :=
  { s with headsUp := s.headsUp.map (·.read), ambientPulse := s.ambientPulse.map (·.read) }

@[simp] theorem presenter_read (s : Screen) (k : Kind) :
    s.read.presenter k = (s.presenter k).map (·.read) := by
  cases k <;> rfl

@[simp] theorem isUp_read (s : Screen) (k : Kind) (key : String) :
    s.read.isUp k key = s.isUp k key := by
  cases h : s.presenter k <;> simp [isUp, h]

@[simp] theorem news_read (s : Screen) : s.read.news = [] := by
  cases h₁ : s.headsUp <;> cases h₂ : s.ambientPulse <;>
    simp [news, Kind.all, presenter, read, Presenter.read, h₁, h₂]

theorem mem_news {s : Screen} {kind : Kind} {c : Change} :
    (kind, c) ∈ s.news ↔ ∃ p, s.presenter kind = some p ∧ c ∈ p.feed := by
  cases h₁ : s.headsUp <;> cases h₂ : s.ambientPulse <;> cases kind <;>
    simp [news, Kind.all, presenter, h₁, h₂]

theorem mem_news_callPresenter {s : Screen} {kind k : Kind} {call : Call}
    {effect : Presenter → Presenter} {c : Change}
    (h : (k, c) ∈ (s.callPresenter kind call effect).news) :
    (k, c) ∈ s.news ∨ (k = kind ∧ ∃ p, s.presenter kind = some p ∧ c ∈ (effect p).feed) := by
  obtain ⟨p, hp, hc⟩ := mem_news.1 h
  rw [presenter_callPresenter] at hp
  split at hp
  · next hk =>
    subst hk
    obtain ⟨q, hq, rfl⟩ := Option.map_eq_some_iff.1 hp
    exact .inr ⟨rfl, q, hq, hc⟩
  · exact .inl (mem_news.2 ⟨p, hp, hc⟩)

theorem mem_news_raise {s : Screen} {kind k : Kind} {n : Notice} {c : Change}
    (h : (k, c) ∈ (s.raise kind n).news) : (k, c) ∈ s.news ∨ c = .raised n := by
  rcases mem_news_callPresenter h with h | ⟨rfl, p, hp, hc⟩
  · exact .inl h
  · unfold Presenter.raise at hc
    split at hc
    · exact .inl (mem_news.2 ⟨p, hp, hc⟩)
    · rcases List.mem_append.1 hc with hc | hc
      · exact .inl (mem_news.2 ⟨p, hp, hc⟩)
      · exact .inr (List.mem_singleton.1 hc)

theorem mem_news_update {s : Screen} {kind k : Kind} {key : String} {alert : Bool} {c : Change}
    (h : (k, c) ∈ (s.update kind key alert).news) : (k, c) ∈ s.news := by
  rcases mem_news_callPresenter h with h | ⟨rfl, p, hp, hc⟩
  · exact h
  · unfold Presenter.update at hc
    split at hc <;> exact mem_news.2 ⟨p, hp, hc⟩

theorem mem_news_dismiss {s : Screen} {kind k : Kind} {key : String} {c : Change}
    (h : (k, c) ∈ (s.dismiss kind key).news) : (k, c) ∈ s.news ∨ c = .dismissed key := by
  rcases mem_news_callPresenter h with h | ⟨rfl, p, hp, hc⟩
  · exact .inl h
  · unfold Presenter.dismiss at hc
    split at hc
    · rcases List.mem_append.1 hc with hc | hc
      · exact .inl (mem_news.2 ⟨p, hp, hc⟩)
      · exact .inr (List.mem_singleton.1 hc)
    · exact .inl (mem_news.2 ⟨p, hp, hc⟩)

theorem mem_news_alert {s : Screen} {kind k : Kind} {n : Notice} {c : Change}
    (h : (k, c) ∈ (s.alert kind n).news) : (k, c) ∈ s.news ∨ c = .raised n := by
  unfold Screen.alert at h
  split at h
  · exact .inl (mem_news_update h)
  · exact mem_news_raise h

end Screen
end AlertHandoff
