import AlertHandoff.Proofs.Origin

/-! # Deferrals describe their destination

The arbiter and the roster handle an event one after the other.  Still, where the events fit the
roster (`Moment.isRegular`), every deferral on record, taken back or not, is to a notice that the
roster tracks, and has the membership which that notice has (`Roster.Describes`).  So content that
is drawn for a notice as the roster knows it never finds that the notice has another place
(`deferrals_describe_the_roster`). -/

namespace AlertHandoff

/-- Every deferral is to a notice that the roster tracks, and has the membership of that notice. -/
def Roster.Describes (r : Roster) (s : Scene) : Prop :=
  ∀ (key : String) d, s.arbiter.pending[key]? = some d →
    ∃ n, r.entries[key]? = some n ∧ d.membership = n.membership

namespace Moment
variable {m : Moment}

/-- The event fits the roster: what is added is not tracked, and what is updated has the membership
that it is said to have had, if it is tracked. -/
def isRegular (m : Moment) : Bool :=
  match m.event with
  | .added n => m.roster.entries[n.key]?.isNone
  | .updated n previous => m.roster.entries[n.key]?.all (·.membership == previous)
  | .announced _ | .removed _ | .rendered _ => true

theorem membership_next (hr : m.isRegular = true) {key : String} {n : Notice}
    (hn : m.roster.entries[key]? = some n) (hv : m.deed.voids? ≠ some key) :
    ∃ n', m.next.entries[key]? = some n' ∧ n'.membership = n.membership := by
  obtain ⟨now, r, s, e⟩ := m
  have hnext : (r.next e).entries[key]? = _ := r.getElem?_entries_next e key
  show ∃ n', (r.next e).entries[key]? = some n' ∧ n'.membership = n.membership
  rw [hnext]
  cases e with
  | announced x | rendered x => exact ⟨n, hn, rfl⟩
  | added x =>
      have hx : r.entries[x.key]? = none := by simpa [isRegular] using hr
      have hne : key ≠ x.key := by
        rintro rfl
        rw [hx] at hn
        cases hn
      exact ⟨n, (if_neg hne).trans hn, rfl⟩
  | removed x =>
      have hne : key ≠ x.key := fun hk => hv (congrArg some hk.symm)
      exact ⟨n, (if_neg hne).trans hn, rfl⟩
  | updated x previous =>
      dsimp only
      split
      · next hk =>
        subst hk
        have hp : n.membership = previous := by simpa [isRegular, hn] using hr
        have hx : previous = x.membership := by
          refine Decidable.not_not.mp fun hne => hv ?_
          simp [deed, Deed.voids?, hne]
        exact ⟨x, rfl, by rw [hp, hx]⟩
      · exact ⟨n, hn, rfl⟩

theorem Sound.describes_after (h : m.Sound) (hr : m.isRegular = true)
    (hd : m.roster.Describes m.scene) : m.next.Describes m.after := by
  intro key d hp
  rcases h.alters_after.cases hp with ⟨d₀, hp₀, hmade⟩ | ⟨n, rfl, ⟨group, hn, -⟩, hmade⟩
  · obtain ⟨n, hn, hm⟩ := hd key d₀ hp₀
    obtain ⟨n', hn', hm'⟩ := membership_next hr hn fun hv => (h.not_named hv hp).1 rfl
    exact ⟨n', hn', by rw [Deferral.membership_eq_of_asMade hmade, hm, hm']⟩
  · exact ⟨n, (h.next.member hn).1, Deferral.membership_eq_of_fresh hmade⟩

/-- **One event keeps it**: every deferral describes its destination. -/
theorem Sound.describes_result (h : m.Sound) (hr : m.isRegular = true)
    (hd : m.roster.Describes m.scene) : m.next.Describes m.result := by
  intro key d hp
  rcases h.alters_result.cases hp with ⟨d₀, hp₀, hmade⟩ | ⟨n, rfl, hn, hmade⟩
  · obtain ⟨n, hn, hm⟩ := h.describes_after hr hd key d₀ hp₀
    exact ⟨n, hn, (Deferral.membership_eq_of_asMade hmade).trans hm⟩
  · rcases hn with ⟨group, hn, -⟩ | hn
    · exact ⟨n, (h.next.member hn).1, Deferral.membership_eq_of_fresh hmade⟩
    · exact ⟨n, (h.entry_of_resumes hn).1, Deferral.membership_eq_of_fresh hmade⟩

end Moment

namespace Session

theorem lasting_describes : Lasting fun ms r s => (∀ m ∈ ms, m.isRegular = true) →
    r.Describes s ∧ ∀ m ∈ ms, m.roster.Describes m.scene ∧ m.next.Describes m.result where
  loses hl h hreg := ⟨fun key d hd => (h hreg).1 key d (hl key d hd), (h hreg).2⟩
  quiesce {ms r s} now hi h hreg := by
    refine ⟨fun key d hd => ?_, (h hreg).2⟩
    rcases (Scene.alters_quiesce hi.coherent s now).cases hd with
      ⟨d₀, hd₀, hmade⟩ | ⟨n, rfl, ⟨group, hn, -⟩, hmade⟩
    · obtain ⟨n, hn, hm⟩ := (h hreg).1 key d₀ hd₀
      exact ⟨n, hn, (Deferral.membership_eq_of_asMade hmade).trans hm⟩
    · exact ⟨n, (hi.member hn).1, Deferral.membership_eq_of_fresh hmade⟩
  moment {ms m} hm h hreg := by
    obtain ⟨hd, hpast⟩ := h fun x hx => hreg x (List.mem_append_left _ hx)
    have hres := hm.describes_result (hreg m (by simp)) hd
    refine ⟨hres, fun x hx => ?_⟩
    rcases List.mem_append.mp hx with hx | hx
    · exact hpast x hx
    · rw [List.mem_singleton.mp hx]
      exact ⟨hd, hres⟩

end Session

theorem Scene.not_regrouped {s : Scene} {n : Notice}
    (h : ∀ d, s.arbiter.pending[n.key]? = some d → d.membership = n.membership) (g : Grouping)
    (now : Nat) :
    .voided n.key .regrouped ∉ s.written (.perform g now (.event (.rendered n))) := by
  have hact : s.act (.perform g now (.event (.rendered n))) = s.rendered n := rfl
  rw [written, hact]
  cases hp : s.arbiter.pending[n.key]? with
  | none => simp [rendered_of_none hp]
  | some d =>
      have hjournal : (s.clearDeferral n.key).arbiter.journal = s.arbiter.journal := rfl
      have hfits : d.isReversed = false → d.fits n = true := fun hl => by
        simp [Deferral.fits, Deferral.isLive, hl, Membership.describes_iff, h d hp]
      unfold rendered
      rw [hp]
      dsimp only
      split
      · simp [write, hjournal]
      · next hr =>
        rw [hfits (by simpa using hr), Bool.not_true, if_neg Bool.false_ne_true]
        split
        · simp [write, hjournal]
        · split
          · simp [write, hjournal]
          · simp only [complete, write, arbiter_deliver, Arbiter.write, hjournal, List.drop_left]
            split <;> simp

/-- **Deferrals describe their destination.**  In every run whose events fit the roster they meet,
before and after every event and in the end, every deferral, taken back or not, is to a notice that
the roster tracks and has its membership.  So content drawn for a notice with the membership that
the roster knows never ends a move because the notice has another place. -/
theorem deferrals_describe_the_roster (settings : Settings) (clock : Clock) (rs : List Request)
    (h : ∀ m ∈ (Session.create settings clock).past rs, m.isRegular = true) :
    let s := (Session.create settings clock).run rs
    s.table.Describes s.scene ∧
      ∀ m ∈ (Session.create settings clock).past rs,
        m.roster.Describes m.scene ∧ m.next.Describes m.result ∧
          ∀ n old, m.event = .rendered n → m.roster.entries[n.key]? = some old →
            old.membership = n.membership →
              .voided n.key .regrouped ∉ m.scene.written m.deed := by
  have hstart : ({} : Roster).Describes { arbiter := { settings } } := by
    intro key d hd
    simp at hd
  obtain ⟨hend, hpast⟩ :=
    Session.past_induction Session.lasting_describes settings clock (by simpa using hstart) rs h
  refine ⟨hend, fun m hm => ⟨(hpast m hm).1, (hpast m hm).2, ?_⟩⟩
  intro n old he hold hmem
  rw [Moment.deed, he]
  refine Scene.not_regrouped (fun d hd => ?_) m.roster.grouping m.now
  obtain ⟨n', hn', hd'⟩ := (hpast m hm).1 n.key d hd
  rw [hold] at hn'
  cases hn'
  exact hd'.trans hmem

/-- The alert of a summary waits for the content of its only child, which is not there yet when the
child is said to be drawn: the deferral that is made once more is the same. -/
theorem waiting_child_is_described :
    let policy : Policy := { scope := .summary }
    let summary : Notice := { key := "s", group := "g", role := .summary, policy, row := "s" }
    let child : Notice := { key := "c", group := "g", role := .child, policy, row := "c" }
    let rs := [.host (.register .headsUp 4), .bind, .host (.raise .headsUp summary),
      .send (.added summary), .send (.added child), .send (.rendered child), .flush]
    let s := (Session.create {} {}).run rs
    (∀ m ∈ (Session.create {} {}).past rs, m.isRegular = true) ∧
      s.scene.arbiter.pending["c"]? = some (Deferral.fresh child "s" .headsUp) ∧
      s.table.Describes s.scene := by
  intro policy summary child rs s
  have hregular : ∀ m ∈ (Session.create {} {}).past rs, m.isRegular = true := by decide +kernel
  exact ⟨hregular, by decide +kernel, (deferrals_describe_the_roster {} {} rs hregular).1⟩

end AlertHandoff
