import AlertHandoff.Proofs.Tracked

/-! # The group events tell the whole story

Whoever has no roster can follow the groups from the group events alone: a group that is formed
exists and is not suppressed, a change of suppression says how it is from then on, and a group that
is dissolved is gone.  `GroupEvent.tell` keeps such an account, from group to suppression.

`GroupEvent.Fits` says which event makes sense to someone with a given account: only a group of
which nothing is known is formed, only the other suppression is news, and only a group that is known
and not suppressed is dissolved.  For one event of a notice, the group events are those of the groups
it touches, one group after the other (`Roster.tell_touched`), and all other groups stay as they
were (`Roster.Indexed.standing_next`).  So the account is right after every event:
`group_events_tell_the_groups`. -/

namespace AlertHandoff

namespace GroupEvent

/-- The groups and their suppression after an event, for one who knows of them from the events. -/
def tell (account : Keyed Bool) : GroupEvent → Keyed Bool
  | .formed group => account.insert group false
  | .suppression group on => account.insert group on
  | .dissolved group => account.erase group

/-- The event makes sense to one who knows the groups and their suppression so far. -/
def Fits (account : Keyed Bool) : GroupEvent → Prop
  | .formed group => account[group]? = none
  | .suppression group on => account[group]? = some !on
  | .dissolved group => account[group]? = some false

end GroupEvent

/-- Every event makes sense to one who was told the events before it. -/
def WellTold (account : Keyed Bool) (es : List GroupEvent) : Prop :=
  ∀ before e after, es = before ++ e :: after → e.Fits (before.foldl GroupEvent.tell account)

theorem wellTold_nil (account : Keyed Bool) : WellTold account [] := by
  intro before e after h
  simp at h

theorem wellTold_cons {account : Keyed Bool} {e : GroupEvent} {es : List GroupEvent} :
    WellTold account (e :: es) ↔ e.Fits account ∧ WellTold (e.tell account) es := by
  constructor
  · intro h
    refine ⟨h [] e es rfl, fun before x after he => ?_⟩
    exact h (e :: before) x after (by rw [he]; rfl)
  · rintro ⟨he, hes⟩ before x after h
    cases before with
    | nil =>
        cases h
        exact he
    | cons y before =>
        obtain ⟨rfl, hrest⟩ := List.cons_eq_cons.mp h
        exact hes before x after hrest

theorem wellTold_append {account : Keyed Bool} {a b : List GroupEvent} :
    WellTold account (a ++ b) ↔
      WellTold account a ∧ WellTold (a.foldl GroupEvent.tell account) b := by
  induction a generalizing account with
  | nil => exact ⟨fun h => ⟨wellTold_nil account, h⟩, And.right⟩
  | cons e a ih =>
      rw [List.cons_append, wellTold_cons, wellTold_cons, ih, and_assoc]
      rfl

namespace Roster
variable {r before after : Roster} {e : Event} {g : String} {account : Keyed Bool}

/-! ### One group -/

/-- A group about which nothing is known exists neither before nor after an event; one that is known
exists before or after it, and is known as it was before. -/
def Awaits (before after : Roster) (account : Keyed Bool) (group : String) : Prop :=
  (before.hasGroup group = false ∧ after.hasGroup group = false ∧ account[group]? = none) ∨
    ((before.hasGroup group = true ∨ after.hasGroup group = true) ∧
      account[group]? = some (before.suppressed group))

theorem tell_suppression (after : Roster) (h : account[g]? = some (before.suppressed g)) :
    let es := if after.suppressed g = before.suppressed g then []
      else [GroupEvent.suppression g (after.suppressed g)]
    WellTold account es ∧ ∀ x : String, (es.foldl GroupEvent.tell account)[x]? =
      if x = g then some (after.suppressed g) else account[x]? := by
  intro es
  by_cases hs : after.suppressed g = before.suppressed g
  · have hes : es = [] := if_pos hs
    rw [hes]
    refine ⟨wellTold_nil account, fun x => ?_⟩
    split
    · next hx => rw [hx, hs, List.foldl_nil, h]
    · rfl
  · have hes : es = [.suppression g (after.suppressed g)] := if_neg hs
    rw [hes, wellTold_cons]
    refine ⟨⟨?_, wellTold_nil _⟩, fun x => ?_⟩
    · rw [GroupEvent.Fits, h, Bool.eq_not_of_ne (Ne.symm hs)]
    · simp only [List.foldl_cons, List.foldl_nil, GroupEvent.tell, Std.ExtTreeMap.getElem?_insert]
      by_cases hx : x = g
      · simp [hx]
      · simp [hx, Ne.symm hx]

/-- The events that say how one group differs make sense, and tell how the group is afterwards. -/
theorem tell_changes (h : before.Awaits after account g) :
    WellTold account (before.changes after g) ∧
      ∀ x : String, ((before.changes after g).foldl GroupEvent.tell account)[x]? =
        if x = g then after.standing g else account[x]? := by
  rcases h with ⟨hbefore, hafter, hnone⟩ | ⟨hexists, hknown⟩
  · rw [changes_of_not_hasGroup hbefore hafter]
    refine ⟨wellTold_nil account, fun x => ?_⟩
    split
    · next hx => rw [hx, standing_of_not_hasGroup hafter, List.foldl_nil, hnone]
    · rfl
  · obtain ⟨htold, hlook⟩ := tell_suppression after hknown
    unfold changes
    rw [wellTold_append, List.foldl_append]
    generalize (if after.suppressed g = before.suppressed g then []
      else [GroupEvent.suppression g (after.suppressed g)]).foldl GroupEvent.tell account = known
      at hlook ⊢
    cases hafter : after.hasGroup g with
    | true =>
        simp only [Bool.not_true, Bool.and_false, Bool.false_eq_true, if_false, List.foldl_nil]
        refine ⟨⟨htold, wellTold_nil known⟩, fun x => ?_⟩
        rw [hlook, standing_of_hasGroup hafter]
    | false =>
        have hbefore : before.hasGroup g = true := hexists.resolve_right (by simp [hafter])
        simp only [hbefore, Bool.not_false, Bool.and_true, if_true, List.foldl_cons, List.foldl_nil]
        refine ⟨⟨htold, wellTold_cons.mpr ⟨?_, wellTold_nil _⟩⟩, fun x => ?_⟩
        · rw [GroupEvent.Fits, hlook, if_pos rfl, suppressed_of_not_hasGroup hafter]
        · rw [GroupEvent.tell, Std.ExtTreeMap.getElem?_erase, hlook,
            standing_of_not_hasGroup hafter]
          by_cases hx : x = g
          · simp [hx]
          · simp [hx, Ne.symm hx]

/-! ### One event -/

theorem tell_touched : ∀ {gs : List String} {account : Keyed Bool}, gs.Nodup →
    (∀ g ∈ gs, before.Awaits after account g) →
      WellTold account (gs.flatMap (before.changes after)) ∧
        ∀ x : String, ((gs.flatMap (before.changes after)).foldl GroupEvent.tell account)[x]? =
          if x ∈ gs then after.standing x else account[x]?
  | [], account, _, _ => ⟨wellTold_nil account, fun x => by simp⟩
  | g :: gs, account, hnodup, h => by
      obtain ⟨hnot, hgs⟩ := List.nodup_cons.mp hnodup
      obtain ⟨htold, hlook⟩ := tell_changes (h g List.mem_cons_self)
      rw [List.flatMap_cons, wellTold_append, List.foldl_append]
      generalize (before.changes after g).foldl GroupEvent.tell account = known at hlook ⊢
      -- The groups that are still to come are known as before.
      have hknown : ∀ x ∈ gs, before.Awaits after known x := by
        intro x hx
        have hne : x ≠ g := fun he => hnot (he ▸ hx)
        unfold Awaits
        rw [hlook x, if_neg hne]
        exact h x (List.mem_cons_of_mem g hx)
      obtain ⟨hrest, hlookrest⟩ := tell_touched hgs hknown
      refine ⟨⟨htold, hrest⟩, fun x => ?_⟩
      rw [hlookrest, hlook]
      by_cases hx : x = g
      · subst hx
        simp [hnot]
      · simp [hx]

/-- **The group events of one event** make sense to one who knows the groups, and tell how they are
afterwards. -/
theorem Indexed.tell_track (h : r.Indexed) (e : Event)
    (hknown : ∀ x : String, account[x]? = r.standing x) :
    WellTold account (r.track e).1 ∧
      ∀ x : String, ((r.track e).1.foldl GroupEvent.tell account)[x]? = (r.next e).standing x := by
  -- A group that did not exist and is not formed does not exist afterwards.
  have hafter : ∀ x, r.hasGroup x = false → (∀ n, e.entering? = some n → n.group ≠ x) →
      (r.next e).hasGroup x = false := by
    intro x hno hne
    by_contra hyes
    obtain ⟨m, hm⟩ := hasGroup_iff.mp (by simpa using hyes)
    rcases h.member_of_next hm with hold | he
    · rw [hasGroup_iff.mpr ⟨m, hold⟩] at hno
      cases hno
    · exact hne m he ((h.next e).member hm).2
  have hstays : ∀ x, (∀ n, e.entering? = some n → r.hasGroup n.group = false → n.group ≠ x) →
      r.Awaits (r.next e) account x := by
    intro x hne
    cases hx : r.hasGroup x with
    | true => exact .inr ⟨.inl hx, by rw [hknown, standing_of_hasGroup hx]⟩
    | false =>
        refine .inl ⟨hx, hafter x hx fun n he hn => hne n he (hn ▸ hx) hn, ?_⟩
        rw [hknown, standing_of_not_hasGroup hx]
  have hformed : WellTold account (r.formed e) ∧
      (∀ x, r.Awaits (r.next e) ((r.formed e).foldl GroupEvent.tell account) x) ∧
        ∀ x ∉ r.touched e, ((r.formed e).foldl GroupEvent.tell account)[x]? = account[x]? := by
    rcases r.formed_cases e with ⟨hes, hold⟩ | ⟨n, he, hno, hes⟩
    · rw [hes]
      refine ⟨wellTold_nil account, fun x => hstays x fun n he hn => ?_, fun x _ => rfl⟩
      rw [hold n he] at hn
      cases hn
    · have hlook : ∀ x : String, (account.insert n.group false)[x]? =
          if x = n.group then some false else account[x]? := by
        intro x
        rw [Std.ExtTreeMap.getElem?_insert]
        by_cases hx : x = n.group
        · simp [hx]
        · simp [hx, Ne.symm hx]
      rw [hes]
      refine ⟨wellTold_cons.mpr ⟨?_, wellTold_nil _⟩, fun x => ?_, fun x hx => ?_⟩
      · rw [GroupEvent.Fits, hknown, standing_of_not_hasGroup hno]
      · show r.Awaits (r.next e) (account.insert n.group false) x
        by_cases hx : x = n.group
        · subst hx
          refine .inr ⟨.inr (hasGroup_iff.mpr ⟨n, h.member_next_of_entering he⟩), ?_⟩
          rw [hlook, if_pos rfl, suppressed_of_not_hasGroup hno]
        · unfold Awaits
          rw [hlook, if_neg hx]
          refine hstays x fun m hm _ => ?_
          rw [he] at hm
          cases hm
          exact Ne.symm hx
      · refine (hlook x).trans (if_neg fun hgroup => hx ?_)
        exact mem_touched_iff.mpr (.inl ⟨n, he, hgroup.symm⟩)
  obtain ⟨hfirst, hawaits, hsame⟩ := hformed
  obtain ⟨hrest, hlook⟩ := tell_touched (r.nodup_touched e) fun x _ => hawaits x
  rw [track, wellTold_append, List.foldl_append]
  refine ⟨⟨hfirst, hrest⟩, fun x => ?_⟩
  rw [hlook]
  split
  · rfl
  · next hx => rw [hsame x hx, hknown, h.standing_next hx]

/-! ### All events -/

/-- The group events that a list of events brings about, one after the other. -/
def story : Roster → List Event → List GroupEvent
  | _, [] => []
  | r, e :: es => (r.track e).1 ++ story (r.next e) es

theorem story_append : ∀ (r : Roster) (a b : List Event),
    r.story (a ++ b) = r.story a ++ (a.foldl next r).story b
  | _, [], _ => rfl
  | r, e :: a, b => by
      simp only [List.cons_append, story, story_append, List.append_assoc, List.foldl_cons]

theorem tell_story (es : List Event) :
    WellTold ∅ (story {} es) ∧
      ∀ x : String, ((story {} es).foldl GroupEvent.tell ∅)[x]? = (following es).standing x := by
  induction es using List.reverseRecOn with
  | nil =>
      refine ⟨wellTold_nil ∅, fun x => ?_⟩
      rw [show following [] = {} from rfl, standing_of_not_hasGroup (hasGroup_empty x)]
      simp [story]
  | append_singleton es e ih =>
      have hlast : story {} (es ++ [e]) = story {} es ++ ((following es).track e).1 := by
        simp [story_append, story, following]
      rw [hlast, wellTold_append, List.foldl_append, following_concat]
      obtain ⟨htrack, hlook⟩ := (indexed_following es).tell_track e ih.2
      exact ⟨⟨ih.1, htrack⟩, hlook⟩

end Roster

/-- **The group events tell the whole story.**  For every list of events, after each of them: every
group event makes sense to one who was told those before it.  A group is formed only if it does not
exist, and is not suppressed then; a change of suppression is one, of a group that exists; and a
group is dissolved only if it exists and was told not to be suppressed.  Whoever was told them all
knows which groups the roster has, and which of them are suppressed.  They are the group events that
a directory tells as it is brought up to date. -/
theorem group_events_tell_the_groups (es : List Event) (e : Event) :
    let told := Roster.story {} es
    let account := told.foldl GroupEvent.tell ∅
    let r := Roster.following es
    Roster.story {} (es ++ [e]) = told ++ (r.track e).1 ∧
      ((Directory.following es).observe e).1 = (r.track e).1 ∧ WellTold ∅ told ∧
      account.keys = r.groups ∧
      ∀ group : String, account[group]? =
        if r.hasGroup group then some (r.suppressed group) else none := by
  intro told account r
  obtain ⟨htold, hlook⟩ := Roster.tell_story es
  have hr : r.Indexed := Roster.indexed_following es
  refine ⟨by simp [Roster.story_append, Roster.story, told, r, Roster.following],
    ((Directory.reflects_following es).observe hr e).1, htold, ?_, hlook⟩
  have hkeys : account.keys.Pairwise (compare · · = .lt) := Std.ExtTreeMap.ordered_keys
  refine Keyed.eq_of_ordered id hkeys r.pairwise_groups fun group => ?_
  rw [Std.ExtTreeMap.mem_keys, Std.ExtTreeMap.mem_iff_isSome_getElem?, hlook,
    Roster.isSome_standing]
  exact hr.mem_groups.symm

end AlertHandoff
