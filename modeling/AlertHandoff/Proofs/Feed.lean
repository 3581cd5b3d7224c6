import AlertHandoff.Screen.Presenter
import Mathlib.Data.List.Induction

/-! # The feed of a presenter

Whoever reads nothing but the feed of a presenter knows at any time which keys are alerting.
`Presenter.Use` lists what can be asked of a presenter, and `Presenter.told` puts what it has handed
out so far and what nobody has read yet into one list; reading the feed does not change that list
(`Presenter.told_concat`).

A use brings about a change only if it makes a difference, and then just that one
(`Presenter.brings_cases`).  So the list of changes stays right with every use
(`Presenter.Accounts`): for every key it goes up and down in turn, and following it gives the
alerting keys.  `feed_reproduces_the_alerting_keys` says this of every presenter from its first use
on, which keys are alerting being read off the uses alone. -/

namespace AlertHandoff

namespace Change

/-- The key that comes up or goes down. -/
def key : Change → String
  | .raised n => n.key
  | .dismissed key => key

/-- The key comes up. -/
def isRaised : Change → Bool
  | .raised _ => true
  | .dismissed _ => false

/-- The alerting keys after a change, for one who knows of them from the feed. -/
def tell (known : Keys) : Change → Keys
  | .raised n => known.insert n.key
  | .dismissed key => known.erase key

theorem mem_tell {known : Keys} {c : Change} {key : String} :
    key ∈ c.tell known ↔ if key = c.key then c.isRaised = true else key ∈ known := by
  cases c with
  | raised n =>
      by_cases h : key = n.key
      · simp [tell, Change.key, isRaised, h]
      · simp [tell, Change.key, h, Ne.symm h]
  | dismissed x =>
      by_cases h : key = x
      · simp [tell, Change.key, isRaised, h]
      · simp [tell, Change.key, h, Ne.symm h]

/-- What comes up and what goes down takes turns, beginning with what comes up. -/
def Alternate (cs : List Change) : Prop :=
  ∀ (i : Nat) c, cs[i]? = some c → (c.isRaised = true ↔ i % 2 = 0)

theorem alternate_concat {cs : List Change} {c : Change} :
    Alternate (cs ++ [c]) ↔ Alternate cs ∧ (c.isRaised = true ↔ cs.length % 2 = 0) := by
  constructor
  · intro h
    refine ⟨fun i x hx => h i x ?_, h cs.length c (by simp)⟩
    rw [List.getElem?_append_left (List.getElem?_eq_some_iff.mp hx).1, hx]
  · rintro ⟨h, hc⟩ i x hx
    rcases Nat.lt_or_ge i cs.length with hi | hi
    · rw [List.getElem?_append_left hi] at hx
      exact h i x hx
    · have hlen : i < (cs ++ [c]).length := (List.getElem?_eq_some_iff.mp hx).1
      have hi' : i = cs.length := by
        rw [List.length_append, List.length_singleton] at hlen
        omega
      subst hi'
      rw [List.getElem?_concat_length] at hx
      cases hx
      exact hc

theorem filter_concat_self (cs : List Change) (c : Change) :
    (cs ++ [c]).filter (·.key == c.key) = cs.filter (·.key == c.key) ++ [c] := by
  simp

theorem filter_concat_other {key : String} (cs : List Change) {c : Change} (h : c.key ≠ key) :
    (cs ++ [c]).filter (·.key == key) = cs.filter (·.key == key) := by
  simp [h]

end Change

namespace Presenter

/-- What can be asked of a presenter; whoever reads the feed is handed what is in it. -/
inductive Use where
  | raise (n : Notice)
  | update (key : String) (alert : Bool)
  | dismiss (key : String)
  | read
deriving DecidableEq, Repr

/-- The change that is asked for, if one is. -/
def Use.change? : Use → Option Change
  | .raise n => some (.raised n)
  | .dismiss key => some (.dismissed key)
  | .update .. | .read => none

/-- The presenter after one use. -/
def after (p : Presenter) : Use → Presenter
  | .raise n => p.raise n
  | .update key alert => p.update key alert
  | .dismiss key => p.dismiss key
  | .read => p.read

/-- The presenter after several uses. -/
def used (p : Presenter) (us : List Use) : Presenter := us.foldl after p

theorem used_concat (p : Presenter) (us : List Use) (u : Use) :
    p.used (us ++ [u]) = (p.used us).after u := by
  simp [used]

/-- The changes that are handed out at one use. -/
def handOut (p : Presenter) : Use → List Change
  | .read => p.feed
  | .raise _ | .update .. | .dismiss _ => []

/-- All the changes that are handed out in the course of several uses, the earliest first. -/
def handedOut : Presenter → List Use → List Change
  | _, [] => []
  | p, u :: us => p.handOut u ++ handedOut (p.after u) us

theorem handedOut_append : ∀ (us : List Use) (p : Presenter) (vs : List Use),
    p.handedOut (us ++ vs) = p.handedOut us ++ (p.used us).handedOut vs
  | [], _, _ => rfl
  | u :: us, p, vs => by
      rw [List.cons_append, handedOut, handedOut, handedOut_append us, List.append_assoc]
      rfl

/-- All the changes that a presenter has told of or has still to tell of after several uses. -/
def told (p : Presenter) (us : List Use) : List Change := p.handedOut us ++ (p.used us).feed

/-! ### One use -/

/-- The change that a use brings about, if it makes a difference. -/
def brings (p : Presenter) : Use → List Change
  | .raise n => if p.isUp n.key then [] else [.raised n]
  | .dismiss key => if p.isUp key then [.dismissed key] else []
  | .update .. | .read => []

/-- No change gets lost and none is told twice, whoever reads the feed when. -/
theorem handOut_append_feed (p : Presenter) (u : Use) :
    p.handOut u ++ (p.after u).feed = p.feed ++ p.brings u := by
  cases u with
  | raise n =>
      simp only [handOut, after, brings, raise]
      split <;> simp
  | update key alert =>
      simp only [handOut, after, brings, update]
      split <;> simp
  | dismiss key =>
      simp only [handOut, after, brings, dismiss]
      split <;> simp
  | read => simp [handOut, after, brings, read]

theorem told_concat (p : Presenter) (us : List Use) (u : Use) :
    p.told (us ++ [u]) = p.told us ++ (p.used us).brings u := by
  simp only [told, handedOut_append, handedOut, used_concat, List.append_nil, List.append_assoc,
    handOut_append_feed]

/-- **What one use changes**: nothing, and then the same keys are alerting; or the one key it names,
which was down and comes up, or was up and goes down. -/
theorem brings_cases (p : Presenter) (u : Use) :
    (p.brings u = [] ∧ ∀ key, (p.after u).isUp key = p.isUp key) ∨
      ∃ c, u.change? = some c ∧ p.brings u = [c] ∧ c.isRaised = !p.isUp c.key ∧
        ∀ key, (p.after u).isUp key = if key = c.key then c.isRaised else p.isUp key := by
  cases u with
  | raise n =>
      cases hup : p.isUp n.key with
      | true =>
          refine .inl ⟨by simp [brings, hup], fun key => ?_⟩
          by_cases hk : key = n.key <;> simp [after, hk, hup]
      | false =>
          refine .inr ⟨.raised n, rfl, by simp [brings, hup],
            by simp [Change.isRaised, Change.key, hup], fun key => ?_⟩
          by_cases hk : key = n.key <;> simp [after, Change.isRaised, Change.key, hk]
  | update key alert => exact .inl ⟨rfl, fun _ => isUp_update p key _ alert⟩
  | dismiss key =>
      cases hup : p.isUp key with
      | true =>
          refine .inr ⟨.dismissed key, rfl, by simp [brings, hup],
            by simp [Change.isRaised, Change.key, hup], fun x => ?_⟩
          by_cases hk : x = key <;> simp [after, Change.isRaised, Change.key, hk]
      | false =>
          refine .inl ⟨by simp [brings, hup], fun x => ?_⟩
          by_cases hk : x = key <;> simp [after, hk, hup]
  | read => exact .inl ⟨rfl, fun _ => rfl⟩

/-! ### The account of a listener -/

/-- The changes are those of the alerting keys: each key goes up and down in turn, it is up if it
did so an odd number of times, and to follow all changes is to know the alerting keys. -/
structure Accounts (cs : List Change) (p : Presenter) : Prop where
  alternate : ∀ key, Change.Alternate (cs.filter (·.key == key))
  odd : ∀ key, p.isUp key = true ↔ (cs.filter (·.key == key)).length % 2 = 1
  replay : ∀ key, key ∈ cs.foldl Change.tell ∅ ↔ p.isUp key = true

namespace Accounts
variable {cs : List Change} {p q : Presenter}

theorem same (h : Accounts cs p) (hq : ∀ key, q.isUp key = p.isUp key) : Accounts cs q where
  alternate := h.alternate
  odd key := by rw [hq, h.odd]
  replay key := by rw [h.replay, hq]

/-- The change of a key that makes a difference is the one whose turn it is. -/
theorem turn {c : Change} (h : Accounts cs p) (hc : c.isRaised = !p.isUp c.key) :
    c.isRaised = true ↔ (cs.filter (·.key == c.key)).length % 2 = 0 := by
  have hodd := h.odd c.key
  rw [hc, Bool.not_eq_true', ← Bool.not_eq_true, hodd]
  omega

/-- One more change of a key that makes a difference leaves the account right. -/
theorem change {c : Change} (h : Accounts cs p) (hc : c.isRaised = !p.isUp c.key)
    (hq : ∀ key, q.isUp key = if key = c.key then c.isRaised else p.isUp key) :
    Accounts (cs ++ [c]) q where
  alternate key := by
    by_cases hk : c.key = key
    · subst hk
      rw [Change.filter_concat_self, Change.alternate_concat]
      exact ⟨h.alternate c.key, h.turn hc⟩
    · rw [Change.filter_concat_other cs hk]
      exact h.alternate key
  odd key := by
    by_cases hk : c.key = key
    · subst hk
      rw [Change.filter_concat_self, hq, if_pos rfl, h.turn hc, List.length_append,
        List.length_singleton]
      omega
    · rw [Change.filter_concat_other cs hk, hq, if_neg (Ne.symm hk), h.odd]
  replay key := by
    rw [List.foldl_append, List.foldl_cons, List.foldl_nil, Change.mem_tell, hq]
    split
    · rfl
    · exact h.replay key

theorem after (h : Accounts cs p) (u : Use) : Accounts (cs ++ p.brings u) (p.after u) := by
  rcases p.brings_cases u with ⟨hb, hup⟩ | ⟨c, -, hb, hc, hup⟩
  · rw [hb, List.append_nil]
    exact h.same hup
  · rw [hb]
    exact h.change hc hup

end Accounts

/-! ### All uses -/

/-- The key was raised, and has not been dismissed since. -/
def Raised (us : List Use) (key : String) : Prop :=
  ∃ before n after, us = before ++ .raise n :: after ∧ n.key = key ∧ .dismiss key ∉ after

theorem raised_concat {us : List Use} {u : Use} {key : String} :
    Raised (us ++ [u]) key ↔
      (∃ n, u = .raise n ∧ n.key = key) ∨ (u ≠ .dismiss key ∧ Raised us key) := by
  constructor
  · rintro ⟨before, n, rest, he, hn, hrest⟩
    rcases List.eq_nil_or_concat rest with rfl | ⟨rest, v, rfl⟩
    · exact .inl ⟨n, (List.append_inj' he rfl).2 |> List.singleton_inj.mp, hn⟩
    · rw [List.concat_eq_append, ← List.cons_append, ← List.append_assoc] at he
      obtain ⟨hus, hu⟩ := List.append_inj' he rfl
      rw [List.concat_eq_append, List.mem_append, not_or, List.mem_singleton] at hrest
      rw [List.singleton_inj.mp hu]
      exact .inr ⟨Ne.symm hrest.2, before, n, rest, hus, hn, hrest.1⟩
  · rintro (⟨n, rfl, hn⟩ | ⟨hu, before, n, rest, rfl, hn, hrest⟩)
    · exact ⟨us, n, [], rfl, hn, by simp⟩
    · refine ⟨before, n, rest ++ [u], by simp, hn, ?_⟩
      simp [hrest, Ne.symm hu]

/-- The use is an update that asks for an alert, of a key that is up. -/
def repeats (p : Presenter) : Use → Bool
  | .update key alert => alert && p.isUp key
  | .raise _ | .dismiss _ | .read => false

/-- How many of the uses are updates that ask for an alert, each of a key that is up at that
moment. -/
def repeated (p : Presenter) (us : List Use) : Nat :=
  (List.range us.length).countP fun i => us[i]?.any (p.used (us.take i)).repeats

theorem repeated_concat (p : Presenter) (us : List Use) (u : Use) :
    p.repeated (us ++ [u]) = p.repeated us + if (p.used us).repeats u then 1 else 0 := by
  have hbefore : ∀ i ∈ List.range us.length,
      (us ++ [u])[i]?.any (p.used ((us ++ [u]).take i)).repeats =
        us[i]?.any (p.used (us.take i)).repeats := by
    intro i hi
    rw [List.mem_range] at hi
    rw [List.getElem?_append_left hi, List.take_append_of_le_length (Nat.le_of_lt hi)]
  unfold repeated
  rw [List.length_append, List.length_singleton, List.range_succ, List.countP_append,
    List.countP_congr fun i hi => by rw [hbefore i hi]]
  simp

theorem updates_after (p : Presenter) (u : Use) :
    (p.after u).updates = p.updates + if p.repeats u then 1 else 0 := by
  cases u with
  | raise n =>
      simp only [after, raise, repeats]
      split <;> rfl
  | update key alert =>
      simp only [after, update, repeats]
      split <;> simp_all
  | dismiss key =>
      simp only [after, dismiss, repeats]
      split <;> rfl
  | read => rfl

variable (flag : Flag)

theorem accounts_told (us : List Use) :
    Accounts (told { flag } us) (used { flag } us) := by
  induction us using List.reverseRecOn with
  | nil => exact { alternate := by simp [told, handedOut, used, Change.Alternate]
                   odd := by simp [told, handedOut, used, isUp]
                   replay := by simp [told, handedOut, used, isUp] }
  | append_singleton us u ih =>
      rw [told_concat, used_concat]
      exact ih.after u

/-- Nothing is told that was not asked for, and what is told keeps the order of the uses. -/
theorem told_sublist (us : List Use) : (told { flag } us).Sublist (us.filterMap Use.change?) := by
  induction us using List.reverseRecOn with
  | nil => simp [told, handedOut, used]
  | append_singleton us u ih =>
      rw [told_concat, List.filterMap_append]
      refine ih.append ?_
      rcases (used { flag } us).brings_cases u with ⟨hb, -⟩ | ⟨c, hc, hb, -⟩
      · rw [hb]
        exact List.nil_sublist _
      · rw [hb]
        simp [hc]

theorem isUp_used_iff (us : List Use) (key : String) :
    (used { flag } us).isUp key = true ↔ Raised us key := by
  induction us using List.reverseRecOn with
  | nil =>
      refine ⟨fun h => by simp [used, isUp] at h, ?_⟩
      rintro ⟨before, n, rest, he, -⟩
      simp at he
  | append_singleton us u ih =>
      rw [used_concat, raised_concat, ← ih]
      cases u with
      | raise n => simp [after, @eq_comm _ n.key]
      | update x alert => simp [after]
      | dismiss x => simp [after, @eq_comm _ x]
      | read => simp [after]

theorem updates_used (us : List Use) :
    (used { flag } us).updates = repeated { flag } us := by
  induction us using List.reverseRecOn with
  | nil => rfl
  | append_singleton us u ih => rw [used_concat, updates_after, repeated_concat, ih]

/-- **The feed of a presenter reproduces its alerting keys.**  Whatever is asked of a new presenter,
the changes it has handed out and those that nobody has read yet are, in one list, changes that were
asked for, in that order; every key comes up and goes down in turn there, coming up first, and
whoever follows the list from no key on knows the alerting keys.  These are the keys that were
raised and have not been dismissed since, and the presenter lists them in increasing order.  It has
counted every update that asked for an alert of a key that was up, and no other. -/
theorem feed_reproduces_the_alerting_keys (us : List Use) :
    let p := used { flag } us
    let told := handedOut { flag } us ++ p.feed
    told.Sublist (us.filterMap Use.change?) ∧
      (∀ key, Change.Alternate (told.filter (·.key == key))) ∧
      (∀ key, key ∈ told.foldl Change.tell ∅ ↔ p.isUp key = true) ∧
      (∀ key, p.isUp key = true ↔ Raised us key) ∧
      (∀ key, key ∈ p.up.toList ↔ p.isUp key = true) ∧
      p.up.toList.Pairwise (compare · · = .lt) ∧ p.updates = repeated { flag } us := by
  intro p told
  have haccounts : Accounts told p := accounts_told flag us
  refine ⟨told_sublist flag us, haccounts.alternate, haccounts.replay, isUp_used_iff flag us,
    fun key => ?_, Std.ExtTreeSet.ordered_toList, updates_used flag us⟩
  rw [Std.ExtTreeSet.mem_toList, isUp, Std.ExtTreeSet.contains_iff_mem]

end Presenter
end AlertHandoff
