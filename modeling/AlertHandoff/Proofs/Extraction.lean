import AlertHandoff.Handoff.Deferral
import Mathlib.Data.List.Basic

/-! # Giving up many deferrals at once

All deferrals that name a key, or all that are live, are given up at once: `Keyed.extract` splits
the map into what satisfies a test and what does not.  `Keyed.Splits` says what that means for the
keys that are listed and for the map that is left, and `Keyed.splits_extract` that it is so for
every map and every test.

A table without an order has to go another way.  It goes through its bindings as they come, collects
the keys of those that satisfy the test, erases them one after the other, and puts them in order
last (`Keyed.sweep`).  Whatever the order in which it lists its bindings, the outcome is the same
(`Keyed.sweep_eq_extract`).

`bulk_removals_split_the_deferrals` puts both together for deferrals. -/

namespace AlertHandoff

namespace Keyed
variable {α : Type} {m : Keyed α} {p : String → α → Bool}

/-- The bindings that a map has under some keys. -/
def under (m : Keyed α) (keys : List String) : List (String × α) :=
  keys.filterMap fun k => m[k]?.map (k, ·)

/-- By a test, a map is split: the keys of the bindings that satisfy the test are listed in
increasing order, and the map that is left has all the others, as they were. -/
structure Splits (m : Keyed α) (P : String → α → Prop) (r : List String × Keyed α) : Prop where
  mem_iff : ∀ k : String, k ∈ r.1 ↔ ∃ a, m[k]? = some a ∧ P k a
  ordered : r.1.Pairwise (compare · · = .lt)
  rest : ∀ k : String, r.2[k]? = if k ∈ r.1 then none else m[k]?
  perm : m.toList.Perm (r.2.toList ++ m.under r.1)
  disjoint : r.2.toList.Disjoint (m.under r.1)
  size_eq : m.size = r.2.size + r.1.length

/-! ### Splitting a map -/

theorem under_keys {part : Keyed α} (h : ∀ (k : String) a, part[k]? = some a → m[k]? = some a) :
    m.under part.keys = part.toList := by
  have hsame : ∀ x ∈ part.toList, m[x.1]?.map (x.1, ·) = some x := by
    intro x hx
    have hpart : part[x.1]? = some x.2 := Std.ExtTreeMap.mem_toList_iff_getElem?_eq_some.mp hx
    rw [h x.1 x.2 hpart]
    rfl
  rw [under, ← Std.ExtTreeMap.map_fst_toList_eq_keys, List.filterMap_map]
  exact (List.filterMap_congr hsame).trans List.filterMap_some

theorem under_extract (m : Keyed α) (p : String → α → Bool) :
    m.under (extract m p).1 = (m.filter p).toList := by
  refine under_keys fun k a h => ?_
  rw [Std.ExtTreeMap.getElem?_filter', Option.filter_eq_some_iff] at h
  exact h.1

theorem toList_perm_extract (m : Keyed α) (p : String → α → Bool) :
    m.toList.Perm ((extract m p).2.toList ++ m.under (extract m p).1) := by
  rw [under_extract, extract, Std.ExtTreeMap.toList_filter, Std.ExtTreeMap.toList_filter]
  exact (List.filter_append_perm (fun x => p x.1 x.2) m.toList).symm.trans List.perm_append_comm

theorem splits_extract (m : Keyed α) (p : String → α → Bool) :
    Splits m (fun k a => p k a = true) (extract m p) where
  mem_iff k := mem_extract_fst
  ordered := pairwise_extract_fst m p
  rest k := by
    rw [getElem?_extract_snd]
    by_cases hk : k ∈ (extract m p).1
    · obtain ⟨a, ha, hp⟩ := mem_extract_fst.mp hk
      simp [hk, ha, hp]
    · rw [if_neg hk]
      cases ha : m[k]? with
      | none => rfl
      | some a =>
          have hp : p k a ≠ true := fun hp => hk (mem_extract_fst.mpr ⟨a, ha, hp⟩)
          simp [hp]
  perm := toList_perm_extract m p
  disjoint := by
    rw [under_extract, extract, Std.ExtTreeMap.toList_filter, Std.ExtTreeMap.toList_filter]
    intro x hrest hout
    have hnot := (List.mem_filter.mp hrest).2
    rw [(List.mem_filter.mp hout).2] at hnot
    cases hnot
  size_eq := by
    have hlen := (toList_perm_extract m p).length_eq
    rw [List.length_append, under_extract, Std.ExtTreeMap.length_toList,
      Std.ExtTreeMap.length_toList, Std.ExtTreeMap.length_toList] at hlen
    rw [hlen, extract, Std.ExtTreeMap.length_keys]

theorem extract_again (m : Keyed α) (p : String → α → Bool) :
    extract (extract m p).2 p = ([], (extract m p).2) := by
  have hout : (extract (extract m p).2 p).1 = [] := by
    refine List.eq_nil_iff_forall_not_mem.mpr fun k hk => ?_
    obtain ⟨a, ha, hp⟩ := mem_extract_fst.mp hk
    rw [getElem?_extract_snd, Option.filter_eq_some_iff, hp] at ha
    cases ha.2
  refine Prod.ext hout (Std.ExtTreeMap.ext_getElem? fun k => ?_)
  rw [(splits_extract (extract m p).2 p).rest, hout, if_neg List.not_mem_nil]

/-! ### A table without an order -/

/-- Takes the bindings that satisfy a test out of a map as a table without an order does: it goes
through the bindings as they are listed, collects the keys, erases them one after the other, and
puts them in order last. -/
def sweep (listing : List (String × α)) (m : Keyed α) (p : String → α → Bool) :
    List String × Keyed α :=
  let found := (listing.filter fun x => p x.1 x.2).map (·.1)
  (found.mergeSort fun a b => (compare a b).isLE, found.foldl (fun m k => m.erase k) m)

theorem getElem?_foldl_erase (k : String) : ∀ (ks : List String) (m : Keyed α),
    (ks.foldl (fun m k => m.erase k) m)[k]? = if k ∈ ks then none else m[k]?
  | [], m => by simp
  | x :: ks, m => by
      rw [List.foldl_cons, getElem?_foldl_erase k ks, Std.ExtTreeMap.getElem?_erase]
      by_cases hk : k ∈ ks
      · simp [hk]
      · by_cases hx : k = x
        · simp [hx]
        · simp [hk, hx, Ne.symm hx]

theorem isLE_trans (a b c : String) (hab : (compare a b).isLE = true)
    (hbc : (compare b c).isLE = true) : (compare a c).isLE = true :=
  Std.TransCmp.isLE_trans hab hbc

theorem isLE_total (a b : String) : ((compare a b).isLE || (compare b a).isLE) = true := by
  rw [Std.OrientedOrd.eq_swap (a := b)]
  cases compare a b <;> rfl

/-- To put bindings in order is to list them as they were listed in increasing order of the keys. -/
theorem mergeSort_eq_of_ordered {β : Type} (key : β → String) {l l' : List β} (h : l.Perm l')
    (hl : l'.Pairwise fun a b => compare (key a) (key b) = .lt) :
    (l.mergeSort fun a b => (compare (key a) (key b)).isLE) = l' := by
  have hperm := (List.mergeSort_perm l fun a b => (compare (key a) (key b)).isLE).trans h
  have hsorted := @List.pairwise_mergeSort β (fun a b => (compare (key a) (key b)).isLE)
    (fun a b c => isLE_trans (key a) (key b) (key c)) (fun a b => isLE_total (key a) (key b)) l
  -- No key occurs twice, so that what is sorted by its keys increases strictly.
  have hne : l'.Pairwise fun a b => key a ≠ key b :=
    hl.imp fun hlt heq => by simp [heq, Std.ReflCmp.compare_self] at hlt
  have hdistinct := (hperm.pairwise_iff fun hab => Ne.symm hab).mpr hne
  refine eq_of_ordered key ((hsorted.and hdistinct).imp ?_) hl fun a => hperm.mem_iff
  rintro a b ⟨hle, hab⟩
  cases hc : compare (key a) (key b) with
  | lt => rfl
  | eq => exact absurd (Std.LawfulEqCmp.eq_of_compare hc) hab
  | gt => simp [hc] at hle

/-- **Whatever the order in which a table lists its bindings**, to go through them one after the
other takes out the same keys, in increasing order, and leaves the same map. -/
theorem sweep_eq_extract {listing : List (String × α)} (h : listing.Perm m.toList)
    (p : String → α → Bool) : sweep listing m p = extract m p := by
  have hperm : ((listing.filter fun x => p x.1 x.2).map (·.1)).Perm (extract m p).1 := by
    rw [extract, ← Std.ExtTreeMap.map_fst_toList_eq_keys, Std.ExtTreeMap.toList_filter]
    exact (h.filter _).map _
  refine Prod.ext (mergeSort_eq_of_ordered id hperm (pairwise_extract_fst m p))
    (Std.ExtTreeMap.ext_getElem? fun k => ?_)
  rw [(splits_extract m p).rest, sweep, getElem?_foldl_erase]
  simp only [hperm.mem_iff]

end Keyed

/-! ### Deferrals -/

namespace Deferrals

theorem splits_dropNaming (ds : Deferrals) (key : String) :
    Keyed.Splits ds (fun target d => target = key ∨ d.source = key) (dropNaming ds key) := by
  have h := Keyed.splits_extract ds fun target d => target == key || d.source == key
  exact ⟨fun _ => mem_dropNaming, h.ordered, h.rest, h.perm, h.disjoint, h.size_eq⟩

theorem splits_dropLive (ds : Deferrals) :
    Keyed.Splits ds (fun _ d => d.isReversed = false) (dropLive ds) := by
  have h := Keyed.splits_extract ds fun _ d => d.isLive
  refine ⟨fun _ => ?_, h.ordered, h.rest, h.perm, h.disjoint, h.size_eq⟩
  simp [mem_dropLive, Deferral.isLive]

/-- **To give up deferrals in bulk splits them exactly.**  Whatever deferrals there are, to give up
all that name a key lists, in increasing order and each once, just the destinations whose deferral
has the key as its destination or as its source; all other deferrals stay as they were, those given
up and those that stay are together the ones that were there, and to give up the same again finds
nothing.  Likewise for all that are live.  A table that lists its deferrals in any order whatever,
and gives them up one after the other, comes to the same; and put in order, its list is the list of
the deferrals by destination. -/
theorem bulk_removals_split_the_deferrals (ds : Deferrals) (key : String) :
    Keyed.Splits ds (fun target d => target = key ∨ d.source = key) (dropNaming ds key) ∧
      dropNaming (dropNaming ds key).2 key = ([], (dropNaming ds key).2) ∧
      Keyed.Splits ds (fun _ d => d.isReversed = false) (dropLive ds) ∧
      dropLive (dropLive ds).2 = ([], (dropLive ds).2) ∧
      ∀ listing : List (String × Deferral), listing.Perm ds.toList →
        Keyed.sweep listing ds (fun target d => target == key || d.source == key) =
            dropNaming ds key ∧
          Keyed.sweep listing ds (fun _ d => !d.isReversed) = dropLive ds ∧
          (listing.mergeSort fun a b => (compare a.1 b.1).isLE) = ds.toList := by
  refine ⟨splits_dropNaming ds key, Keyed.extract_again ds _, splits_dropLive ds,
    Keyed.extract_again ds _, fun listing h => ?_⟩
  exact ⟨Keyed.sweep_eq_extract h _, Keyed.sweep_eq_extract h _,
    Keyed.mergeSort_eq_of_ordered Prod.fst h Std.ExtTreeMap.ordered_keys_toList⟩

/-- Deferrals from a to b, from b to c and from c to d, and one from e to itself that was taken
back. -/
def chain : Deferrals :=
  let link (source target : String) (isReversed : Bool) : String × Deferral :=
    (target, { source, kind := .headsUp, membership := ⟨"g", .child⟩, isReversed })
  .ofList [link "a" "b" false, link "b" "c" false, link "c" "d" false, link "e" "e" true] compare

/-- A chain of deferrals is cut at the key, and its end stays, in whatever order they are listed. -/
theorem chain_is_cut :
    (dropNaming chain "b").1 = ["b", "c"] ∧ (dropNaming chain "e").1 = ["e"] ∧
      (dropLive chain).1 = ["b", "c", "d"] ∧
      Keyed.sweep chain.toList.reverse chain (fun target d => target == "b" || d.source == "b") =
        dropNaming chain "b" :=
  ⟨by decide +kernel, by decide +kernel, by decide +kernel,
    ((bulk_removals_split_the_deferrals chain "b").2.2.2.2 _ (List.reverse_perm _)).1⟩

end Deferrals
end AlertHandoff
