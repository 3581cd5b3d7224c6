import Std.Data.ExtTreeMap
import Std.Data.ExtTreeSet

/-! # Finite maps and sets of keys

Notices, groups and rows are named by text.  `Keyed α` is a finite map from such names and
`Keys` a finite set of them; both list their contents in increasing order of the names, which is
the order by code points.  Two maps are equal as soon as all their look-ups agree.

`Keyed.extract` takes the bindings that satisfy a test out of a map: `mem_extract_fst` says which
keys come out, `getElem?_extract_snd` what stays, `pairwise_extract_fst` in which order. -/

namespace AlertHandoff

/-- Finite maps from names to values. -/
abbrev Keyed (α : Type) := Std.ExtTreeMap String α compare

/-- Finite sets of names. -/
abbrev Keys := Std.ExtTreeSet String compare

namespace Keyed
variable {α : Type}

/-- The values of a map, in increasing order of their keys. -/
def items (m : Keyed α) : List α := m.toList.map (·.2)

theorem mem_items {m : Keyed α} {a : α} : a ∈ items m ↔ ∃ k : String, m[k]? = some a := by
  simp [items, Std.ExtTreeMap.mem_toList_iff_getElem?_eq_some]

/-- A binding that is taken out and put in again leaves the map as it was. -/
theorem insert_erase_self {m : Keyed α} {k : String} {a : α} (h : m[k]? = some a) :
    (m.erase k).insert k a = m := by
  refine Std.ExtTreeMap.ext_getElem? fun x => ?_
  rw [Std.ExtTreeMap.getElem?_insert, Std.ExtTreeMap.getElem?_erase]
  split
  · next hx => rw [← Std.LawfulEqCmp.eq_of_compare hx, h]
  · rfl

theorem erase_erase_self (m : Keyed α) (k : String) : (m.erase k).erase k = m.erase k := by
  refine Std.ExtTreeMap.ext_getElem? fun x => ?_
  simp only [Std.ExtTreeMap.getElem?_erase]
  split <;> rfl

theorem nodup_of_ordered (key : α → String) {l : List α}
    (hl : l.Pairwise fun a b => compare (key a) (key b) = .lt) : l.Nodup :=
  hl.imp fun hlt heq => by simp [heq, Std.ReflCmp.compare_self] at hlt

/-- Two lists in increasing order of the keys that list the same are the same. -/
theorem eq_of_ordered (key : α → String) {l l' : List α}
    (hl : l.Pairwise fun a b => compare (key a) (key b) = .lt)
    (hl' : l'.Pairwise fun a b => compare (key a) (key b) = .lt) (h : ∀ a, a ∈ l ↔ a ∈ l') :
    l = l' := by
  refine List.Perm.eq_of_pairwise (fun a b _ _ hab hba => ?_) hl hl' ?_
  · rw [Std.OrientedCmp.gt_of_lt hab] at hba
    cases hba
  · exact (List.perm_ext_iff_of_nodup (nodup_of_ordered key hl)
      (nodup_of_ordered key hl')).mpr h

/-- The keys of the bindings that satisfy `p`, in increasing order, and the map without them. -/
def extract (m : Keyed α) (p : String → α → Bool) : List String × Keyed α :=
  ((m.filter p).keys, m.filter fun k a => !p k a)

theorem mem_extract_fst {m : Keyed α} {p : String → α → Bool} {k : String} :
    k ∈ (extract m p).1 ↔ ∃ a, m[k]? = some a ∧ p k a = true := by
  rw [extract, Std.ExtTreeMap.mem_keys, Std.ExtTreeMap.mem_iff_isSome_getElem?,
    Std.ExtTreeMap.getElem?_filter', Option.isSome_iff_exists]
  simp only [Option.filter_eq_some_iff]

theorem getElem?_extract_snd (m : Keyed α) (p : String → α → Bool) (k : String) :
    (extract m p).2[k]? = m[k]?.filter fun a => !p k a := by
  simp [extract]

theorem pairwise_extract_fst (m : Keyed α) (p : String → α → Bool) :
    (extract m p).1.Pairwise (compare · · = .lt) :=
  Std.ExtTreeMap.ordered_keys

end Keyed

end AlertHandoff
