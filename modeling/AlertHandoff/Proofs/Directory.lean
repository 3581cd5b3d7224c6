import AlertHandoff.Proofs.Answers
import Mathlib.Data.List.Basic

/-! # A directory that is kept up to date

The roster reads all its answers off the notices it tracks.  A directory keeps them: for every
group that exists the key of its summary, the keys of its children, and the suppression that was
told last.  An event takes its key out of the group in which it was, and enters it where it belongs
now; then the groups it touched are settled one after the other, which tells what has changed.
Nothing else is computed anew.

Between two rosters, `Roster.Drafts` says of what is kept of a group that the members are those of
the later roster and the suppression is that of the earlier one.  Taking a key out and entering a
notice lead from a directory that is up to date to such a draft, and settling a group leads from
there to the later roster, with the events that the roster tells of the group
(`settleGroup_of_drafts`).  So a directory tells the same group events as the roster
(`Reflects.observe`) and gives the same answers (`Reflects.answers`). -/

namespace AlertHandoff

/-- What a directory keeps of a group: the key of its summary, the keys of its children, and the
suppression that was told last. -/
structure Members where
  head : Option String := none
  children : Keys := ∅
  told : Bool := false
deriving DecidableEq

namespace Members

/-- The group has a summary and exactly one child. -/
def suppressed (m : Members) : Bool := m.head.isSome && m.children.size == 1

def isEmpty (m : Members) : Bool := m.head.isNone && m.children.isEmpty

def without (m : Members) (key : String) : Members :=
  { m with head := m.head.filter (· != key), children := m.children.erase key }

def enter (m : Members) (n : Notice) : Members :=
  match n.role with
  | .summary => { m with head := some n.key }
  | .child => { m with children := m.children.insert n.key }

end Members

/-- The tracked notices by key, and what is kept of the groups that exist. -/
structure Directory where
  entries : Keyed Notice := ∅
  members : Keyed Members := ∅
deriving DecidableEq

namespace Directory

/-! ### Answers -/

def suppressed (d : Directory) (group : String) : Bool := d.members[group]?.any (·.told)

def summary (d : Directory) (group : String) : Option Notice :=
  (d.members[group]?.bind (·.head)).bind fun key => d.entries[key]?

def children (d : Directory) (group : String) : List Notice :=
  d.members[group]?.elim [] fun m => m.children.toList.filterMap fun key => d.entries[key]?

def groups (d : Directory) : List String := d.members.keys

/-! ### Events -/

/-- Takes a key out of the group in which it is.  A group that is left without members is kept. -/
def detach (d : Directory) (key : String) : Directory :=
  match d.entries[key]? with
  | none => d
  | some old =>
    { entries := d.entries.erase key
      members := d.members.modify old.group (·.without key) }

/-- Enters a notice into its group, which is formed if nothing is kept of it. -/
def attach (d : Directory) (n : Notice) : List GroupEvent × Directory :=
  (if d.members.contains n.group then [] else [.formed n.group],
    { entries := d.entries.insert n.key n
      members := d.members.insert n.group ((d.members[n.group]?.getD {}).enter n) })

/-- Tells how a group has changed, if it has, and keeps it unless it has no members. -/
def settleGroup (d : Directory) (group : String) : List GroupEvent × Directory :=
  match d.members[group]? with
  | none => ([], d)
  | some m =>
    ((if m.suppressed = m.told then [] else [.suppression group m.suppressed]) ++
        (if m.isEmpty then [.dissolved group] else []),
      { d with members :=
          if m.isEmpty then d.members.erase group
          else d.members.insert group { m with told := m.suppressed } })

/-- Settles groups one after the other. -/
def settle : Directory → List String → List GroupEvent × Directory
  | d, [] => ([], d)
  | d, group :: groups =>
    ((d.settleGroup group).1 ++ ((d.settleGroup group).2.settle groups).1,
      ((d.settleGroup group).2.settle groups).2)

def groupOf (d : Directory) (key : String) : List String :=
  (d.entries[key]?.map (·.group)).toList

/-- The group events that an event of a notice brings about, and the directory after it. -/
def observe (d : Directory) : Event → List GroupEvent × Directory
  | .added n | .updated n _ =>
    let entered := (d.detach n.key).attach n
    let settled := entered.2.settle (d.groupOf n.key ++ [n.group]).eraseDups
    (entered.1 ++ settled.1, settled.2)
  | .removed n => (d.detach n.key).settle (d.groupOf n.key)
  | .announced _ | .rendered _ => ([], d)

end Directory

/-! ### Members of a group of the roster -/

namespace Roster.Indexed
variable {r : Roster} {g key : String} {n : Notice}

theorem mem_children_drop (h : r.Indexed) (key : String) :
    n ∈ (r.drop key).children g ↔ n.key ≠ key ∧ n ∈ r.children g := by
  rw [(h.drop key).mem_children, h.mem_children, getElem?_entries_drop]
  by_cases hk : n.key = key <;> simp [hk]

theorem mem_children_enter (h : r.Indexed) (hn : r.entries[n.key]? = none) {c : Notice} :
    c ∈ (r.enter n).children g ↔
      (c = n ∧ n.group = g ∧ n.role = .child) ∨ c ∈ r.children g := by
  rw [(h.enter hn).mem_children, h.mem_children, getElem?_entries_enter]
  by_cases hk : c.key = n.key
  · rw [if_pos hk, hk, hn]
    constructor
    · rintro ⟨hc, hplace⟩
      cases hc
      exact .inl ⟨rfl, hplace⟩
    · rintro (⟨rfl, hplace⟩ | ⟨hc, -⟩)
      · exact ⟨rfl, hplace⟩
      · cases hc
  · rw [if_neg hk]
    refine ⟨.inr, fun hc => hc.resolve_left ?_⟩
    rintro ⟨rfl, -⟩
    exact hk rfl

theorem hasGroup_of_drop (h : r.Indexed) (hg : (r.drop key).hasGroup g = true) :
    r.hasGroup g = true := by
  rw [hasGroup_iff] at hg ⊢
  obtain ⟨n, hn | hn⟩ := hg
  · have hs : (r.drop key).summary g = some n := hn
    rw [h.summary_drop, Option.filter_eq_some_iff] at hs
    exact ⟨n, .inl hs.1⟩
  · exact ⟨n, .inr ((h.mem_children_drop key).mp hn).2⟩

theorem map_key_summary (h : r.Indexed) (g : String) :
    (r.summary g).map (·.key) = r.heads[g]? := by
  unfold Roster.summary
  cases hk : r.heads[g]? with
  | none => rfl
  | some key =>
      obtain ⟨n, hn, -⟩ := h.head g key hk
      rw [Option.bind_some, hn, Option.map_some, h.entry key n hn]

theorem hasGroup_eq {r' : Roster} (h : r.Indexed) (h' : r'.Indexed)
    (hhead : r.heads[g]? = r'.heads[g]?) (hchildren : ∀ n, n ∈ r.children g ↔ n ∈ r'.children g) :
    r.hasGroup g = r'.hasGroup g := by
  have hsummary : (r.summary g).isSome = (r'.summary g).isSome := by
    rw [← Option.isSome_map, h.map_key_summary, hhead, ← h'.map_key_summary, Option.isSome_map]
  rw [Roster.hasGroup, Roster.hasGroup, hsummary, h.children_eq h' hchildren]

end Roster.Indexed

namespace Members
variable {m : Members} {r : Roster} {g key : String} {n : Notice}

/-- The members are those that the group has in the roster. -/
structure Lists (m : Members) (r : Roster) (g : String) : Prop where
  head : m.head = r.heads[g]?
  children : ∀ key, key ∈ m.children ↔ ∃ n ∈ r.children g, n.key = key

theorem Lists.toList (h : m.Lists r g) (hr : r.Indexed) :
    m.children.toList = (r.children g).map (·.key) := by
  have hordered : m.children.toList.Pairwise (compare · · = .lt) := Std.ExtTreeSet.ordered_toList
  refine Keyed.eq_of_ordered id hordered ?_ fun key => ?_
  · rw [List.pairwise_map]
    exact hr.ordered_children g
  · rw [Std.ExtTreeSet.mem_toList, h.children, List.mem_map]

theorem Lists.isSome_head (h : m.Lists r g) (hr : r.Indexed) :
    m.head.isSome = (r.summary g).isSome := by
  rw [h.head, ← hr.map_key_summary, Option.isSome_map]

theorem Lists.suppressed (h : m.Lists r g) (hr : r.Indexed) : m.suppressed = r.suppressed g := by
  have hsize : m.children.size = (r.children g).length := by
    rw [← Std.ExtTreeSet.length_toList, h.toList hr, List.length_map]
  rw [Members.suppressed, Roster.suppressed, h.isSome_head hr, hsize]

theorem Lists.isEmpty (h : m.Lists r g) (hr : r.Indexed) : m.isEmpty = !r.hasGroup g := by
  have hchildren : m.children.isEmpty = (r.children g).isEmpty := by
    rw [← Std.ExtTreeSet.isEmpty_toList, h.toList hr, List.isEmpty_map]
  rw [Members.isEmpty, Roster.hasGroup, hchildren, Bool.not_or, Bool.not_not,
    ← h.isSome_head hr, Option.not_isSome]

theorem lists_of_not_hasGroup (hr : r.Indexed) (hg : r.hasGroup g = false) :
    ({} : Members).Lists r g where
  head := by
    rw [← hr.map_key_summary, (Roster.empty_of_not_hasGroup hg).1]
    rfl
  children key := by simp [(Roster.empty_of_not_hasGroup hg).2]

theorem Lists.of_eq {r' : Roster} (h : m.Lists r g) (hhead : r'.heads[g]? = r.heads[g]?)
    (hchildren : ∀ n, n ∈ r'.children g ↔ n ∈ r.children g) : m.Lists r' g where
  head := h.head.trans hhead.symm
  children key := by simp only [h.children, hchildren]

theorem Lists.without (h : m.Lists r g) (hr : r.Indexed) (key : String) :
    (m.without key).Lists (r.drop key) g where
  head := by rw [hr.headed.getElem?_heads_drop, ← h.head, Members.without]
  children k := by
    simp only [Members.without, Std.ExtTreeSet.mem_erase, h.children, hr.mem_children_drop,
      ne_eq, Std.compare_eq_iff_eq]
    constructor
    · rintro ⟨hk, n, hn, rfl⟩
      exact ⟨n, ⟨Ne.symm hk, hn⟩, rfl⟩
    · rintro ⟨n, ⟨hk, hn⟩, rfl⟩
      exact ⟨Ne.symm hk, n, hn, rfl⟩

theorem Lists.enter (h : m.Lists r n.group) (hr : r.Indexed) (hn : r.entries[n.key]? = none) :
    (m.enter n).Lists (r.enter n) n.group where
  head := by
    rw [Roster.getElem?_heads_enter, ← h.head, Members.enter]
    cases n.role <;> simp
  children k := by
    rw [Members.enter]
    cases hrole : n.role with
    | summary =>
        have hno : n.role ≠ .child := by simp [hrole]
        simpa [hr.mem_children_enter hn, hno] using h.children k
    | child =>
        simp only [hr.mem_children_enter hn, hrole, and_true, Std.ExtTreeSet.mem_insert,
          h.children, Std.compare_eq_iff_eq]
        constructor
        · rintro (rfl | ⟨c, hc, hk⟩)
          · exact ⟨n, .inl rfl, rfl⟩
          · exact ⟨c, .inr hc, hk⟩
        · rintro ⟨c, rfl | hc, hk⟩
          · exact .inl hk
          · exact .inr ⟨c, hc, hk⟩

end Members

/-! ### Between two rosters -/

namespace Roster

/-- What is kept of a group between two rosters: its members in the later one, and the suppression
that was told of it in the earlier one; nothing of a group that exists in neither. -/
def Drafts (before after : Roster) (g : String) : Option Members → Prop
  | none => before.hasGroup g = false ∧ after.hasGroup g = false
  | some m => m.Lists after g ∧ m.told = before.suppressed g ∧
      (before.hasGroup g = true ∨ after.hasGroup g = true)

variable {before after later r : Roster} {g key : String} {n : Notice} {kept : Option Members}

theorem Drafts.of_eq (h : before.Drafts after g kept) (ha : after.Indexed) (hl : later.Indexed)
    (hhead : later.heads[g]? = after.heads[g]?)
    (hchildren : ∀ n, n ∈ later.children g ↔ n ∈ after.children g) :
    before.Drafts later g kept := by
  have hexists : later.hasGroup g = after.hasGroup g := hl.hasGroup_eq ha hhead hchildren
  cases kept with
  | none => exact ⟨h.1, hexists.trans h.2⟩
  | some m =>
      refine ⟨h.1.of_eq hhead hchildren, h.2.1, ?_⟩
      rw [hexists]
      exact h.2.2

theorem Drafts.settled (h : before.Drafts after g kept)
    (hsame : after.standing g = before.standing g) : after.Drafts after g kept := by
  cases kept with
  | none => exact ⟨h.2, h.2⟩
  | some m =>
      have hexists : after.hasGroup g = before.hasGroup g := by
        rw [← isSome_standing, hsame, isSome_standing]
      have htold : after.suppressed g = before.suppressed g := by
        rw [← getD_standing, hsame, getD_standing]
      exact ⟨h.1, h.2.1.trans htold.symm, hexists ▸ h.2.2⟩

theorem Drafts.without (h : r.Drafts r g kept) (hr : r.Indexed) (key : String) :
    r.Drafts (r.drop key) g (kept.map (·.without key)) := by
  cases kept with
  | none =>
      refine ⟨h.1, Bool.eq_false_iff.mpr fun hdrop => ?_⟩
      exact absurd (hr.hasGroup_of_drop hdrop) (by simp [h.1])
  | some m => exact ⟨h.1.without hr key, h.2.1, .inl (or_self_iff.mp h.2.2)⟩

/-- Dropping a key changes only the group in which it is. -/
theorem Drafts.drop (h : before.Drafts r g kept) (hr : r.Indexed) {old : Notice}
    (hold : r.entries[key]? = some old) (hg : old.group ≠ g) :
    before.Drafts (r.drop key) g kept := by
  refine h.of_eq hr (hr.drop key) ?_ fun n => ?_
  · rw [hr.headed.getElem?_heads_drop]
    cases hk : r.heads[g]? with
    | none => rfl
    | some k =>
        obtain ⟨n, hn, hgroup, -⟩ := hr.head g k hk
        have hne : k ≠ key := by
          rintro rfl
          rw [hold] at hn
          cases hn
          exact hg hgroup
        rw [Option.filter_some, if_pos (bne_iff_ne.mpr hne)]
  · rw [hr.mem_children_drop]
    refine and_iff_right_of_imp fun hn => ?_
    rintro rfl
    obtain ⟨hentry, hgroup, -⟩ := hr.mem_children.mp hn
    rw [hold] at hentry
    cases hentry
    exact hg hgroup

theorem Drafts.enter (h : before.Drafts r g kept) (hr : r.Indexed)
    (hn : r.entries[n.key]? = none) (hg : n.group ≠ g) : before.Drafts (r.enter n) g kept := by
  refine h.of_eq hr (hr.enter hn) ?_ fun c => ?_
  · rw [getElem?_heads_enter, if_neg fun hrole => hg hrole.2]
  · rw [hr.mem_children_enter hn]
    exact or_iff_right fun hc => hg hc.2.1

theorem Drafts.enter_self (h : before.Drafts r n.group kept) (hr : r.Indexed)
    (hn : r.entries[n.key]? = none) :
    before.Drafts (r.enter n) n.group (some ((kept.getD {}).enter n)) := by
  have hexists : (r.enter n).hasGroup n.group = true := by
    refine hasGroup_iff.mpr ⟨n, ?_⟩
    cases hrole : n.role with
    | summary => exact .inl ((hr.summary_enter hn n.group).trans (if_pos ⟨hrole, rfl⟩))
    | child => exact .inr ((hr.mem_children_enter hn).mpr (.inl ⟨rfl, rfl, hrole⟩))
  have htold (m : Members) : (m.enter n).told = m.told := by
    unfold Members.enter
    split <;> rfl
  cases kept with
  | none =>
      obtain ⟨hbefore, hgone⟩ := h
      refine ⟨(Members.lists_of_not_hasGroup hr hgone).enter hr hn, ?_, .inr hexists⟩
      rw [suppressed_of_not_hasGroup hbefore]
      exact htold {}
  | some m => exact ⟨h.1.enter hr hn, (htold m).trans h.2.1, .inr hexists⟩

end Roster

namespace Directory
variable {d : Directory} {before after r : Roster} {g key : String} {n : Notice}

/-- A directory tracks the notices of the later roster and drafts its groups. -/
structure Reflects (d : Directory) (before after : Roster) : Prop where
  entries : d.entries = after.entries
  members : ∀ g : String, before.Drafts after g d.members[g]?

theorem Reflects.detach (h : d.Reflects r r) (hr : r.Indexed) (key : String) :
    (d.detach key).Reflects r (r.drop key) := by
  cases hold : r.entries[key]? with
  | none =>
      have hd : d.detach key = d := by rw [Directory.detach, h.entries, hold]
      have hsame : r.drop key = r := by rw [Roster.drop, hold]
      rwa [hd, hsame]
  | some old =>
      have hd : d.detach key =
          ⟨d.entries.erase key, d.members.modify old.group (·.without key)⟩ := by
        rw [Directory.detach, h.entries, hold]
      have hentries : (r.drop key).entries = r.entries.erase key := by rw [Roster.drop, hold]
      rw [hd]
      refine ⟨by rw [hentries, h.entries], fun g => ?_⟩
      rw [Std.ExtTreeMap.getElem?_modify]
      by_cases hg : old.group = g
      · subst hg
        rw [if_pos Std.ReflCmp.compare_self]
        exact (h.members old.group).without hr key
      · rw [if_neg (by simpa using hg)]
        exact (h.members g).drop hr hold hg

theorem Reflects.attach (h : d.Reflects before r) (hr : r.Indexed) (hn : r.entries[n.key]? = none) :
    (d.attach n).2.Reflects before (r.enter n) := by
  refine ⟨by rw [Directory.attach, h.entries, Roster.enter], fun g => ?_⟩
  rw [Directory.attach, Std.ExtTreeMap.getElem?_insert]
  by_cases hg : n.group = g
  · subst hg
    rw [if_pos Std.ReflCmp.compare_self]
    exact (h.members n.group).enter_self hr hn
  · rw [if_neg (by simpa using hg)]
    exact (h.members g).enter hr hn hg

/-- Settling a group tells how it differs between the two rosters, and brings it up to date. -/
theorem settleGroup_of_drafts (hr : after.Indexed) (h : before.Drafts after g d.members[g]?) :
    (d.settleGroup g).1 = before.changes after g ∧ (d.settleGroup g).2.entries = d.entries ∧
      after.Drafts after g (d.settleGroup g).2.members[g]? ∧
      ∀ x : String, x ≠ g → (d.settleGroup g).2.members[x]? = d.members[x]? := by
  unfold settleGroup
  cases hm : d.members[g]? with
  | none =>
      rw [hm] at h
      obtain ⟨hbefore, hafter⟩ := h
      refine ⟨(Roster.changes_of_not_hasGroup hbefore hafter).symm, rfl, ?_, fun x _ => rfl⟩
      dsimp only
      rw [hm]
      exact ⟨hafter, hafter⟩
  | some m =>
      rw [hm] at h
      obtain ⟨hlists, htold, hexists⟩ := h
      dsimp only
      rw [hlists.suppressed hr, hlists.isEmpty hr, htold]
      cases hafter : after.hasGroup g with
      | true =>
          refine ⟨by simp [Roster.changes, hafter], rfl, ?_, fun x hx => ?_⟩
          · simp only [Bool.not_true, Bool.false_eq_true, if_false]
            rw [Std.ExtTreeMap.getElem?_insert_self]
            exact ⟨⟨hlists.head, hlists.children⟩, rfl, .inl hafter⟩
          · simp [Std.ExtTreeMap.getElem?_insert, Ne.symm hx]
      | false =>
          have hbefore : before.hasGroup g = true := hexists.resolve_right (by simp [hafter])
          refine ⟨by simp [Roster.changes, hafter, hbefore], rfl, ?_, fun x hx => ?_⟩
          · simp only [Bool.not_false, if_true]
            rw [Std.ExtTreeMap.getElem?_erase_self]
            exact ⟨hafter, hafter⟩
          · simp [Std.ExtTreeMap.getElem?_erase, Ne.symm hx]

theorem settle_of_drafts (hr : after.Indexed) : ∀ {gs : List String} {d : Directory}, gs.Nodup →
    (∀ g ∈ gs, before.Drafts after g d.members[g]?) →
      (d.settle gs).1 = gs.flatMap (before.changes after) ∧ (d.settle gs).2.entries = d.entries ∧
        (∀ g ∈ gs, after.Drafts after g (d.settle gs).2.members[g]?) ∧
        ∀ g ∉ gs, (d.settle gs).2.members[g]? = d.members[g]?
  | [], d, _, _ => ⟨rfl, rfl, by simp, fun g _ => rfl⟩
  | g :: gs, d, hnodup, h => by
      obtain ⟨hnot, hgs⟩ := List.nodup_cons.mp hnodup
      obtain ⟨htold, hentries, hsettled, hother⟩ :=
        settleGroup_of_drafts hr (h g List.mem_cons_self)
      obtain ⟨htoldrest, hentriesrest, hsettledrest, hotherrest⟩ :=
        settle_of_drafts hr (d := (d.settleGroup g).2) hgs fun x hx => by
          rw [hother x fun he => hnot (he ▸ hx)]
          exact h x (List.mem_cons_of_mem g hx)
      refine ⟨?_, hentriesrest.trans hentries, fun x hx => ?_, fun x hx => ?_⟩
      · rw [settle, htold, htoldrest, List.flatMap_cons]
      · rw [settle]
        rcases List.mem_cons.mp hx with rfl | hx
        · rw [hotherrest x hnot]
          exact hsettled
        · exact hsettledrest x hx
      · obtain ⟨hne, hmem⟩ := not_or.mp fun hor => hx (List.mem_cons.mpr hor)
        rw [settle, hotherrest x hmem, hother x hne]

/-- Settling the groups that an event touches tells what the roster tells of them, and brings all
groups up to date. -/
theorem Reflects.settle {e : Event} {gs : List String} (h : d.Reflects r (r.next e))
    (hr : r.Indexed) (hgs : gs = r.touched e) :
    (d.settle gs).1 = (r.touched e).flatMap (r.changes (r.next e)) ∧
      (d.settle gs).2.Reflects (r.next e) (r.next e) := by
  subst hgs
  obtain ⟨htold, hentries, hsettled, hother⟩ :=
    settle_of_drafts (hr.next e) (r.nodup_touched e) fun g _ => h.members g
  refine ⟨htold, hentries.trans h.entries, fun g => ?_⟩
  by_cases hg : g ∈ r.touched e
  · exact hsettled g hg
  · rw [hother g hg]
    exact (h.members g).settled (hr.standing_next hg)

theorem Reflects.contains (h : d.Reflects before after) (g : String) :
    d.members.contains g = (before.hasGroup g || after.hasGroup g) := by
  have hg := h.members g
  rw [Std.ExtTreeMap.contains_eq_isSome_getElem?]
  cases hm : d.members[g]? with
  | none =>
      rw [hm] at hg
      rw [hg.1, hg.2]
      rfl
  | some m =>
      rw [hm] at hg
      exact (Bool.or_eq_true_iff.mpr hg.2.2).symm

theorem Reflects.formed (h : d.Reflects r r) (hr : r.Indexed) (n : Notice) :
    ((d.detach n.key).attach n).1 = r.formed (.added n) := by
  have hsame : (r.hasGroup n.group || (r.drop n.key).hasGroup n.group) = r.hasGroup n.group := by
    cases hdrop : (r.drop n.key).hasGroup n.group with
    | true => rw [hr.hasGroup_of_drop hdrop, Bool.or_true]
    | false => rw [Bool.or_false]
  rw [Directory.attach, (h.detach hr n.key).contains, hsame, Roster.formed]

theorem Reflects.touched (h : d.Reflects r r) (n : Notice) :
    (d.groupOf n.key ++ [n.group]).eraseDups = r.touched (.added n) := by
  rw [Directory.groupOf, h.entries, ← Roster.groupOf, Roster.touched]
  cases r.groupOf n.key with
  | none => rfl
  | some group =>
      by_cases hg : group = n.group
      · simp [List.eraseDups_cons, hg]
      · simp [List.eraseDups_cons, hg, Ne.symm hg]

/-- **One event.**  A directory that is up to date tells the group events that the roster tells, and
is up to date afterwards. -/
theorem Reflects.observe (h : d.Reflects r r) (hr : r.Indexed) (e : Event) :
    (d.observe e).1 = (r.track e).1 ∧ (d.observe e).2.Reflects (r.next e) (r.next e) := by
  have henter (n : Notice) : (d.observe (.added n)).1 = (r.track (.added n)).1 ∧
      (d.observe (.added n)).2.Reflects (r.next (.added n)) (r.next (.added n)) := by
    have hnone : (r.drop n.key).entries[n.key]? = none := by
      rw [Roster.getElem?_entries_drop, if_pos rfl]
    have hentered := (h.detach hr n.key).attach (hr.drop n.key) hnone
    obtain ⟨htold, hsettled⟩ := hentered.settle hr (h.touched n)
    refine ⟨?_, hsettled⟩
    show ((d.detach n.key).attach n).1 ++ (((d.detach n.key).attach n).2.settle _).1 = _
    rw [h.formed hr n, htold, Roster.track]
  cases e with
  | announced n | rendered n => exact ⟨rfl, h⟩
  | removed n =>
      have htouched : d.groupOf n.key = r.touched (.removed n) := by
        rw [Directory.groupOf, h.entries]
        rfl
      obtain ⟨htold, hsettled⟩ := (h.detach hr n.key).settle hr htouched
      exact ⟨htold, hsettled⟩
  | added n | updated n previous => exact henter n

/-! ### Answers of the roster -/

/-- The directory and the roster give the same answers. -/
structure Answers (d : Directory) (r : Roster) : Prop where
  entries : d.entries = r.entries
  group : ∀ g, d.suppressed g = r.suppressed g ∧ d.summary g = r.summary g ∧
    d.children g = r.children g
  groups : d.groups = r.groups

theorem Reflects.answers (h : d.Reflects r r) (hr : r.Indexed) : d.Answers r := by
  refine ⟨h.entries, fun g => ?_, ?_⟩
  · unfold suppressed summary children
    have hg := h.members g
    cases hm : d.members[g]? with
    | none =>
        rw [hm] at hg
        obtain ⟨hgone, -⟩ := hg
        rw [Roster.suppressed_of_not_hasGroup hgone, (Roster.empty_of_not_hasGroup hgone).1,
          (Roster.empty_of_not_hasGroup hgone).2]
        exact ⟨rfl, rfl, rfl⟩
    | some m =>
        rw [hm] at hg
        obtain ⟨hlists, htold, -⟩ := hg
        refine ⟨htold, ?_, ?_⟩
        · rw [Option.bind_some, hlists.head, h.entries, Roster.summary]
        · rw [Option.elim_some, hlists.toList hr, h.entries, List.filterMap_map]
          have hentry : ∀ n ∈ r.children g, r.entries[n.key]? = some n :=
            fun n hn => (hr.mem_children.mp hn).1
          exact (List.filterMap_congr hentry).trans List.filterMap_some
  · have hkeys : d.members.keys.Pairwise (compare · · = .lt) := Std.ExtTreeMap.ordered_keys
    refine Keyed.eq_of_ordered id hkeys r.pairwise_groups fun g => ?_
    rw [hr.mem_groups, groups, Std.ExtTreeMap.mem_keys, ← Std.ExtTreeMap.contains_iff_mem,
      h.contains, Bool.or_self]

/-! ### All events -/

def following (es : List Event) : Directory := es.foldl (fun d e => (d.observe e).2) {}

theorem reflects_empty : ({} : Directory).Reflects {} {} where
  entries := rfl
  members g := by
    rw [Std.ExtTreeMap.getElem?_empty]
    exact ⟨Roster.hasGroup_empty g, Roster.hasGroup_empty g⟩

end Directory

end AlertHandoff
