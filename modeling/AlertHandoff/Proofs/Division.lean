import AlertHandoff.Proofs.Within

/-! # Dividing keys and rows among groups

A `Division` gives every key and every row to one group.  Where all notices keep to a division, two
scenes can be compared group by group: `Scene.Agree d g` says that they tell the same about the
group `g`, and nothing about any other.  It is an equivalence, and everything the arbiter asks
before it hands an alert of the group over has the same answer in scenes that agree
(`Scene.Agree.outcome`, `Scene.Agree.mayForward`, `Scene.Agree.mayHandBack`).

`Scene.Divided` says that what a scene remembers keeps to the division: no deferral and no scheduled
alert crosses from one group to another. -/

namespace AlertHandoff

namespace Keyed
variable {α : Type}

/-- Maps that bind the same keys to the values with a property list these values alike. -/
theorem filter_items_congr {m m' : Keyed α} {p : α → Bool}
    (h : ∀ (key : String) a, p a = true → (m[key]? = some a ↔ m'[key]? = some a)) :
    (items m).filter p = (items m').filter p := by
  have hm : m.filter (fun _ a => p a) = m'.filter fun _ a => p a := by
    apply Std.ExtTreeMap.ext_getElem?
    intro key
    ext a
    simp only [Std.ExtTreeMap.getElem?_filter', Option.filter_eq_some_iff]
    constructor
    · exact fun ⟨ha, hp⟩ => ⟨(h key a hp).mp ha, hp⟩
    · exact fun ⟨ha, hp⟩ => ⟨(h key a hp).mpr ha, hp⟩
  have hl := congrArg items hm
  simpa only [items, Std.ExtTreeMap.toList_filter, List.filter_map, Function.comp_def] using hl

/-- Maps that agree on the keys with a property give up the same of these keys. -/
theorem filter_extract_congr {m m' : Keyed α} {q : String → Bool} (p : String → α → Bool)
    (h : ∀ key : String, q key = true → m[key]? = m'[key]?) :
    (extract m p).1.filter q = (extract m' p).1.filter q := by
  have hm : (m.filter p).filter (fun key _ => q key) = (m'.filter p).filter fun key _ => q key := by
    apply Std.ExtTreeMap.ext_getElem?
    intro key
    simp only [Std.ExtTreeMap.getElem?_filter']
    by_cases hq : q key = true
    · rw [h key hq]
    · simp [hq]
  have hl := congrArg Std.ExtTreeMap.keys hm
  simpa only [extract, ← Std.ExtTreeMap.map_fst_toList_eq_keys, Std.ExtTreeMap.toList_filter,
    List.filter_map, Function.comp_def] using hl

end Keyed

/-- The group that every key belongs to, and the group whose notices every row draws. -/
structure Division where
  ofKey : String → String
  ofRow : String → String

namespace Division

/-- The notice, its key and its row belong to the group. -/
structure Belongs (d : Division) (g : String) (n : Notice) : Prop where
  group : n.group = g
  key : d.ofKey n.key = g
  row : d.ofRow n.row = g

/-- The notice is in the group that its key and its row belong to. -/
def Admits (d : Division) (n : Notice) : Prop := d.Belongs n.group n

instance (d : Division) (n : Notice) : Decidable (d.Admits n) :=
  decidable_of_iff (d.ofKey n.key = n.group ∧ d.ofRow n.row = n.group)
    ⟨fun h => ⟨rfl, h.1, h.2⟩, fun h => ⟨h.key, h.row⟩⟩

/-- The group that a change is about. -/
def ofChange (d : Division) : Change → String
  | .raised n => d.ofKey n.key
  | .dismissed key => d.ofKey key

/-- The action names the group or a key of the group. -/
def concerns (d : Division) (g : String) : Action → Bool
  | .moved source target _ | .deferred source target _ => d.ofKey source == g || d.ofKey target == g
  | .completed key _ | .reversed key | .voided key _ => d.ofKey key == g
  | .scheduled group _ => group == g

variable {d : Division} {g h : String} {n : Notice}

theorem ne_of_ofKey {key x : String} (hk : d.ofKey key = h) (hx : d.ofKey x = g) (hg : g ≠ h) :
    key ≠ x := by
  rintro rfl
  exact hg (hx.symm.trans hk)

theorem Belongs.admits (h : d.Belongs g n) : d.Admits n := by
  obtain ⟨rfl, hk, hr⟩ := h
  exact ⟨rfl, hk, hr⟩

theorem Admits.belongs (h : d.Admits n) (hk : d.ofKey n.key = g) : d.Belongs g n := by
  obtain rfl : n.group = g := h.key.symm.trans hk
  exact h

end Division

/-! ### Agreement about a group -/

/-- The changes of a kind that nobody has read yet. -/
def Screen.feed (s : Screen) (k : Kind) : List Change := (s.presenter k).elim [] (·.feed)

/-- The settings and quiet mode are the same, and so is what the books hold about the group. -/
structure Arbiter.Agree (d : Division) (g : String) (a b : Arbiter) : Prop where
  settings : a.settings = b.settings
  quiet : a.quiet = b.quiet
  pending : ∀ key : String, d.ofKey key = g → a.pending[key]? = b.pending[key]?
  groups : a.groups[g]? = b.groups[g]?
  announced : ∀ key : String, d.ofKey key = g → a.announced[key]? = b.announced[key]?
  journal : a.journal.filter (d.concerns g) = b.journal.filter (d.concerns g)

/-- The kinds have presenters of the same form, and the keys, the news and the rows of the group are
the same. -/
structure Screen.Agree (d : Division) (g : String) (s t : Screen) : Prop where
  flag : ∀ k, (s.presenter k).map (·.flag) = (t.presenter k).map (·.flag)
  up : ∀ k key, d.ofKey key = g → s.isUp k key = t.isUp k key
  feed : ∀ k, (s.feed k).filter (d.ofChange · == g) = (t.feed k).filter (d.ofChange · == g)
  rows : ∀ row, d.ofRow row = g → s.rows row = t.rows row

/-- The scenes tell the same about the group. -/
structure Scene.Agree (d : Division) (g : String) (s t : Scene) : Prop where
  arbiter : s.arbiter.Agree d g t.arbiter
  screen : s.screen.Agree d g t.screen

/-- The groupings give the same answers for the group. -/
structure Grouping.Agree (g : String) (G G' : Grouping) : Prop where
  suppressed : G.suppressed g = G'.suppressed g
  summary : G.summary g = G'.summary g
  children : G.children g = G'.children g

/-- The members of every group of the grouping belong to it. -/
def Grouping.Divided (d : Division) (G : Grouping) : Prop :=
  ∀ g n, Scene.Member G g n → d.Belongs g n

/-- Every deferral comes from a key of the group that its destination belongs to. -/
def Deferrals.Divided (d : Division) (m : Deferrals) : Prop :=
  ∀ (key : String) r, m[key]? = some r → d.ofKey r.source = d.ofKey key

/-- What the scene remembers keeps to the division. -/
structure Scene.Divided (d : Division) (s : Scene) : Prop where
  pending : Deferrals.Divided d s.arbiter.pending
  schedule : ∀ group due, (s.arbiter.record group).schedule = some due →
    d.ofKey due.source = group
  announced : ∀ (key : String) n, s.arbiter.announced[key]? = some n → n.key = key ∧ d.Admits n
  raised : ∀ k n, .raised n ∈ s.screen.feed k → d.Admits n

variable {d : Division} {g : String}

namespace Arbiter
variable {a b c : Arbiter}

theorem Agree.refl (d : Division) (g : String) (a : Arbiter) : a.Agree d g a where
  settings := rfl
  quiet := rfl
  pending _ _ := rfl
  groups := rfl
  announced _ _ := rfl
  journal := rfl

theorem Agree.symm (h : a.Agree d g b) : b.Agree d g a where
  settings := h.settings.symm
  quiet := h.quiet.symm
  pending key hk := (h.pending key hk).symm
  groups := h.groups.symm
  announced key hk := (h.announced key hk).symm
  journal := h.journal.symm

theorem Agree.trans (h : a.Agree d g b) (h' : b.Agree d g c) : a.Agree d g c where
  settings := h.settings.trans h'.settings
  quiet := h.quiet.trans h'.quiet
  pending key hk := (h.pending key hk).trans (h'.pending key hk)
  groups := h.groups.trans h'.groups
  announced key hk := (h.announced key hk).trans (h'.announced key hk)
  journal := h.journal.trans h'.journal

theorem Agree.record (h : a.Agree d g b) : a.record g = b.record g := by
  unfold Arbiter.record
  rw [h.groups]

end Arbiter

namespace Screen
variable {s t u : Screen}

theorem Agree.refl (d : Division) (g : String) (s : Screen) : s.Agree d g s where
  flag _ := rfl
  up _ _ _ := rfl
  feed _ := rfl
  rows _ _ := rfl

theorem Agree.symm (h : s.Agree d g t) : t.Agree d g s where
  flag k := (h.flag k).symm
  up k key hk := (h.up k key hk).symm
  feed k := (h.feed k).symm
  rows row hr := (h.rows row hr).symm

theorem Agree.trans (h : s.Agree d g t) (h' : t.Agree d g u) : s.Agree d g u where
  flag k := (h.flag k).trans (h'.flag k)
  up k key hk := (h.up k key hk).trans (h'.up k key hk)
  feed k := (h.feed k).trans (h'.feed k)
  rows row hr := (h.rows row hr).trans (h'.rows row hr)

theorem Agree.isSome (h : s.Agree d g t) (k : Kind) :
    (s.presenter k).isSome = (t.presenter k).isSome := by
  simpa using congrArg Option.isSome (h.flag k)

theorem Agree.presenters (h : s.Agree d g t) (k : Kind) :
    (s.presenter k = none ∧ t.presenter k = none) ∨
      ∃ p q, s.presenter k = some p ∧ t.presenter k = some q ∧ p.flag = q.flag := by
  have hf := h.flag k
  cases hs : s.presenter k with
  | none =>
      rw [hs, Option.map_none] at hf
      exact .inl ⟨rfl, Option.map_eq_none_iff.mp hf.symm⟩
  | some p =>
      rw [hs, Option.map_some] at hf
      obtain ⟨q, hq, he⟩ := Option.map_eq_some_iff.mp hf.symm
      exact .inr ⟨p, q, rfl, hq, he.symm⟩

theorem Agree.isReady (h : s.Agree d g t) {row : String} (hr : d.ofRow row = g) (flag : Flag) :
    s.isReady row flag = t.isReady row flag := by
  unfold Screen.isReady
  rw [h.rows row hr]

theorem Agree.kindUp? (h : s.Agree d g t) {key : String} (hk : d.ofKey key = g) :
    s.kindUp? key = t.kindUp? key := by
  have hu : (s.isUp · key) = (t.isUp · key) := funext fun k => h.up k key hk
  unfold Screen.kindUp?
  rw [hu]

theorem Agree.isUpSomewhere (h : s.Agree d g t) {key : String} (hk : d.ofKey key = g) :
    s.isUpSomewhere key = t.isUpSomewhere key := by
  unfold Screen.isUpSomewhere
  rw [h.kindUp? hk]

end Screen

namespace Scene
variable {s t u : Scene}

theorem Agree.refl (d : Division) (g : String) (s : Scene) : s.Agree d g s :=
  ⟨.refl d g _, .refl d g _⟩

theorem Agree.symm (h : s.Agree d g t) : t.Agree d g s := ⟨h.arbiter.symm, h.screen.symm⟩

theorem Agree.trans (h : s.Agree d g t) (h' : t.Agree d g u) : s.Agree d g u :=
  ⟨h.arbiter.trans h'.arbiter, h.screen.trans h'.screen⟩

/-! ### Questions -/

/-- What comes of handing an alert over to a notice of the group. -/
theorem Agree.outcome (h : s.Agree d g t) {n : Notice} (hn : d.Belongs g n) (kind : Kind) :
    s.outcome n kind = t.outcome n kind := by
  unfold Scene.outcome
  rcases h.screen.presenters kind with ⟨hs, ht⟩ | ⟨p, q, hs, ht, hf⟩
  · simp only [hs, ht]
  · simp only [hs, ht, hf, h.screen.isReady hn.row]

/-- The children that are about to join the group. -/
theorem Agree.joining (h : s.Agree d g t) (hs : s.Divided d) (ht : t.Divided d)
    (known : List Notice) :
    s.arbiter.joining g known = t.arbiter.joining g known := by
  apply Keyed.filter_items_congr
  intro key n hn
  simp only [Bool.and_eq_true, beq_iff_eq] at hn
  -- A notice of the group is announced under a key of the group, where the books agree.
  have hkey : n.key = key ∧ d.Admits n → d.ofKey key = g := by
    rintro ⟨rfl, ha⟩
    exact ha.key.trans hn.1.2
  constructor
  · intro hk
    rwa [← h.arbiter.announced key (hkey (hs.announced key n hk))]
  · intro hk
    rwa [h.arbiter.announced key (hkey (ht.announced key n hk))]

theorem Agree.expected (h : s.Agree d g t) (hs : s.Divided d) (ht : t.Divided d)
    {G G' : Grouping} (hG : G.Agree g G') : s.expected G g = t.expected G' g := by
  unfold Scene.expected
  rw [hG.children, h.joining hs ht]
  congr 2
  apply List.filter_congr
  intro n hn
  obtain ⟨⟨key, hk⟩, -, hg, -⟩ := Arbiter.mem_joining.mp hn
  have ha := (ht.announced key n hk).2
  rw [h.screen.isUpSomewhere (ha.key.trans hg)]

/-- Whether an alert of the group may be moved on. -/
theorem Agree.mayForward (h : s.Agree d g t) (hs : s.Divided d) (ht : t.Divided d)
    {G G' : Grouping} (hG : G.Agree g G') {summary : Notice} (hn : d.Belongs g summary)
    (kind : Kind) : s.mayForward G summary kind = t.mayForward G' summary kind := by
  obtain ⟨rfl, hkey, -⟩ := hn
  unfold Scene.mayForward
  rw [h.arbiter.quiet, hG.suppressed, h.screen.up kind _ hkey, hG.children, h.joining hs ht]

/-- Whether alerts of the group may be taken back. -/
theorem Agree.mayHandBack (h : s.Agree d g t) (hs : s.Divided d) (ht : t.Divided d)
    {G G' : Grouping} (hG : G.Agree g G') (now : Nat) (summary : Notice) :
    s.mayHandBack G now g summary = t.mayHandBack G' now g summary := by
  unfold Scene.mayHandBack
  rw [h.arbiter.quiet, h.arbiter.record, h.arbiter.settings, h.expected hs ht hG]

theorem heir?_congr {G G' : Grouping} (hG : G.Agree g G') : heir? G g = heir? G' g := by
  unfold heir?
  rw [hG.children]

end Scene
end AlertHandoff
