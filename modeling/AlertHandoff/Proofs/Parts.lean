import AlertHandoff.Proofs.Division
import AlertHandoff.Screen.Host

/-! # The parts of books and screens

What one group sees of the books and of the screen is a part of them.  A call about a key or a row
of another group leaves that part alone (`Screen.agree_raise`, `Screen.agree_host`), and the same
call on screens that agree about a group leaves them in agreement (`Screen.Agree.raise`,
`Screen.Agree.host`).  The books are compared field by field: `Arbiter.Agree.withPending` and its
neighbours put fields that agree into books that agree, which covers both. -/

namespace AlertHandoff
variable {d : Division} {g : String}

/-! ### Books -/

namespace Arbiter
variable {a b : Arbiter}

theorem Agree.withPending (h : a.Agree d g b) {m m' : Deferrals}
    (hm : ∀ key : String, d.ofKey key = g → m[key]? = m'[key]?) :
    ({ a with pending := m } : Arbiter).Agree d g { b with pending := m' } :=
  { h with pending := hm }

theorem Agree.withGroups (h : a.Agree d g b) {m m' : Keyed GroupRecord} (hm : m[g]? = m'[g]?) :
    ({ a with groups := m } : Arbiter).Agree d g { b with groups := m' } :=
  { h with groups := hm }

theorem Agree.withAnnounced (h : a.Agree d g b) {m m' : Keyed Notice}
    (hm : ∀ key : String, d.ofKey key = g → m[key]? = m'[key]?) :
    ({ a with announced := m } : Arbiter).Agree d g { b with announced := m' } :=
  { h with announced := hm }

theorem Agree.withJournal (h : a.Agree d g b) {l l' : List Action}
    (hl : l.filter (d.concerns g) = l'.filter (d.concerns g)) :
    ({ a with journal := l } : Arbiter).Agree d g { b with journal := l' } :=
  { h with journal := hl }

theorem Agree.write (h : a.Agree d g b) (actions : List Action) :
    (a.write actions).Agree d g (b.write actions) :=
  h.withJournal (by simp only [List.filter_append, h.journal])

/-- The journal of a group does not tell of another group. -/
theorem agree_write (a : Arbiter) {actions : List Action}
    (ha : ∀ x ∈ actions, d.concerns g x = false) : a.Agree d g (a.write actions) := by
  refine (Agree.refl d g a).withJournal ?_
  have hnil : actions.filter (d.concerns g) = [] :=
    List.filter_eq_nil_iff.mpr fun x hx => by simp [ha x hx]
  rw [List.filter_append, hnil, List.append_nil]

theorem Agree.modifyRecord (h : a.Agree d g b) (f : GroupRecord → GroupRecord) :
    (a.modifyRecord g f).Agree d g (b.modifyRecord g f) := by
  refine h.withGroups ?_
  rw [Std.ExtTreeMap.getElem?_insert_self, Std.ExtTreeMap.getElem?_insert_self, h.record]

theorem agree_modifyRecord (a : Arbiter) {group : String} (hg : g ≠ group)
    (f : GroupRecord → GroupRecord) : a.Agree d g (a.modifyRecord group f) := by
  refine { Agree.refl d g a with groups := ?_ }
  rw [getElem?_groups_modifyRecord, if_neg hg]

/-- Deferrals that are given up under the same condition leave the same ones of the group. -/
theorem Agree.giveUp (h : a.Agree d g b) (p : String → Deferral → Bool) (cause : Cause) :
    (a.giveUp (Keyed.extract a.pending p) cause).Agree d g
      (b.giveUp (Keyed.extract b.pending p) cause) := by
  refine { h with
    pending := fun key hk => ?_
    journal := ?_ }
  · simp only [Arbiter.giveUp, Keyed.getElem?_extract_snd, h.pending key hk]
  · have hkeys := Keyed.filter_extract_congr (q := fun key => d.ofKey key == g) p
      fun key hk => h.pending key (by simpa using hk)
    simp only [Arbiter.giveUp, List.filter_append, h.journal, List.filter_map]
    simp only [Function.comp_def, Division.concerns]
    rw [hkeys]

/-- Giving up deferrals of other groups is none of the group's concern. -/
theorem agree_giveUp (a : Arbiter) {p : String → Deferral → Bool} (cause : Cause)
    (hp : ∀ (key : String) r, a.pending[key]? = some r → p key r = true → d.ofKey key ≠ g) :
    a.Agree d g (a.giveUp (Keyed.extract a.pending p) cause) := by
  refine { Agree.refl d g a with
    pending := fun key hk => ?_
    journal := ?_ }
  · simp only [Arbiter.giveUp, Keyed.getElem?_extract_snd]
    cases hr : a.pending[key]? with
    | none => rfl
    | some r =>
        have hf : p key r = false := by
          rw [← Bool.not_eq_true]
          exact fun ht => hp key r hr ht hk
        simp [Option.filter, hf]
  · have hnil : ((Keyed.extract a.pending p).1.map (Action.voided · cause)).filter (d.concerns g) =
        [] := by
      rw [List.filter_eq_nil_iff]
      intro x hx
      obtain ⟨key, hkey, rfl⟩ := List.mem_map.mp hx
      obtain ⟨r, hr, hpr⟩ := Keyed.mem_extract_fst.mp hkey
      simpa [Division.concerns] using hp key r hr hpr
    simp only [Arbiter.giveUp, List.filter_append, hnil, List.append_nil]

/-- Quiet mode comes over every group alike. -/
theorem Agree.setQuiet (h : a.Agree d g b) (on : Bool) :
    (a.setQuiet on).Agree d g (b.setQuiet on) := by
  -- First every record is cleared, then the live deferrals are given up.
  have hclear : ∀ {a b : Arbiter}, a.Agree d g b →
      ({ a with quiet := on, groups := a.groups.map fun _ _ => {} } : Arbiter).Agree d g
        { b with quiet := on, groups := b.groups.map fun _ _ => {} } := fun h =>
    { h with
      quiet := rfl
      groups := by simp only [Std.ExtTreeMap.getElem?_map, h.groups] }
  have hfirst : (if a.quiet = on then a
        else { a with quiet := on, groups := a.groups.map fun _ _ => {} } : Arbiter).Agree d g
      (if b.quiet = on then b
        else { b with quiet := on, groups := b.groups.map fun _ _ => {} }) := by
    rw [h.quiet]
    split
    · exact h
    · exact hclear h
  unfold Arbiter.setQuiet
  cases on with
  | false => exact hfirst
  | true => exact hfirst.giveUp _ .quiet

end Arbiter

/-! ### Presenters -/

namespace Screen
variable {s t : Screen} {n : Notice} {key : String}

theorem mem_feed {k : Kind} {c : Change} : c ∈ s.feed k ↔ (k, c) ∈ s.news := by
  rw [mem_news]
  unfold feed
  cases s.presenter k <;> simp

theorem feed_callPresenter (s : Screen) (kind k : Kind) (call : Call)
    (effect : Presenter → Presenter) :
    (s.callPresenter kind call effect).feed k =
      if k = kind then (s.presenter k).elim [] fun p => (effect p).feed else s.feed k := by
  unfold feed
  rw [presenter_callPresenter]
  split
  · cases s.presenter k <;> rfl
  · rfl

theorem feed_raise (s : Screen) (kind k : Kind) (n : Notice) :
    (s.raise kind n).feed k =
      s.feed k ++
        if k = kind ∧ (s.presenter k).isSome = true ∧ s.isUp k n.key = false then [.raised n]
        else [] := by
  rw [raise, feed_callPresenter]
  unfold feed isUp Presenter.raise
  by_cases hk : k = kind <;> cases s.presenter k <;> grind

theorem feed_update (s : Screen) (kind k : Kind) (key : String) (alert : Bool) :
    (s.update kind key alert).feed k = s.feed k := by
  rw [update, feed_callPresenter]
  unfold feed Presenter.update
  split
  · cases s.presenter k <;> grind
  · rfl

theorem feed_dismiss (s : Screen) (kind k : Kind) (key : String) :
    (s.dismiss kind key).feed k =
      s.feed k ++ if k = kind ∧ s.isUp k key = true then [.dismissed key] else [] := by
  rw [dismiss, feed_callPresenter]
  unfold feed isUp Presenter.dismiss
  by_cases hk : k = kind <;> cases s.presenter k <;> grind

/-- A call on a presenter leaves the form of content it needs. -/
theorem flag_callPresenter {effect : Presenter → Presenter} (he : ∀ p, (effect p).flag = p.flag)
    (s : Screen) (kind k : Kind) (call : Call) :
    ((s.callPresenter kind call effect).presenter k).map (·.flag) =
      (s.presenter k).map (·.flag) := by
  rw [presenter_callPresenter]
  split
  · cases s.presenter k <;> simp [he]
  · rfl

theorem agree_raise (s : Screen) (kind : Kind) (hn : d.ofKey n.key ≠ g) :
    s.Agree d g (s.raise kind n) where
  flag k := (flag_callPresenter (fun p => p.flag_raise n) s kind k _).symm
  up k key hk := by
    have hne : key ≠ n.key := by
      rintro rfl
      exact hn hk
    simp [hne]
  feed k := by
    rw [feed_raise, List.filter_append]
    split <;> simp [Division.ofChange, hn]
  rows row _ := by rw [Screen.raise, rows_callPresenter]

theorem agree_update (s : Screen) (kind : Kind) (key : String) (alert : Bool) :
    s.Agree d g (s.update kind key alert) where
  flag k := (flag_callPresenter (fun p => p.flag_update key alert) s kind k _).symm
  up k x _ := by rw [isUp_update]
  feed k := by rw [feed_update]
  rows row _ := by rw [Screen.update, rows_callPresenter]

theorem agree_dismiss (s : Screen) (kind : Kind) (hn : d.ofKey key ≠ g) :
    s.Agree d g (s.dismiss kind key) where
  flag k := (flag_callPresenter (fun p => p.flag_dismiss key) s kind k _).symm
  up k x hk := by
    have hne : x ≠ key := by
      rintro rfl
      exact hn hk
    simp [hne]
  feed k := by
    rw [feed_dismiss, List.filter_append]
    split <;> simp [Division.ofChange, hn]
  rows row _ := by rw [Screen.dismiss, rows_callPresenter]

theorem agree_alert (s : Screen) (kind : Kind) (hn : d.ofKey n.key ≠ g) :
    s.Agree d g (s.alert kind n) := by
  unfold Screen.alert
  split
  · exact agree_update s kind n.key true
  · exact agree_raise s kind hn

theorem Agree.update (h : s.Agree d g t) (kind : Kind) (key : String) (alert : Bool) :
    (s.update kind key alert).Agree d g (t.update kind key alert) :=
  (agree_update s kind key alert).symm.trans (h.trans (agree_update t kind key alert))

theorem Agree.raise (h : s.Agree d g t) (kind : Kind) (hn : d.ofKey n.key = g) :
    (s.raise kind n).Agree d g (t.raise kind n) where
  flag k := by
    have hf := flag_callPresenter fun p => p.flag_raise n
    exact (hf s kind k _).trans ((h.flag k).trans (hf t kind k _).symm)
  up k key hk := by simp only [isUp_raise, h.up k key hk, h.isSome k]
  feed k := by simp only [feed_raise, List.filter_append, h.feed k, h.isSome k, h.up k _ hn]
  rows row hr := by simp only [Screen.raise, rows_callPresenter, h.rows row hr]

theorem Agree.dismiss (h : s.Agree d g t) (kind : Kind) (hn : d.ofKey key = g) :
    (s.dismiss kind key).Agree d g (t.dismiss kind key) where
  flag k := by
    have hf := flag_callPresenter fun p => p.flag_dismiss key
    exact (hf s kind k _).trans ((h.flag k).trans (hf t kind k _).symm)
  up k x hk := by simp only [isUp_dismiss, h.up k x hk]
  feed k := by simp only [feed_dismiss, List.filter_append, h.feed k, h.up k _ hn]
  rows row hr := by simp only [Screen.dismiss, rows_callPresenter, h.rows row hr]

theorem Agree.alert (h : s.Agree d g t) (kind : Kind) (hn : d.ofKey n.key = g) :
    (s.alert kind n).Agree d g (t.alert kind n) := by
  unfold Screen.alert
  rw [h.up kind _ hn]
  split
  · exact h.update kind n.key true
  · exact h.raise kind hn

@[simp] theorem feed_read (s : Screen) (k : Kind) : s.read.feed k = [] := by
  unfold feed
  rw [presenter_read]
  cases s.presenter k <;> rfl

/-- Every feed is read: nothing is left of any group. -/
theorem Agree.read (h : s.Agree d g t) : s.read.Agree d g t.read where
  flag k := by
    have hf : ∀ s : Screen, (s.read.presenter k).map (·.flag) = (s.presenter k).map (·.flag) := by
      intro s
      rw [presenter_read]
      cases s.presenter k <;> rfl
    rw [hf s, hf t, h.flag k]
  up k key hk := by rw [isUp_read, isUp_read, h.up k key hk]
  feed k := by rw [feed_read, feed_read]
  rows := h.rows

/-! ### Rows -/

/-- The presenters have no part in what becomes of the rows. -/
theorem Agree.withRows (h : s.Agree d g t) {rows rows' : String → Row} (calls calls' : List Call)
    (hr : ∀ row, d.ofRow row = g → rows row = rows' row) :
    ({ s with rows, calls } : Screen).Agree d g { t with rows := rows', calls := calls' } where
  flag := h.flag
  up := h.up
  feed := h.feed
  rows := hr

theorem agree_setRow (s : Screen) {row : String} (hn : d.ofRow row ≠ g) (r : Row)
    (calls : List Call) : s.Agree d g { s.setRow row r with calls } := by
  refine (Agree.refl d g s).withRows _ _ fun x hx => ?_
  have hne : x ≠ row := by
    rintro rfl
    exact hn hx
  exact (if_neg hne).symm

theorem Agree.setRow (h : s.Agree d g t) {row : String} (hn : d.ofRow row = g) (f : Row → Row)
    (calls calls' : List Call) :
    ({ s.setRow row (f (s.rows row)) with calls } : Screen).Agree d g
      { t.setRow row (f (t.rows row)) with calls := calls' } := by
  refine h.withRows _ _ fun x hx => ?_
  rw [rows_setRow, rows_setRow, h.rows row hn, h.rows x hx]

theorem agree_request (s : Screen) {row : String} (hn : d.ofRow row ≠ g) (flag : Flag) :
    s.Agree d g (s.request row flag) :=
  agree_setRow s hn _ _

theorem agree_release (s : Screen) {row : String} (hn : d.ofRow row ≠ g) (flag : Flag) :
    s.Agree d g (s.release row flag) :=
  agree_setRow s hn _ _

theorem Agree.request (h : s.Agree d g t) {row : String} (hn : d.ofRow row = g) (flag : Flag) :
    (s.request row flag).Agree d g (t.request row flag) :=
  h.setRow hn (·.request flag) _ _

theorem Agree.release (h : s.Agree d g t) {row : String} (hn : d.ofRow row = g) (flag : Flag) :
    (s.release row flag).Agree d g (t.release row flag) :=
  h.setRow hn (·.release flag) _ _

/-! ### Calls of the host -/

theorem Agree.register (h : s.Agree d g t) (kind : Kind) (flag : Flag) :
    (s.register kind flag).Agree d g (t.register kind flag) where
  flag k := by
    unfold Screen.register
    rw [presenter_setPresenter, presenter_setPresenter]
    split
    · rfl
    · exact h.flag k
  up k key hk := by
    have hu := h.up k key hk
    unfold Screen.isUp Screen.register at *
    rw [presenter_setPresenter, presenter_setPresenter]
    split
    · rfl
    · exact hu
  feed k := by
    have hf := h.feed k
    unfold Screen.feed Screen.register at *
    rw [presenter_setPresenter, presenter_setPresenter]
    split
    · rfl
    · exact hf
  rows row hr := by simp only [Screen.register, rows_setPresenter, h.rows row hr]

theorem presenter_drain (s : Screen) (kind k : Kind) :
    (s.drain kind).presenter k =
      if k = kind then (s.presenter k).map (·.read) else s.presenter k := by
  unfold drain
  split
  · next hp => split <;> simp_all
  · next p hp =>
    rw [presenter_setPresenter]
    split <;> simp_all

theorem rows_drain (s : Screen) (kind : Kind) : (s.drain kind).rows = s.rows := by
  unfold drain
  split <;> simp

theorem Agree.drain (h : s.Agree d g t) (kind : Kind) :
    (s.drain kind).Agree d g (t.drain kind) where
  flag k := by
    have hf : ∀ s : Screen, ((s.drain kind).presenter k).map (·.flag) =
        (s.presenter k).map (·.flag) := by
      intro s
      rw [presenter_drain]
      split
      · cases s.presenter k <;> rfl
      · rfl
    rw [hf s, hf t, h.flag k]
  up k key hk := by
    have hu : ∀ s : Screen, (s.drain kind).isUp k key = s.isUp k key := by
      intro s
      unfold Screen.isUp
      rw [presenter_drain]
      split
      · cases s.presenter k <;> rfl
      · rfl
    rw [hu s, hu t, h.up k key hk]
  feed k := by
    have hf : ∀ s : Screen, (s.drain kind).feed k = if k = kind then [] else s.feed k := by
      intro s
      unfold Screen.feed
      rw [presenter_drain]
      split
      · cases s.presenter k <;> rfl
      · rfl
    rw [hf s, hf t]
    split
    · rfl
    · exact h.feed k
  rows row hr := by rw [rows_drain, rows_drain, h.rows row hr]

end Screen

/-- The group that a call of the host is about, if it is about one. -/
def Division.ofCall (d : Division) : HostCall → Option String
  | .raise _ n => some (d.ofKey n.key)
  | .update _ key _ | .dismiss _ key => some (d.ofKey key)
  | .prepare row _ _ => some (d.ofRow row)
  | .register _ _ | .drain _ => none

namespace Screen
variable {s t : Screen} {c : HostCall}

/-- What the host does about another group is none of the group's concern. -/
theorem agree_host (s : Screen) {h : String} (hc : d.ofCall c = some h) (hne : h ≠ g) :
    s.Agree d g (s.host c).1 := by
  cases c with
  | raise kind n =>
      cases hc
      exact agree_raise s kind hne
  | update kind key alert => exact agree_update s kind key alert
  | dismiss kind key =>
      cases hc
      exact agree_dismiss s kind hne
  | prepare row flag on =>
      cases hc
      exact agree_setRow s hne _ s.calls
  | register kind flag => cases hc
  | drain kind => cases hc

/-- What the host does about the group, or about all, it does to screens that agree alike. -/
theorem Agree.host (h : s.Agree d g t) (hc : ∀ x, d.ofCall c = some x → x = g) :
    (s.host c).1.Agree d g (t.host c).1 := by
  cases c with
  | raise kind n => exact h.raise kind (hc _ rfl)
  | update kind key alert => exact h.update kind key alert
  | dismiss kind key => exact h.dismiss kind (hc _ rfl)
  | prepare row flag on => exact h.setRow (hc _ rfl) (·.prepare flag on) s.calls t.calls
  | register kind flag => exact h.register kind flag
  | drain kind => exact h.drain kind

end Screen
end AlertHandoff
