import AlertHandoff.Proofs.Sole

/-! # One event and the one alert

An event leaves the alert of every group in one place (`sole_result`), with two exceptions.  A
scheduled alert of the summary falls due when the suppression of the group ends, even if a child has
got the alert in the meantime (`Moment.outdated`).  And a child may come into the group that alerts
already, while the alert of the group is elsewhere (`Cast.intrudes`). -/

namespace AlertHandoff

/-- The keys that alert as a heads-up. -/
def Screen.shown (s : Screen) : List String := (s.presenter .headsUp).elim [] (·.up.toList)

theorem Screen.mem_shown {s : Screen} {key : String} :
    key ∈ s.shown ↔ s.isUp .headsUp key = true := by
  cases h : s.presenter .headsUp with
  | none => simp [shown, isUp, h]
  | some p => simp [shown, isUp, h, Presenter.isUp]

/-- The keys that have the alert: those that are up and those that are awaited. -/
def Scene.bearers (s : Scene) : List String :=
  s.screen.shown ++ s.arbiter.pending.keys.filter s.arbiter.pending.awaits

theorem Scene.mem_bearers {s : Scene} {key : String} :
    key ∈ s.bearers ↔ s.Holds key ∨ s.Awaits key := by
  have hawaits : s.arbiter.pending.awaits key = true ↔ s.Awaits key := by
    simp [Deferrals.awaits, Awaits, Option.any_eq_true]
  unfold bearers
  rw [List.mem_append, Screen.mem_shown, List.mem_filter, hawaits, Std.ExtTreeMap.mem_keys]
  refine or_congr_right ⟨fun h => h.2, fun h => ⟨?_, h⟩⟩
  obtain ⟨d, hd, -⟩ := h
  rw [Std.ExtTreeMap.mem_iff_isSome_getElem?, hd]
  rfl

/-- The suppression of a group ends, and quiet mode is off. -/
def Moment.releases (m : Moment) (g : String) : Bool :=
  m.roster.suppressed g && !m.next.suppressed g && !m.after.arbiter.quiet

/-- The suppression of a group ends and the scheduled alert of its summary falls due, although a
child has the alert. -/
def Moment.outdated (m : Moment) (g : String) : Bool :=
  m.releases g && (m.next.summary g).isSome && (m.after.arbiter.record g).schedule.isSome &&
    (m.next.children g).any fun n => n.key ∈ m.after.bearers

/-- The event says that a notice is there. -/
def Event.isArrival : Event → Bool
  | .added _ | .updated _ _ => true
  | .announced _ | .removed _ | .rendered _ => false

/-- A child that the roster does not track arrives while it alerts and another key of its group has
the alert, and that does not end the suppression of the group. -/
def Cast.intrudes (c : Cast) (m : Moment) : Bool :=
  m.event.isArrival && m.event.notice.role = .child &&
    m.roster.entries[m.event.notice.key]?.isNone && m.event.notice.key ∈ m.scene.screen.shown &&
    !m.releases m.event.notice.group &&
    m.scene.bearers.any fun key =>
      key ≠ m.event.notice.key && (c.place key).group = m.event.notice.group

/-- The event says that a notice is there or gone, as far as the roster is concerned. -/
def Event.isEntry : Event → Bool
  | .added _ | .updated _ _ | .removed _ => true
  | .announced _ | .rendered _ => false

/-- Only heads-ups have a presenter, and a move may be taken back at any time. -/
structure Scene.Plain (s : Scene) : Prop where
  ambient : s.screen.presenter .ambientPulse = none
  window : s.arbiter.settings.window = none

namespace Scene.Plain
variable {s t : Scene} {P : Notice → Prop}

theorem within (h : s.Plain) (hw : s.Within P t) : t.Plain where
  ambient := by
    have hp := hw.presenter .ambientPulse
    rw [h.ambient] at hp
    simpa using hp
  window := by
    rw [hw.settings]
    exact h.window

theorem read (h : s.Plain) : ({ s with screen := s.screen.read } : Scene).Plain where
  ambient := by
    show s.screen.read.presenter .ambientPulse = none
    rw [Screen.presenter_read, h.ambient]
    rfl
  window := h.window

theorem quiesce (h : s.Plain) (g : Grouping) (now : Nat) : (s.quiesce g now).Plain :=
  Scene.quiesce_keeps g now (fun x _ t (ht : t.Plain) =>
    ht.within (t.within_handleChange g now x.1 x.2)) (fun _ _ ht => ht.read) (fun _ ht => ht) h

end Scene.Plain

namespace Cast
variable {c : Cast} {m : Moment} {r r' : Roster} {g : String} {s t : Scene}
  {due : List (Kind × Change)}

/-! ### Other announced notices, other rosters -/

/-- Other announced notices leave the alert in one place if nobody is about to join a sealed group. -/
theorem Sole.relist (hs : Sole c r g [] s) {announced : Keyed Notice}
    (h : Sealed r s g → s.arbiter.quiet = false →
      (∀ k, c.place k = ⟨g, .child⟩ → s.Holds k → r.Tracks k) →
      { s.arbiter with announced }.joining g (r.children g) = []) :
    Sole c r g [] { s with arbiter := { s.arbiter with announced } } where
  tracked := hs.tracked
  lone := hs.lone
  hush := hs.hush
  lent := hs.lent
  sealed hh hk h₁ h₂ h₃ := by
    obtain ⟨hsl, hall⟩ := hs.sealed hh hk h₁ h₂ h₃
    have hq : s.arbiter.quiet = false := by
      rw [Bool.eq_false_iff]
      exact fun hq => hs.hush (group_of_place hh) hq h₁
    exact ⟨⟨hsl.1, h hsl hq hall⟩, hall⟩
  owner hh hk h₁ h₂ h₃ := by
    obtain ⟨-, -, n, hn, -⟩ := hs.owner hh hk h₁ h₂ h₃
    cases hn
  sole := hs.sole

theorem Sole.under (hs : Sole c r g [] s)
    (ht : ∀ k, (c.place k).group = g → (r'.Tracks k ↔ r.Tracks k))
    (hsup : r'.suppressed g = r.suppressed g)
    (hch : ∀ n, n ∈ r'.children g ↔ n ∈ r.children g) : Sole c r' g [] s where
  tracked hk ha := (ht _ hk).mpr (hs.tracked hk ha)
  lone := hs.lone
  hush := hs.hush
  lent hk hd hl := by
    rw [hsup]
    exact hs.lent hk hd hl
  sealed hh hk h₁ h₂ h₃ := by
    obtain ⟨hsl, hall⟩ := hs.sealed hh hk h₁ ((ht _ (group_of_place hk)).mp h₂) h₃
    refine ⟨⟨hsup.trans hsl.1, ?_⟩, fun k' hk' hu => ?_⟩
    · have hj := hsl.2
      rw [Arbiter.joining_eq_nil_iff] at hj ⊢
      intro key n hn hr hg
      obtain ⟨x, hx, hkey⟩ := hj key n hn hr hg
      exact ⟨x, (hch x).mpr hx, hkey⟩
    · exact (ht _ (group_of_place hk')).mpr (hall k' hk' hu)
  owner hh hk h₁ h₂ h₃ := by
    obtain ⟨-, -, n, hn, -⟩ := hs.owner hh hk h₁ ((ht _ (group_of_place hk)).mp h₂) h₃
    cases hn
  sole hk hk' h₁ h₂ h₃ h₄ := hs.sole hk hk' ((ht _ (group_of_place hk)).mp h₁)
    ((ht _ (group_of_place hk')).mp h₂) h₃ h₄

theorem tracks_next {e : Event} {k : String} (hne : k ≠ e.notice.key) :
    (r.next e).Tracks k ↔ r.Tracks k := by
  unfold Roster.Tracks
  rw [Roster.getElem?_entries_next]
  cases e with
  | added n | updated n previous | removed n =>
      have hne' : k ≠ n.key := hne
      simp only [if_neg hne']
  | announced n | rendered n => exact Iff.rfl

/-! ### Other groups -/

theorem plain_replay (hr : c.Keeps r) (hk : c.Knows s) (hn : s.screen.news = []) (hp : s.Plain)
    (now : Nat) (es : List GroupEvent) : (Session.replay r.grouping now s es).Plain :=
  (replay_keeps hr now hk hn hp fun e _ t _ _ ht =>
    (ht.within (hr.within_handleGroup t now e)).quiesce r.grouping now).2.2

theorem plain_handleEvent (m : Moment) (hp : m.scene.Plain) :
    (m.scene.handleEvent m.roster.grouping m.now m.event).Plain :=
  Scene.Plain.within (s := m.scene.listing m.event) ⟨hp.ambient, hp.window⟩
    (m.scene.within_handleEvent m.roster.grouping m.now m.event)

theorem plain_after (m : Moment) (hp : m.scene.Plain) : m.after.Plain :=
  (plain_handleEvent m hp).quiesce m.roster.grouping m.now

theorem plain_withRecords (m : Moment) (hp : m.scene.Plain) (groups : Keyed GroupRecord) :
    (m.after.withRecords groups).Plain :=
  ⟨(plain_after m hp).ambient, (plain_after m hp).window⟩

theorem plain_result (h : c.Stands m) (hp : m.scene.Plain) : m.result.Plain :=
  plain_replay h.next h.knows_after h.news_after (plain_after m hp) m.now _

theorem sole_replay_of_ne (hc : c.Simple) (hr : c.Keeps r) (hk : c.Knows s)
    (hn : s.screen.news = []) (hp : s.Plain) (hs : Sole c r g [] s) (now : Nat)
    {es : List GroupEvent} (he : ∀ e ∈ es, e.group ≠ g) :
    Sole c r g [] (Session.replay r.grouping now s es) := by
  have hstep : ∀ e ∈ es, ∀ t, c.Knows t → t.screen.news = [] → (Sole c r g [] t ∧ t.Plain) →
      Sole c r g [] ((t.handleGroup r.grouping now e).quiesce r.grouping now) ∧
        ((t.handleGroup r.grouping now e).quiesce r.grouping now).Plain := by
    intro e hmem t ht _ ⟨hs, hp⟩
    have hw := hr.within_handleGroup t now e
    have hless : Less c g t (t.handleGroup r.grouping now e) := by
      refine less_of_within hw fun n hn => ?_
      rw [group_of_place (place_of_admits (hr.admits_of_member hn)), hr.group_of_member hn]
      exact he e hmem
    have hp' := hp.within hw
    exact ⟨sole_quiesce hc hr (ht.handleGroup hr e now) hp'.ambient ((hs.less hless).any _) now,
      hp'.quiesce r.grouping now⟩
  exact (replay_keeps hr now hk hn ⟨hs, hp⟩ hstep).2.2.1

theorem joining_listing (hk : c.Knows s) {e : Event} (he : c.Admits e.notice)
    (hne : e.notice.membership ≠ ⟨g, .child⟩) (known : List Notice)
    (hj : s.arbiter.joining g known = []) : (s.listing e).arbiter.joining g known = [] := by
  rw [Arbiter.joining_eq_nil_iff] at hj ⊢
  intro key n hn hrole hgroup
  obtain ⟨rfl, hadm⟩ := (hk.listing he).announced key n hn
  have hother : n.key ≠ e.notice.key := by
    intro hkey
    rw [← membership_eq hadm he hkey] at hne
    exact hne (by simp [Notice.membership, hrole, hgroup])
  exact hj n.key n ((Event.getElem?_listed_of_ne hother _).symm.trans hn) hrole hgroup

/-- The event of a notice leaves the alerts of other groups in one place. -/
theorem sole_result_of_ne (hc : c.Simple) (h : c.Stands m) (hp : m.scene.Plain)
    (hs : Sole c m.roster g [] m.scene) (hg : g ≠ m.event.notice.group) :
    Sole c m.next g [] m.result := by
  have hnotice : (c.place m.event.notice.key).group ≠ g := by
    rw [group_of_place (place_of_admits h.admits)]
    exact Ne.symm hg
  have hmembership : m.event.notice.membership ≠ ⟨g, .child⟩ :=
    fun hm => hg (congrArg Membership.group hm).symm
  have hlist : Sole c m.roster g [] (m.scene.listing m.event) :=
    hs.relist fun hsl _ _ => joining_listing h.knows h.admits hmembership _ hsl.2
  have hw := m.scene.within_handleEvent m.roster.grouping m.now m.event
  have hless : Less c g (m.scene.listing m.event)
      (m.scene.handleEvent m.roster.grouping m.now m.event) := by
    refine less_of_within hw ?_
    rintro n (rfl | hn)
    · exact hnotice
    · have hn' : m.roster.summary m.event.notice.group = some n := hn
      rw [group_of_place (place_of_summary h.keeps hn')]
      exact Ne.symm hg
  have hafter : Sole c m.roster g [] m.after :=
    sole_quiesce hc h.keeps (h.knows.handleEvent h.keeps h.admits m.now)
      (plain_handleEvent m hp).ambient ((hlist.less hless).any _) m.now
  have hnext : Sole c m.next g [] m.after := by
    refine hafter.under (fun k hk => tracks_next ?_) ?_ fun n => ?_
    · rintro rfl
      exact hnotice hk
    · exact suppressed_next_of_ne h.keeps h.admits hg
    · exact mem_children_next_of h.keeps h.admits hmembership
  refine sole_replay_of_ne hc h.next h.knows_after h.news_after (plain_after m hp) hnext m.now ?_
  intro e he
  rw [group_of_mem_track h.keeps h.admits he]
  exact Ne.symm hg

/-! ### Announced children and drawn content -/

theorem expected_le_one (hc : c.Simple) (hr : c.Keeps r) (hp : s.Plain) {summary : Notice}
    (hsum : r.summary g = some summary) {now : Nat}
    (hm : s.mayHandBack r.grouping now g summary = false) (hq : s.arbiter.quiet = false) :
    s.expected r.grouping g ≤ 1 := by
  have hpolicy : summary.policy.summaryOnly = true := by
    rw [(hr.summary hsum).2.1.2, hc.policy]
    rfl
  have hreturn : (s.arbiter.record g).mayReturn s.arbiter.settings.window now = true := by
    rw [hp.window]
    rfl
  simp only [Scene.mayHandBack, hq, hpolicy, hreturn, Bool.not_false, Bool.true_and,
    decide_eq_false_iff_not] at hm
  omega

/-- If nothing can be taken back in a suppressed group, every child about to join it is up. -/
theorem joining_eq_nil_of_not_mayHandBack (hc : c.Simple) (hr : c.Keeps r) (hp : s.Plain)
    {summary : Notice} (hsum : r.summary g = some summary) {now : Nat}
    (hm : s.mayHandBack r.grouping now g summary = false) (hq : s.arbiter.quiet = false)
    (hsup : r.suppressed g = true)
    (hup : ∀ n ∈ s.arbiter.joining g (r.children g), ¬s.Holds n.key) :
    s.arbiter.joining g (r.children g) = [] := by
  have hexpected := expected_le_one hc hr hp hsum hm hq
  have hone : (r.children g).length = 1 := (Roster.suppressed_iff.mp hsup).2
  have hfilter : (s.arbiter.joining g (r.children g)).filter
      (fun n => !s.screen.isUpSomewhere n.key) = s.arbiter.joining g (r.children g) := by
    rw [List.filter_eq_self]
    intro n hn
    rw [Bool.not_eq_true', Bool.eq_false_iff]
    intro hu
    obtain ⟨kind, hk⟩ := Screen.isUpSomewhere_iff.mp hu
    cases kind with
    | headsUp => exact hup n hn hk
    | ambientPulse => simp [Screen.isUp, hp.ambient] at hk
  have hcount : s.expected r.grouping g =
      (r.children g).length + (s.arbiter.joining g (r.children g)).length := by
    unfold Scene.expected
    rw [show r.grouping.children g = r.children g from rfl, hfilter]
  rw [← List.length_eq_zero_iff]
  omega

theorem not_tracks_of_mem_joining (hr : c.Keeps r) (hk : c.Knows s) {n : Notice}
    (hn : n ∈ s.arbiter.joining g (r.children g)) :
    c.place n.key = ⟨g, .child⟩ ∧ ¬r.Tracks n.key := by
  obtain ⟨⟨key, ha⟩, hrole, hgroup, hne⟩ := Arbiter.mem_joining.mp hn
  have hplace : c.place n.key = ⟨g, .child⟩ := by
    rw [place_of_admits (hk.announced key n ha).2, hrole, hgroup]
  refine ⟨hplace, fun ht => ?_⟩
  obtain ⟨x, hx, hkey⟩ := child_of_tracks hr hplace ht
  exact hne x hx hkey

/-- **A notice is announced**, and the alert of its group is in one place. -/
theorem sole_announced (hc : c.Simple) (hr : c.Keeps r) (hk : c.Knows s) (hp : s.Plain)
    (hs : Sole c r g [] s) {n : Notice} (hn : c.Admits n) (hg : n.group = g) (now : Nat) :
    Sole c r g [] (s.handleEvent r.grouping now (.announced n)) := by
  have hknows : c.Knows (s.listing (.announced n)) := hk.listing hn
  have hplain : (s.listing (.announced n)).Plain := ⟨hp.ambient, hp.window⟩
  have he : s.handleEvent r.grouping now (.announced n) =
      if n.isHead then s.listing (.announced n)
      else (s.listing (.announced n)).handBack r.grouping now g := by
    rw [← hg]
    rfl
  rw [he]
  cases hrole : n.role with
  | summary =>
      rw [if_pos (by simp [Notice.isHead, hrole])]
      refine hs.relist fun hsl _ _ => joining_listing (e := .announced n) hk hn ?_ _ hsl.2
      intro hm
      have hchild : n.role = .child := congrArg Membership.role hm
      rw [hrole] at hchild
      cases hchild
  | child =>
      rw [if_neg (by simp [Notice.isHead, hrole])]
      cases hsum : r.summary g with
      | none =>
          have hstay : (s.listing (.announced n)).handBack r.grouping now g =
              s.listing (.announced n) := by
            have hsum' : r.grouping.summary g = none := hsum
            simp [Scene.handBack, hsum']
          rw [hstay]
          refine hs.relist fun hsl _ _ => ?_
          obtain ⟨⟨summary, hs'⟩, -⟩ := Roster.suppressed_iff.mp hsl.1
          rw [hsum] at hs'
          cases hs'
      | some summary =>
      cases hm : (s.listing (.announced n)).mayHandBack r.grouping now g summary with
      | true =>
          have hloose : Loose c r g (s.listing (.announced n)) := ⟨hs.tracked, hs.lone, hs.hush⟩
          exact sole_handBack hc hr hloose hsum hm hplain.ambient
      | false =>
          have hstay : (s.listing (.announced n)).handBack r.grouping now g =
              s.listing (.announced n) := by
            have hsum' : r.grouping.summary g = some summary := hsum
            simp [Scene.handBack, hsum', hm]
          rw [hstay]
          refine hs.relist fun hsl hq hall => ?_
          refine joining_eq_nil_of_not_mayHandBack hc hr hplain hsum hm hq hsl.1 fun x hx hu => ?_
          obtain ⟨hplace, hno⟩ := not_tracks_of_mem_joining hr hknows hx
          exact hno (hall x.key hplace hu)

/-! ### Notices that come and go -/

theorem within_entry {e : Event} (he : e.isEntry = true) (s : Scene) (g : Grouping) (now : Nat) :
    (s.listing e).Within (fun _ => False) (s.handleEvent g now e) := by
  cases e with
  | announced n | rendered n => cases he
  | added n => exact Scene.Within.refl _ _
  | updated n previous =>
      simp only [Scene.handleEvent]
      split
      · exact Scene.Within.refl _ _
      · exact Scene.within_giveUp _ (s.listing (.updated n previous)) rfl rfl rfl _ _
  | removed n => exact Scene.within_giveUp _ (s.listing (.removed n)) rfl rfl rfl _ _

theorem after_of_entry (h : c.Stands m) (he : m.event.isEntry = true) :
    m.after = m.scene.handleEvent m.roster.grouping m.now m.event := by
  refine Scene.quiesce_of_no_news ?_ _ _
  refine Eq.trans ?_ h.news
  cases hm : m.event with
  | announced n | rendered n =>
      rw [hm] at he
      cases he
  | added n | updated n previous | removed n => rfl

theorem less_after (h : c.Stands m) (he : m.event.isEntry = true) :
    Less c g (m.scene.listing m.event) m.after := by
  rw [after_of_entry h he]
  exact less_of_within (within_entry he _ _ _) fun _ hf => hf.elim

theorem ne_of_removed (h : c.Stands m) {n : Notice} (he : m.event = .removed n) {k : String}
    {d : Deferral} (hd : m.after.arbiter.pending[k]? = some d) : k ≠ n.key ∧ d.source ≠ n.key := by
  rw [after_of_entry h (by rw [he]; rfl), he] at hd
  have hd' : (m.scene.arbiter.remove n).pending[k]? = some d := hd
  rw [Arbiter.getElem?_pending_remove, Option.filter_eq_some_iff] at hd'
  simpa using hd'.2

theorem tracks_next_of_awaits (h : c.Stands m) {k : String} (ha : m.after.Awaits k)
    (ht : m.roster.Tracks k) : m.next.Tracks k := by
  by_cases hk : k = m.event.notice.key
  · obtain ⟨d, hd, -⟩ := ha
    unfold Roster.Tracks Moment.next
    rw [Roster.getElem?_entries_next]
    cases he : m.event with
    | announced n | rendered n => exact ht
    | added n | updated n previous =>
        rw [he] at hk
        exact ⟨n, if_pos hk⟩
    | removed n =>
        rw [he] at hk
        exact absurd hk (ne_of_removed h he hd).1
  · exact (tracks_next hk).mpr ht

theorem loose_after (h : c.Stands m) (he : m.event.isEntry = true)
    (hs : Loose c m.roster g m.scene) : Loose c m.next g m.after := by
  have hlist : Loose c m.roster g (m.scene.listing m.event) := ⟨hs.tracked, hs.lone, hs.hush⟩
  have hless := hlist.less (less_after h he)
  refine ⟨fun hk ha => ?_, hless.lone, hless.hush⟩
  exact tracks_next_of_awaits h ha (hless.tracked hk ha)

/-- A child of the group that enters while it is up has the alert of the group alone. -/
def Alone (c : Cast) (m : Moment) (g : String) : Prop :=
  ∀ {k k'}, c.place k = ⟨g, .child⟩ → ¬m.roster.Tracks k → m.next.Tracks k → m.scene.Holds k →
    (c.place k').group = g → m.scene.Holds k' ∨ m.scene.Awaits k' → k' = k

theorem tracks_of_removed {n : Notice} (he : m.event = .removed n) {k : String}
    (hk : m.next.Tracks k) : m.roster.Tracks k := by
  obtain ⟨x, hx⟩ := hk
  unfold Moment.next at hx
  rw [he, Roster.getElem?_entries_next] at hx
  dsimp only at hx
  split at hx
  · cases hx
  · exact ⟨x, hx⟩

theorem alone_of_not_intrudes (h : c.Stands m) (hi : c.intrudes m = false)
    (hr : m.releases g = false) : c.Alone m g := by
  intro k k' hk hold hnew hu hg hb
  have hkey : k = m.event.notice.key := by
    refine Classical.byContradiction fun hne => hold ?_
    exact (tracks_next hne).mp hnew
  have hplace : c.place k = m.event.notice.membership := by
    rw [hkey]
    exact h.admits.1.symm
  have hrole : m.event.notice.role = .child := by
    rw [hk] at hplace
    exact (congrArg Membership.role hplace).symm
  have hgroup : m.event.notice.group = g := by
    rw [hk] at hplace
    exact (congrArg Membership.group hplace).symm
  have hnone : m.roster.entries[m.event.notice.key]? = none := by
    rw [← hkey, Option.eq_none_iff_forall_ne_some]
    exact fun n hn => hold ⟨n, hn⟩
  have hshown : m.event.notice.key ∈ m.scene.screen.shown := by
    rw [← hkey]
    exact Screen.mem_shown.mpr hu
  have harrival : m.event.isArrival = true := by
    cases hm : m.event with
    | added n | updated n previous => rfl
    | removed n => exact absurd (tracks_of_removed hm hnew) hold
    | announced n | rendered n =>
        refine absurd ?_ hold
        unfold Moment.next at hnew
        rw [hm] at hnew
        exact hnew
  refine Classical.byContradiction fun hne => ?_
  have hmem : k' ∈ m.scene.bearers := Scene.mem_bearers.mpr hb
  rw [Bool.eq_false_iff] at hi
  apply hi
  unfold intrudes
  rw [hgroup, hr, hrole, hnone, harrival, decide_eq_true hshown, Bool.and_eq_true, List.any_eq_true]
  refine ⟨rfl, k', hmem, ?_⟩
  rw [← hkey, decide_eq_true hne, decide_eq_true hg]
  rfl

/-- Such an event brings no announced notice, and while a group keeps its only child nobody is about
to join who was not. -/
theorem joining_after (h : c.Stands m) (he : m.event.isEntry = true)
    (h₀ : m.roster.suppressed g = true) (h₁ : m.next.suppressed g = true)
    (hj : m.scene.arbiter.joining g (m.roster.children g) = []) :
    m.after.arbiter.joining g (m.next.children g) = [] := by
  obtain ⟨a, ha⟩ := List.length_eq_one_iff.mp (Roster.suppressed_iff.mp h₀).2
  obtain ⟨b, hb⟩ := List.length_eq_one_iff.mp (Roster.suppressed_iff.mp h₁).2
  have hkey : a.key = b.key := child_key_eq h.keeps h.admits ha hb
  have hlisted := (books_after m).2.2
  rw [ha, Arbiter.joining_eq_nil_iff] at hj
  rw [hb, Arbiter.joining_eq_nil_iff]
  intro key n hn hrole hgroup
  rw [hlisted] at hn
  obtain ⟨rfl, hadm⟩ := (h.knows.listing h.admits).announced key n hn
  obtain ⟨old, hold⟩ : ∃ old, m.scene.arbiter.announced[n.key]? = some old := by
    cases hm : m.event with
    | announced x | rendered x =>
        rw [hm] at he
        cases he
    | added x | removed x =>
        rw [hm] at hn
        simp only [Event.listed, Std.ExtTreeMap.getElem?_erase] at hn
        split at hn
        · cases hn
        · exact ⟨n, hn⟩
    | updated x previous =>
        rw [hm] at hn
        simp only [Event.listed, Std.ExtTreeMap.getElem?_modify] at hn
        split at hn
        · next hc =>
          obtain ⟨old, hold, -⟩ := Option.map_eq_some_iff.mp hn
          rw [Std.LawfulEqCmp.eq_of_compare hc] at hold
          exact ⟨old, hold⟩
        · exact ⟨n, hn⟩
  obtain ⟨hok, hadm'⟩ := h.knows.announced n.key old hold
  obtain ⟨x, hx, hxk⟩ := hj n.key old hold ((role_eq hadm' hadm hok).trans hrole)
    ((group_eq hadm' hadm hok).trans hgroup)
  rw [List.mem_singleton.mp hx] at hxk
  exact ⟨b, List.mem_singleton_self b, by rw [← hkey, hxk, hok]⟩

/-- **A notice comes or goes**, and the alert of its group is in one place, provided that the group
stays suppressed while anything is awaited in it. -/
theorem sole_after (h : c.Stands m) (he : m.event.isEntry = true) (halone : c.Alone m g)
    (hs : Sole c m.roster g [] m.scene)
    (hsup : (∃ k, (c.place k).group = g ∧ m.after.Awaits k) → m.roster.suppressed g = true →
      m.next.suppressed g = true) : Sole c m.next g [] m.after := by
  have hless := less_after (g := g) h he
  have hup : ∀ {k}, (c.place k).group = g → m.after.Holds k → m.scene.Holds k :=
    fun hk hu => hless.holds hk hu
  have hwait : ∀ {k}, (c.place k).group = g → m.after.Awaits k → m.scene.Awaits k :=
    fun hk ha => hless.awaits hk ha
  refine ⟨loose_after h he hs.toLoose, ?_, ?_, ?_, ?_⟩
  · intro k d hk hd hl
    obtain ⟨hr, hsource⟩ := hs.lent hk (hless.pending (group_of_place hk) hd hl) hl
    exact ⟨hsup ⟨k, group_of_place hk, d, hd, hl⟩ hr, hsource⟩
  · intro h' k hh hk h₁ h₂ h₃
    have gh := group_of_place hh
    have gk := group_of_place hk
    have h₃' := h₃.imp (hup gk) (hwait gk)
    have htr : m.roster.Tracks k := by
      refine Classical.byContradiction fun hold => ?_
      rcases h₃' with hu | ha
      · exact ne_of_place hk hh (halone hk hold h₂ hu gh (.inr (hwait gh h₁))).symm
      · exact hold (hs.tracked gk ha)
    obtain ⟨hsl, hall⟩ := hs.sealed hh hk (hwait gh h₁) htr h₃'
    have hnext := hsup ⟨h', gh, h₁⟩ hsl.1
    refine ⟨⟨hnext, joining_after h he hsl.1 hnext hsl.2⟩, fun k' hk' hu => ?_⟩
    have htr' := hall k' hk' (hup (group_of_place hk') hu)
    obtain rfl : k = k' := eq_of_suppressed h.keeps hsl.1 hk hk' htr htr'
    exact h₂
  · intro h' k hh hk h₁ h₂ h₃
    have gh := group_of_place hh
    have hu := hup (group_of_place hk) h₃
    by_cases htr : m.roster.Tracks k
    · obtain ⟨-, -, n, hn, -⟩ := hs.owner hh hk (hup gh h₁) htr hu
      cases hn
    · exact absurd (halone hk htr h₂ hu gh (.inl (hup gh h₁))).symm (ne_of_place hk hh)
  · intro k k' hk hk' ht ht' h₃ h₄
    have hu := hup (group_of_place hk) h₃
    have hu' := hup (group_of_place hk') h₄
    by_cases htr : m.roster.Tracks k
    · by_cases htr' : m.roster.Tracks k'
      · exact hs.sole hk hk' htr htr' hu hu'
      · exact halone hk' htr' ht' hu' (group_of_place hk) (.inl hu)
    · exact (halone hk htr ht hu (group_of_place hk') (.inl hu')).symm

/-! ### Changes of suppression -/

/-- **The suppression of a group begins**, and its alert is in one place. -/
theorem sole_begin (hc : c.Simple) (hr : c.Keeps r) (hp : s.Plain) (hs : Sole c r g [] s)
    (now : Nat) : Sole c r g [] (s.handleSuppression r.grouping now g true) := by
  rcases s.handleSuppression_cases r.grouping now g true with
    ⟨he, -⟩ | ⟨summary, hsum, ⟨-, kind, -, he⟩ | ⟨hon, -⟩ | ⟨hon, -⟩⟩
  · rw [he]
    exact hs
  · rw [he]
    cases hm : s.mayForward r.grouping summary kind with
    | true => exact sole_forward hc hr hs hp.ambient hsum hm []
    | false =>
        have hstay : s.forward r.grouping now summary kind = s := by
          simp [Scene.forward, hm]
        rw [hstay]
        exact hs
  · cases hon
  · cases hon

theorem bare_of_not_mayHandBack (hc : c.Simple) (hr : c.Keeps r) (hp : s.Plain) {summary : Notice}
    (hsum : r.summary g = some summary) {now : Nat}
    (hm : s.mayHandBack r.grouping now g summary = false) (hq : s.arbiter.quiet = false)
    (hsup : r.suppressed g = false) : Bare c r g s := by
  have hexpected := expected_le_one hc hr hp hsum hm hq
  have hlength : (r.children g).length ≤ 1 := Nat.le_trans (Nat.le_add_right _ _) hexpected
  have hone : (r.children g).length ≠ 1 := by
    intro hone
    have hyes := Roster.suppressed_iff.mpr ⟨⟨summary, hsum⟩, hone⟩
    rw [hsup] at hyes
    cases hyes
  have hnone : r.children g = [] := List.length_eq_zero_iff.mp (by omega)
  intro k hk ht
  obtain ⟨n, hn, -⟩ := child_of_tracks hr hk ht
  rw [hnone] at hn
  cases hn

/-- **The suppression of a group ends**, and its alert is in one place, provided that no child has
it when a scheduled alert of the summary falls due. -/
theorem sole_end (hc : c.Simple) (hr : c.Keeps r) (hp : s.Plain) (hs : Loose c r g s)
    (hsup : r.suppressed g = false) (hnone : r.summary g = none → Sole c r g [] s)
    (hquiet : s.arbiter.quiet = true → Sole c r g [] s)
    (hbare : (r.summary g).isSome = true → s.arbiter.quiet = false →
      (s.arbiter.record g).schedule.isSome = true → Bare c r g s) (now : Nat) :
    Sole c r g [] (s.handleSuppression r.grouping now g false) := by
  rcases s.handleSuppression_cases r.grouping now g false with
    ⟨he, hwhy⟩ | ⟨summary, hsum, ⟨hon, -⟩ | ⟨-, hq, hsched, he⟩ | ⟨-, hq, due, hdue, h⟩⟩
  · rw [he]
    cases hsum : r.summary g with
    | none => exact hnone hsum
    | some summary =>
        rcases hwhy summary hsum with ⟨hon, -⟩ | ⟨-, hq⟩
        · cases hon
        · exact hquiet hq
  · cases hon
  · rw [he]
    cases hm : s.mayHandBack r.grouping now g summary with
    | true => exact sole_handBack hc hr hs hsum hm hp.ambient
    | false =>
        have hstay : s.handBack r.grouping now g = s := by
          simp [Scene.handBack, hsum, hm]
        rw [hstay]
        exact sole_of_bare hs (bare_of_not_mayHandBack hc hr hp hsum hm hq hsup)
  · have hsum' : r.summary g = some summary := hsum
    have hb := hbare (by rw [hsum']; rfl) hq (by rw [hdue]; rfl)
    have hless : Less c g s (s.unschedule g) :=
      less_of_within (Scene.within_unschedule (fun _ => False) s g) fun _ hf => hf.elim
    rcases h with ⟨-, he⟩ | ⟨hdown, he⟩
    · rw [he]
      exact sole_of_bare (hs.less hless) (hb.less hless)
    · rw [he]
      have ht : r.Tracks summary.key := ⟨summary, (hr.summary hsum').1⟩
      exact sole_bring hc (hs.less hless) (hb.less hless) (place_of_summary hr hsum') ht hq hp.ambient
        hdown

/-! ### Events -/

theorem removed_of_no_summary (h : c.Stands m) {old : Notice} (h₀ : m.roster.summary g = some old)
    (h₁ : m.next.summary g = none) : ∃ n, m.event = .removed n ∧ old.key = n.key := by
  have hnext := h.keeps.indexed.summary_next m.event g
  rw [show m.roster.next m.event = m.next from rfl, h₁, h₀] at hnext
  have hadm := h.admits
  cases hm : m.event with
  | announced n | rendered n =>
      rw [hm] at hnext
      cases hnext
  | removed n =>
      rw [hm] at hnext
      refine ⟨n, rfl, ?_⟩
      simpa [Option.filter_some] using hnext
  | added n | updated n previous =>
      rw [hm] at hnext hadm
      by_cases hhead : n.role = .summary ∧ g = n.group
      · simp [hhead] at hnext
      · simp only [if_neg hhead, Option.filter_some] at hnext
        have hsame : old.key = n.key := by simpa using hnext.symm
        obtain ⟨-, hold, hg, hrole⟩ := h.keeps.summary h₀
        refine absurd ⟨?_, ?_⟩ hhead
        · exact (role_eq hold hadm hsame).symm.trans hrole
        · exact hg.symm.trans (group_eq hold hadm hsame)

/-- Once the summary of a suppressed group is removed, nothing is awaited in the group. -/
theorem not_awaits_of_removed (hc : c.Simple) (h : c.Stands m) (hs : Sole c m.roster g [] m.scene)
    {old n : Notice} (h₀ : m.roster.summary g = some old) (he : m.event = .removed n)
    (hkey : old.key = n.key) {k : String} (hk : (c.place k).group = g) : ¬m.after.Awaits k := by
  have hold : c.place old.key = ⟨g, .summary⟩ := place_of_summary h.keeps h₀
  rintro ⟨d, hd, hl⟩
  have hd' := (less_after h (by rw [he]; rfl)).pending hk hd hl
  have hne := ne_of_removed h he hd
  cases hrole : (c.place k).role with
  | summary =>
      have hplace : c.place k = ⟨g, .summary⟩ := by rw [← hk, ← hrole]
      exact hne.1 ((hc.head hplace hold).trans hkey)
  | child =>
      have hplace : c.place k = ⟨g, .child⟩ := by rw [← hk, ← hrole]
      exact hne.2 ((hc.head (hs.lent hplace hd' hl).2 hold).trans hkey)

theorem less_withRecords (s : Scene) (groups : Keyed GroupRecord) :
    Less c g s (s.withRecords groups) :=
  ⟨rfl, rfl, fun _ hu => hu, fun _ hd _ => hd⟩

theorem sole_end_of_entry (hc : c.Simple) (h : c.Stands m) (he : m.event.isEntry = true)
    (hp : m.scene.Plain) (hi : c.intrudes m = false) (ho : m.outdated g = false)
    (hs : Sole c m.roster g [] m.scene) (h₀ : m.roster.suppressed g = true)
    (h₁ : m.next.suppressed g = false) {groups : Keyed GroupRecord}
    (hsame : (m.after.withRecords groups).SameRecords m.after) :
    Sole c m.next g []
      ((m.after.withRecords groups).handleSuppression m.next.grouping m.now g false) := by
  have hless : Less c g m.after (m.after.withRecords groups) := less_withRecords _ _
  have hplain := plain_withRecords m hp groups
  have hcalm : c.Alone m g → (∀ k, (c.place k).group = g → ¬m.after.Awaits k) →
      Sole c m.next g [] (m.after.withRecords groups) := by
    intro halone hno
    refine (sole_after h he halone hs ?_).less hless
    rintro ⟨k, hk, ha⟩
    exact absurd ha (hno k hk)
  have hloose := (loose_after h he hs.toLoose).less hless
  refine sole_end hc h.next hplain hloose h₁ ?_ ?_ ?_ m.now
  · intro hnone
    obtain ⟨⟨old, hold⟩, -⟩ := Roster.suppressed_iff.mp h₀
    obtain ⟨n, hm, hkey⟩ := removed_of_no_summary h hold hnone
    refine hcalm ?_ fun k hk => not_awaits_of_removed hc h hs hold hm hkey hk
    exact fun _ hout hin _ _ _ => absurd (tracks_of_removed hm hin) hout
  · intro hq
    have hreleases : m.releases g = false := by
      have hq' : m.after.arbiter.quiet = true := hq
      simp [Moment.releases, hq']
    exact hcalm (alone_of_not_intrudes h hi hreleases) fun k hk =>
      (loose_after h he hs.toLoose).hush hk hq
  · intro hsum hq hsched k hk ht
    obtain ⟨n, hn, rfl⟩ := child_of_tracks h.next hk ht
    rw [hsame g] at hsched
    have hq' : m.after.arbiter.quiet = false := hq
    simp only [Moment.outdated, Moment.releases, h₀, h₁, hq', hsum, hsched, Bool.not_false,
      Bool.true_and, List.any_eq_false, decide_eq_true_eq] at ho
    have hnot := ho n hn
    rw [Scene.mem_bearers, not_or] at hnot
    exact hnot

theorem sole_result_of_entry (hc : c.Simple) (h : c.Stands m) (he : m.event.isEntry = true)
    (hp : m.scene.Plain) (hi : c.intrudes m = false)
    (ho : m.outdated m.event.notice.group = false)
    (hs : Sole c m.roster m.event.notice.group [] m.scene) :
    Sole c m.next m.event.notice.group [] m.result := by
  obtain ⟨before, after, hsame, hres⟩ := h.result_eq
  have hplain := plain_withRecords m hp before
  have hknows := h.knows_withRecords before
  rw [hres]
  refine Sole.less ?_ (less_withRecords _ after)
  have hshift : ∀ on, Sole c m.next m.event.notice.group []
      ((m.after.withRecords before).handleSuppression m.next.grouping m.now
        m.event.notice.group on) →
      Sole c m.next m.event.notice.group [] (((m.after.withRecords before).handleSuppression
        m.next.grouping m.now m.event.notice.group on).quiesce m.next.grouping m.now) := by
    intro on hon
    have hw := h.next.within_handleGroup (m.after.withRecords before) m.now
      (.suppression m.event.notice.group on)
    exact sole_quiesce hc h.next (hknows.handleGroup h.next _ m.now) (hplain.within hw).ambient
      (hon.any _) m.now
  unfold shift
  split
  · next hstay =>
    have halone : c.Alone m m.event.notice.group := by
      refine alone_of_not_intrudes h hi ?_
      simp [Moment.releases, hstay]
    refine (sole_after h he halone hs fun _ h₀ => ?_).less (less_withRecords _ before)
    rw [hstay, h₀]
  · next hne =>
    cases h₁ : m.next.suppressed m.event.notice.group with
    | true =>
        have halone : c.Alone m m.event.notice.group := by
          refine alone_of_not_intrudes h hi ?_
          simp [Moment.releases, h₁]
        refine hshift true (sole_begin hc h.next hplain ?_ m.now)
        exact (sole_after h he halone hs fun _ _ => h₁).less (less_withRecords _ before)
    | false =>
        have h₀ : m.roster.suppressed m.event.notice.group = true := by
          rw [h₁] at hne
          simpa using Ne.symm hne
        exact hshift false (sole_end_of_entry hc h he hp hi ho hs h₀ h₁ hsame)

/-- **An event leaves the alert of every group in one place**, unless a scheduled alert is outdated
or a child intrudes. -/
theorem sole_result (hc : c.Simple) (h : c.Stands m) (hp : m.scene.Plain)
    (hi : c.intrudes m = false) (ho : m.outdated g = false)
    (hs : Sole c m.roster g [] m.scene) : Sole c m.next g [] m.result := by
  by_cases hg : g = m.event.notice.group
  · subst hg
    cases he : m.event.isEntry with
    | true => exact sole_result_of_entry hc h he hp hi ho hs
    | false =>
        have hsettle : Sole c m.roster m.event.notice.group
            (m.scene.handleEvent m.roster.grouping m.now m.event).screen.news
            (m.scene.handleEvent m.roster.grouping m.now m.event) := by
          have hadm := h.admits
          cases hm : m.event with
          | announced n =>
              rw [hm] at hadm hs
              exact (sole_announced hc h.keeps h.knows hp hs hadm rfl m.now).any _
          | rendered n =>
              rw [hm] at hadm hs
              exact sole_rendered hc h.keeps hs hadm
          | added n | updated n previous | removed n =>
              rw [hm] at he
              cases he
        have hafter : Sole c m.roster m.event.notice.group [] m.after :=
          sole_quiesce hc h.keeps (h.knows.handleEvent h.keeps h.admits m.now)
            (plain_handleEvent m hp).ambient hsettle m.now
        have hsame : m.next = m.roster ∧ m.result = m.after := by
          unfold Moment.result Moment.next
          cases hm : m.event with
          | announced n | rendered n => exact ⟨rfl, rfl⟩
          | added n | updated n previous | removed n =>
              rw [hm] at he
              cases he
        rw [hsame.1, hsame.2]
        exact hafter
  · exact sole_result_of_ne hc h hp hs hg

end Cast
end AlertHandoff
