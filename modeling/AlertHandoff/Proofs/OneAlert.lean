import AlertHandoff.Proofs.Passing

/-! # At most one member of a group alerts

In a run in which only summaries alert, and the host raises the alert of a summary only while no
key of its group alerts, the alert of every group is in one place (`Session.Single`), as long as no
event is of a kind that can bring it to two (`Session.doubles`).  So after a flush at most one of
the summary and the children of a group alerts: this is `one_member_alerts`.  The condition is
enough and not exact, for an event of such a kind may do no harm.  When an outdated alert does harm
is said by the theorem too, and `either_alerts_twice` shows that neither kind of event can be left
out. -/

namespace AlertHandoff

/-- The summary of a group and its children. -/
def Roster.members (r : Roster) (g : String) : List Notice :=
  (r.summary g).toList ++ r.children g

/-! ### An outdated alert -/

namespace Cast
variable {c : Cast} {m : Moment} {r : Roster} {g : String} {s : Scene}

theorem holds_quiesce (hr : c.Keeps r) (hsup : r.suppressed g = false) {k : String}
    (hk : (c.place k).group = g) (hu : s.Holds k) (now : Nat) :
    (s.quiesce r.grouping now).Holds k := by
  refine Scene.quiesce_keeps r.grouping now (I := fun _ t => t.Holds k) ?_ ?_ (fun _ h => h) hu
  · intro x _ t ht
    rcases t.handleChange_cases r.grouping now x.1 x.2 with ⟨he, -⟩ | ⟨n, summary, -, hsum, -, he⟩
    · rw [he]
      exact ht
    · rw [he]
      have hsum' : r.summary n.group = some summary := hsum
      have hplace := place_of_summary hr hsum'
      have hgroup : summary.group = n.group := (hr.summary hsum').2.2.1
      by_cases hkey : k = summary.key
      · have hg : n.group = g := by
          rw [← hk, hkey]
          exact (group_of_place hplace).symm
        have hno : t.mayForward r.grouping summary x.1 = false := by
          have hsup' : r.grouping.suppressed summary.group = false := by
            rw [hgroup, hg]
            exact hsup
          simp [Scene.mayForward, hsup']
        have hstay : t.forward r.grouping now summary x.1 = t := by
          simp [Scene.forward, hno]
        rw [hstay]
        exact ht
      · exact Scene.isUp_forward_of_ne (.inr hkey) ht _ _
  · intro _ t ht
    have hread := Screen.isUp_read t.screen .headsUp k
    exact hread.trans ht

theorem holds_of_due {g : Grouping} {group : String} {summary : Notice}
    (hsum : g.summary group = some summary) (hq : s.arbiter.quiet = false) {due : Schedule}
    (hdue : (s.arbiter.record group).schedule = some due) (hkind : due.kind = .headsUp)
    (hready : s.outcome summary .headsUp = .shown) (now : Nat) {key : String}
    (hkey : key = summary.key ∨ s.Holds key) :
    (s.handleSuppression g now group false).Holds key := by
  have hup : s.screen.isUp .headsUp summary.key = true ∨
      s.screen.isUp .headsUp summary.key = false := by
    cases s.screen.isUp .headsUp summary.key <;> decide
  obtain hup | hdown := hup
  · have he : s.handleSuppression g now group false = s.unschedule group := by
      simp [Scene.handleSuppression, hsum, hq, hdue, hkind, Scene.unschedule, hup]
    rw [he]
    obtain rfl | hkey := hkey
    · exact hup
    · exact hkey
  · have he : s.handleSuppression g now group false =
        (s.unschedule group).move summary due.source .headsUp := by
      simp [Scene.handleSuppression, hsum, hq, hdue, hkind, Scene.unschedule, hdown]
    have hout : (s.unschedule group).outcome summary .headsUp = .shown := hready
    have hdel := (s.unschedule group).isUp_deliver summary due.source .headsUp .headsUp key
    rw [hout] at hdel
    rw [he]
    refine hdel.trans ?_
    obtain rfl | hkey := hkey
    · simp
    · have hkey' : (s.unschedule group).screen.isUp .headsUp key = true := hkey
      rw [hkey', Bool.true_or]

/-- **An outdated alert makes two of one**: where a child alerts and the content of the summary is
ready when the scheduled alert falls due, both alert in the end. -/
theorem holds_of_outdated (h : c.Stands m) (ho : m.outdated g = true) {summary child : Notice}
    (hsum : m.next.summary g = some summary) (hchild : child ∈ m.next.children g) {due : Schedule}
    (hdue : (m.after.arbiter.record g).schedule = some due) (hkind : due.kind = .headsUp)
    (hready : m.after.outcome summary .headsUp = .shown) (hu : m.after.Holds child.key) :
    m.result.Holds summary.key ∧ m.result.Holds child.key := by
  simp only [Moment.outdated, Moment.releases, Bool.and_eq_true, Bool.not_eq_true'] at ho
  obtain ⟨⟨⟨⟨⟨h₀, h₁⟩, hq⟩, -⟩, -⟩, -⟩ := ho
  have hne : m.next.suppressed g ≠ m.roster.suppressed g := by
    rw [h₀, h₁]
    decide
  obtain rfl := group_eq_of_suppressed_ne h hne
  obtain ⟨before, after, hsame, hres⟩ := h.result_eq
  have hsum' : m.next.grouping.summary m.event.notice.group = some summary := hsum
  have hq' : (m.after.withRecords before).arbiter.quiet = false := hq
  have hdue' : ((m.after.withRecords before).arbiter.record m.event.notice.group).schedule =
      some due := by
    rw [hsame]
    exact hdue
  have hgroup : (c.place summary.key).group = m.event.notice.group :=
    group_of_place (place_of_summary h.next hsum)
  have hgroup' : (c.place child.key).group = m.event.notice.group :=
    group_of_place (place_of_child h.next hchild)
  have hshift : shift m.roster m.next m.event.notice.group =
      [.suppression m.event.notice.group false] := by
    unfold shift
    rw [if_neg hne, h₁]
  have hdone : ∀ key, key = summary.key ∨ m.after.Holds key →
      ((m.after.withRecords before).handleSuppression m.next.grouping m.now m.event.notice.group
        false).Holds key :=
    fun _ hkey => holds_of_due hsum' hq' hdue' hkind hready m.now hkey
  rw [hres, hshift]
  exact ⟨holds_quiesce h.next h₁ hgroup (hdone summary.key (.inl rfl)) m.now,
    holds_quiesce h.next h₁ hgroup' (hdone child.key (.inr hu)) m.now⟩

end Cast
/-! ### Sessions -/

namespace Session
variable {c : Cast} {g : String} {s : Session}

/-- What the host may do: it registers presenters for heads-ups only, and raises the alert of a
summary only while no key of its group alerts. -/
def lets (c : Cast) (s : Session) : Request → Bool
  | .host (.register kind _) => kind = .headsUp
  | .host (.raise _ n) =>
    n.role = .summary && s.scene.screen.shown.all fun key => (c.place key).group ≠ n.group
  | _ => true

/-- An event that is handled is of a kind that can bring the alert of its group to two places.  Not
every such event does, but no other can. -/
def doubles (c : Cast) (s : Session) : Request → Bool
  | .flush => s.moments.any fun m => m.outdated m.event.notice.group || c.intrudes m
  | _ => false

/-- All notices are those of the cast, only heads-ups have a presenter, and the alert of every group
is in one place. -/
structure Single (c : Cast) (s : Session) : Prop where
  speaks : c.Speaks s
  plain : s.scene.Plain
  sole : ∀ g, Cast.Sole c (s.roster.getD {}) g [] s.scene

theorem single_create (c : Cast) (clock : Clock) : Single c (create {} clock) where
  speaks := speaks_create c {} clock
  plain := ⟨rfl, rfl⟩
  sole g := by
    have hno : ∀ k, ¬(create {} clock).scene.Awaits k := by
      rintro k ⟨d, hd, -⟩
      simp [create] at hd
    have hdown : ∀ k, ¬(create {} clock).scene.Holds k := by
      intro k hk
      cases hk
    refine Cast.sole_of_bare ⟨fun _ ha => absurd ha (hno _), fun _ _ h₁ => absurd h₁ (hdown _),
      fun _ _ => hno _⟩ fun k _ _ => ⟨hdown k, hno k⟩

theorem outdated_eq_false {m : Moment} (h : c.Stands m)
    (ho : m.outdated m.event.notice.group = false) (g : String) : m.outdated g = false := by
  rw [Bool.eq_false_iff] at ho ⊢
  intro hg
  have hends := hg
  simp only [Moment.outdated, Moment.releases, Bool.and_eq_true, Bool.not_eq_true'] at hends
  have hne : m.next.suppressed g ≠ m.roster.suppressed g := by
    rw [hends.1.1.1.1.1, hends.1.1.1.1.2]
    decide
  rw [Cast.group_eq_of_suppressed_ne h hne] at hg
  exact ho hg

/-- **Flushing leaves the alert of every group in one place**, unless an event doubles it. -/
theorem sole_flushed (hc : c.Simple) (h : Single c s) {roster : Roster}
    (hr : s.roster = some roster) (hd : s.doubles c .flush = false) :
    (s.flushed roster).2.Plain ∧
      ∀ g, Cast.Sole c (s.flushed roster).1 g [] (s.flushed roster).2 := by
  have hkeeps := h.speaks.roster roster hr
  have hsole : ∀ g, Cast.Sole c roster g [] s.scene := by
    intro g
    have hg := h.sole g
    rw [hr] at hg
    exact hg
  refine (moments_keep (P := fun r x => x.Plain ∧ ∀ g, Cast.Sole c r g [] x) h.speaks hr ?_ ?_).2.2.2
  · refine ⟨h.plain.quiesce _ _, fun g => ?_⟩
    exact Cast.sole_quiesce hc hkeeps h.speaks.knows h.plain.ambient ((hsole g).any _) s.clock.now
  · intro m hm hstands ⟨hp, hs⟩
    simp only [doubles, List.any_eq_false, Bool.or_eq_true, not_or, Bool.not_eq_true] at hd
    obtain ⟨ho, hi⟩ := hd m hm
    refine ⟨Cast.plain_result hstands hp, fun g => ?_⟩
    exact Cast.sole_result hc hstands hp hi (outdated_eq_false hstands ho g) (hs g)

theorem sole_host {r : Roster} {s : Scene} (hs : Cast.Sole c r g [] s) {x : HostCall}
    (hx : ∀ kind n, x = .raise kind n → c.Admits n ∧ n.role = .summary ∧
      ∀ key, s.Holds key → (c.place key).group ≠ n.group) :
    Cast.Sole c r g [] { s with screen := (s.screen.host x).1 } := by
  by_cases hraise : ∃ n, x = .raise .headsUp n ∧ n.group = g
  · obtain ⟨n, rfl, hg⟩ := hraise
    obtain ⟨hadm, hrole, hdown⟩ := hx .headsUp n rfl
    have hn : c.place n.key = ⟨g, .summary⟩ := by
      rw [Cast.place_of_admits hadm, hg, hrole]
    have hchild : ∀ {k}, c.place k = ⟨g, .child⟩ →
        ¬({ s with screen := (s.screen.host (.raise .headsUp n)).1 } : Scene).Holds k := by
      intro k hk hu
      rcases isUp_host hu with hu | ⟨n', hraise, hkey, -⟩
      · rw [hg] at hdown
        exact hdown k hu (Cast.group_of_place hk)
      · cases hraise
        exact Cast.ne_of_place hk hn hkey.symm
    refine ⟨⟨hs.tracked, fun _ hk _ _ h₃ => hchild hk h₃, hs.hush⟩, hs.lent, ?_,
      fun _ hk _ _ h₃ => absurd h₃ (hchild hk), fun hk _ _ _ h₃ _ => absurd h₃ (hchild hk)⟩
    intro h k hh hk h₁ h₂ h₃
    have ha : s.Awaits k := by
      rcases h₃ with hu | ha
      · exact absurd hu (hchild hk)
      · exact ha
    exact ⟨(hs.sealed hh hk h₁ h₂ (.inr ha)).1, fun k' hk' hu => absurd hu (hchild hk')⟩
  · refine hs.less ⟨rfl, rfl, fun hk hu => ?_, fun _ hd _ => hd⟩
    rcases isUp_host hu with hu | ⟨n, rfl, rfl, -⟩
    · exact hu
    · refine absurd ⟨n, rfl, ?_⟩ hraise
      rw [← hk, Cast.group_of_place (Cast.place_of_admits (hx .headsUp n rfl).1)]

theorem presenter_host {s : Screen} {k : Kind} (hk : s.presenter k = none) {x : HostCall}
    (hx : ∀ flag, x ≠ .register k flag) : (s.host x).1.presenter k = none := by
  cases x with
  | register kind flag =>
      rw [Screen.host_register_fst, if_neg ?_]
      · exact hk
      · rintro rfl
        exact hx flag rfl
  | raise kind n | update kind key alert | dismiss kind key =>
      simp only [Screen.host, Screen.raise, Screen.update, Screen.dismiss,
        Screen.presenter_callPresenter, hk]
      split <;> rfl
  | drain kind =>
      simp only [Screen.host, Screen.drain]
      split
      · exact hk
      · next p hp =>
        rw [Screen.presenter_setPresenter, if_neg ?_]
        · exact hk
        · rintro rfl
          rw [hk] at hp
          cases hp
  | prepare row flag on => exact (Screen.presenter_setRow _ _ _ _).trans hk

theorem sole_setQuiet {r : Roster} {s : Scene} (hs : Cast.Sole c r g [] s) (on : Bool) :
    Cast.Sole c r g [] { s with arbiter := s.arbiter.setQuiet on } := by
  have hawaits : ∀ {k : String} {d}, (s.arbiter.setQuiet on).pending[k]? = some d → d.isLive = true →
      s.arbiter.pending[k]? = some d ∧ on = false := by
    intro k d hd hl
    cases on with
    | true =>
        rw [Arbiter.not_isLive_of_setQuiet hd] at hl
        cases hl
    | false =>
        rw [Arbiter.pending_setQuiet] at hd
        exact ⟨hd, rfl⟩
  have hwait : ∀ {k}, ({ s with arbiter := s.arbiter.setQuiet on } : Scene).Awaits k →
      s.Awaits k ∧ on = false := by
    rintro k ⟨d, hd, hl⟩
    obtain ⟨hd', hon⟩ := hawaits hd hl
    exact ⟨⟨d, hd', hl⟩, hon⟩
  refine ⟨⟨fun hk ha => hs.tracked hk (hwait ha).1, fun hh hk h₁ h₂ => hs.lone hh hk h₁ (hwait h₂).1,
    ?_⟩, fun hk hd hl => hs.lent hk (hawaits hd hl).1 hl, ?_, ?_, hs.sole⟩
  · intro k _ hq ha
    rw [Arbiter.quiet_setQuiet, (hwait ha).2] at hq
    cases hq
  · intro h k hh hk h₁ h₂ h₃
    obtain ⟨hsl, hall⟩ := hs.sealed hh hk (hwait h₁).1 h₂ (h₃.imp_right fun ha => (hwait ha).1)
    refine ⟨⟨hsl.1, ?_⟩, hall⟩
    rw [Arbiter.joining_congr (Arbiter.announced_setQuiet _ on)]
    exact hsl.2
  · intro h k hh hk h₁ h₂ h₃
    obtain ⟨-, -, n, hn, -⟩ := hs.owner hh hk h₁ h₂ h₃
    cases hn

theorem single_step (hc : c.Simple) (h : Single c s) {r : Request}
    (hn : ∀ n ∈ r.notices, c.Admits n) (hl : s.lets c r = true) (hd : s.doubles c r = false) :
    Single c (s.step r).1 := by
  have hspeaks := speaks_step h.speaks hn
  cases r with
  | advance micros | close => exact ⟨hspeaks, h.plain, h.sole⟩
  | send e =>
      refine ⟨hspeaks, ?_, ?_⟩
      · simp only [step, send]
        split <;> exact h.plain
      · simp only [step, send]
        split <;> exact h.sole
  | bind =>
      simp only [step, bind] at hspeaks ⊢
      split
      · exact h
      · next hb =>
        have hnone : s.roster = none := by simpa using hb
        have hsole := h.sole
        rw [if_neg hb] at hspeaks
        rw [hnone] at hsole
        exact ⟨hspeaks, h.plain, hsole⟩
  | quiet on =>
      refine ⟨hspeaks, ⟨h.plain.ambient, ?_⟩, fun g => sole_setQuiet (h.sole g) on⟩
      have hsettings := Arbiter.settings_setQuiet s.scene.arbiter on
      exact (congrArg Settings.window hsettings).trans h.plain.window
  | flush =>
      simp only [step] at hspeaks ⊢
      cases hr : s.roster with
      | none =>
          rw [flush_of_none hr]
          exact h
      | some roster =>
          obtain ⟨hp, hs⟩ := sole_flushed hc h hr hd
          rw [flush_of_some hr] at hspeaks ⊢
          exact ⟨hspeaks, ⟨hp.ambient, hp.window⟩,
            fun g => (hs g).less ⟨rfl, rfl, fun _ hu => hu, fun _ hd _ => hd⟩⟩
  | host x =>
      refine ⟨hspeaks, ⟨?_, h.plain.window⟩, fun g => sole_host (h.sole g) ?_⟩
      · refine presenter_host h.plain.ambient ?_
        rintro flag rfl
        simp [lets] at hl
      · rintro kind n rfl
        simp only [lets, Bool.and_eq_true, decide_eq_true_eq, List.all_eq_true] at hl
        refine ⟨hn n (List.mem_singleton_self n), hl.1, fun key hk => ?_⟩
        exact hl.2 key (Screen.mem_shown.mpr hk)

end Session

namespace Cast
variable {c : Cast} {r : Roster} {g : String} {s : Scene}

theorem Sole.eq_of_holds (hs : Sole c r g [] s) (hr : c.Keeps r) {a b : Notice}
    (ha : a ∈ r.members g) (hb : b ∈ r.members g) (hau : s.Holds a.key) (hbu : s.Holds b.key) :
    a.key = b.key := by
  have hmember : ∀ {n}, n ∈ r.members g → r.summary g = some n ∨ n ∈ r.children g := by
    intro n hn
    simpa [Roster.members] using hn
  have hexclude : ∀ {n k : Notice}, r.summary g = some n → k ∈ r.children g → s.Holds n.key →
      ¬s.Holds k.key := by
    intro n k hn hk h₁ h₂
    obtain ⟨-, -, x, hx, -⟩ := hs.owner (place_of_summary hr hn) (place_of_child hr hk) h₁
      (tracks_of_child hr hk) h₂
    cases hx
  obtain ha | ha := hmember ha
  · obtain hb | hb := hmember hb
    · rw [ha] at hb
      cases hb
      rfl
    · exact absurd hbu (hexclude ha hb hau)
  · obtain hb | hb := hmember hb
    · exact absurd hau (hexclude hb ha hbu)
    · exact hs.sole (place_of_child hr ha) (place_of_child hr hb) (tracks_of_child hr ha)
        (tracks_of_child hr hb) hau hbu

end Cast

/-- **At most one member of a group alerts.**  In a run with the usual settings, in which every key
keeps its place, a group has at most one summary key, only summaries alert, and the host raises the
alert of a summary only while no key of its group alerts: if no event is of a kind that can double an
alert, then after every flush at most one of the summary and the children of a group alerts.  And an
outdated alert that meets an alerting child while the content of the summary is ready does make two
of one. -/
theorem one_member_alerts {c : Cast} (hc : c.Simple) {rs : List Request} (clock : Clock)
    (hn : ∀ r ∈ rs, ∀ n ∈ r.notices, c.Admits n)
    (hl : Session.Along (fun s r => s.lets c r = true) (Session.create {} clock) rs) :
    let new := Session.create {} clock
    (Session.Along (fun s r => s.doubles c r = false) new (rs ++ [.flush]) →
      ∀ roster g, (new.run (rs ++ [.flush])).roster = some roster →
        ∀ a ∈ roster.members g, ∀ b ∈ roster.members g,
          (new.run (rs ++ [.flush])).scene.screen.isUp .headsUp a.key = true →
          (new.run (rs ++ [.flush])).scene.screen.isUp .headsUp b.key = true → a.key = b.key) ∧
      ∀ m ∈ (new.run rs).moments, ∀ g summary child due, m.outdated g = true →
        m.next.summary g = some summary → child ∈ m.next.children g →
        (m.after.arbiter.record g).schedule = some due → due.kind = .headsUp →
        m.after.outcome summary .headsUp = .shown →
        m.after.screen.isUp .headsUp child.key = true →
        m.result.screen.isUp .headsUp summary.key = true ∧
          m.result.screen.isUp .headsUp child.key = true := by
  intro new
  constructor
  · intro hd roster g hroster a ha b hb hau hbu
    obtain ⟨hd, hflush, -⟩ := Session.along_append.mp hd
    have hrun : Session.Single c (new.run rs) :=
      Session.Along.keeps (I := Session.Single c)
        (fun _ _ hr hs => Session.single_step hc hs hr.2 hr.1.1 hr.1.2) rs
        ((hl.and hd).and_mem hn) (Session.single_create c clock)
    have hlast : Session.Single c (new.run (rs ++ [.flush])) := by
      rw [Session.run_append]
      exact Session.single_step hc hrun (fun n hn => by cases hn) rfl hflush
    have hsole := hlast.sole g
    rw [hroster] at hsole
    exact hsole.eq_of_holds (hlast.speaks.roster roster hroster) ha hb hau hbu
  · intro m hm g summary child due ho hsum hchild hdue hkind hready hu
    have hspeaks : c.Speaks (new.run rs) :=
      Session.speaks_run (Session.speaks_create c {} clock) hn
    cases hr : (new.run rs).roster with
    | none =>
        simp only [Session.moments, hr] at hm
        cases hm
    | some roster =>
        have hstands := ((Session.moments_keep (P := fun _ _ => True) hspeaks hr trivial
          fun _ _ _ _ => trivial).1 m hm).1
        exact Cast.holds_of_outdated hstands ho hsum hchild hdue hkind hready hu

theorem simple_troupe : Cast.troupe.Simple where
  policy _ := rfl
  head := by
    have hkey : ∀ {g k}, Cast.troupe.place k = ⟨g, .summary⟩ → k = "s" := by
      intro g k hk
      have hrole := congrArg Membership.role hk
      simp only [Cast.troupe] at hrole
      split at hrole
      · assumption
      · cases hrole
    intro g k k' hk hk'
    rw [hkey hk, hkey hk']

/-- The alert goes from the summary `s` to the child `c`, and when `d` joins `c` it goes back. -/
def relay : List Request :=
  [.host (.register .headsUp 4), .bind, .send (.added (Cast.troupe.notice "s")),
    .send (.added (Cast.troupe.notice "c")), .host (.prepare "c" 4 true),
    .host (.prepare "s" 4 true), .host (.raise .headsUp (Cast.troupe.notice "s")), .flush,
    .send (.announced (Cast.troupe.notice "d")), .flush,
    .send (.added (Cast.troupe.notice "d"))]

theorem relay_alerts_once :
    ((Session.create {} {}).run (relay ++ [.flush])).scene.screen.shown = ["s"] ∧
      ∀ roster g, ((Session.create {} {}).run (relay ++ [.flush])).roster = some roster →
        ∀ a ∈ roster.members g, ∀ b ∈ roster.members g,
          ((Session.create {} {}).run (relay ++ [.flush])).scene.screen.isUp .headsUp a.key = true →
          ((Session.create {} {}).run (relay ++ [.flush])).scene.screen.isUp .headsUp b.key = true →
          a.key = b.key := by
  have hn : ∀ r ∈ relay, ∀ n ∈ r.notices, Cast.troupe.Admits n := by decide
  have hl : Session.Along (fun s r => s.lets Cast.troupe r = true) (Session.create {} {}) relay := by
    decide +kernel
  have hd : Session.Along (fun s r => s.doubles Cast.troupe r = false) (Session.create {} {})
      (relay ++ [.flush]) := by
    decide +kernel
  exact ⟨by decide +kernel, (one_member_alerts simple_troupe {} hn hl).1 hd⟩

/-- An alert is scheduled for the summary because `d` was about to join, and `d` is removed.  Then
another alert of the summary goes to `c`, and `d` joins after all: the scheduled alert is outdated. -/
def relapse : List Request :=
  [.host (.register .headsUp 4), .bind, .send (.added (Cast.troupe.notice "s")),
    .send (.added (Cast.troupe.notice "c")), .host (.raise .headsUp (Cast.troupe.notice "s")),
    .flush, .send (.announced (Cast.troupe.notice "d")),
    .send (.removed (Cast.troupe.notice "d")), .flush, .host (.prepare "c" 4 true),
    .host (.prepare "s" 4 true), .host (.raise .headsUp (Cast.troupe.notice "s")), .flush,
    .send (.added (Cast.troupe.notice "d")), .flush]

/-- While `c` alerts it is removed, and the alert scheduled for the summary falls due.  Then `c`
comes back in quiet mode, and intrudes. -/
def comeback : List Request :=
  relapse.take 13 ++
    [.send (.removed (Cast.troupe.notice "c")), .flush, .quiet true,
      .send (.added (Cast.troupe.notice "c")), .flush]

/-- An outdated alert alone makes two members alert, and so does an intruder alone. -/
theorem either_alerts_twice :
    (∀ rs ∈ [relapse, comeback],
      Session.Along (fun s r => s.lets Cast.troupe r = true) (Session.create {} {}) rs ∧
        ((Session.create {} {}).run rs).scene.screen.shown = ["c", "s"] ∧
        ((Session.create {} {}).run rs).roster.any fun r =>
          ["s", "c"] ⊆ (r.members "g").map (·.key)) ∧
      Session.Along (fun s _ => s.moments.all fun m => !Cast.troupe.intrudes m)
        (Session.create {} {}) relapse ∧
      Session.Along (fun s _ => s.moments.all fun m => !m.outdated "g") (Session.create {} {})
        comeback := by
  decide +kernel

end AlertHandoff
