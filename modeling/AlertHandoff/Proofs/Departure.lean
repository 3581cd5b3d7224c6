import AlertHandoff.Proofs.Registry
import AlertHandoff.Proofs.Tracked

/-! # What a removed notice leaves behind

When a notice is removed the arbiter gives up every move from or to it, and the roster forgets it.
While nothing is said about its key again, no move to it is put off, and an alert that was scheduled
is all that can bring up its key as a source: one that was taken from the notice before it left and
falls due afterwards, maybe at the removal itself (`departed_keys_leave_belated_alerts`).  Such an
alert is put off as if its source were still there, so that the removed key does stand on record
(`removed_child_stays_a_source`). -/

namespace AlertHandoff

/-- The key of the notice that the event announces, enters, brings up to date or removes. -/
def Event.about? : Event → Option String
  | .announced n | .added n | .updated n _ | .removed n => some n.key
  | .rendered _ => none

/-- The notice of the key was removed, and no event since then was about the key. -/
def Departed (es : List Event) (key : String) : Prop :=
  ∃ before n after, es = before ++ .removed n :: after ∧ n.key = key ∧
    ∀ e ∈ after, e.about? ≠ some key

theorem departed_iff_latest {es : List Event} {key : String} : Departed es key ↔
    Latest (fun e => ∃ n, e = .removed n ∧ n.key = key) (·.about? = some key) es := by
  constructor
  · rintro ⟨before, n, after, he, hk, hafter⟩
    exact ⟨before, _, after, he, ⟨n, rfl, hk⟩, hafter⟩
  · rintro ⟨before, _, after, he, ⟨n, rfl, hk⟩, hafter⟩
    exact ⟨before, n, after, he, hk, hafter⟩

theorem departed_concat {es : List Event} {e : Event} {key : String} :
    Departed (es ++ [e]) key ↔
      (∃ n, e = .removed n ∧ n.key = key) ∨ (Departed es key ∧ e.about? ≠ some key) := by
  rw [departed_iff_latest, departed_iff_latest, latest_concat, and_comm]

theorem Roster.entries_next_of_departed {r : Roster} {e : Event} {key : String}
    (h : (∃ n, e = .removed n ∧ n.key = key) ∨ (r.entries[key]? = none ∧ e.about? ≠ some key)) :
    (r.next e).entries[key]? = none := by
  rw [r.getElem?_entries_next]
  rcases h with ⟨n, rfl, rfl⟩ | ⟨hr, he⟩
  · exact if_pos rfl
  · cases e with
    | announced n | rendered n => exact hr
    | added n | updated n previous | removed n =>
        have hne : key ≠ n.key := fun hk => he (congrArg some hk.symm)
        exact (if_neg hne).trans hr

theorem Roster.Indexed.ordinary_ne {r : Roster} (h : r.Indexed) {key : String}
    (hk : r.entries[key]? = none) {n : Notice} {group source : String}
    (ho : Scene.Ordinary r.grouping group n source) : n.key ≠ key ∧ source ≠ key := by
  have htracked : ∀ {x : Notice}, Scene.Member r.grouping group x → x.key ≠ key := by
    rintro x hx rfl
    rw [(h.member hx).1] at hk
    cases hk
  obtain ⟨hn, x, hx, rfl⟩ := ho
  exact ⟨htracked hn, htracked hx⟩

/-! ### One event -/

namespace Moment
variable {m : Moment}

/-- A deferral that names a key which is not tracked was there before the event, which does not void
it, or it is that of an alert taken from the key which falls due. -/
theorem Sound.untracked (h : m.Sound) {key : String} (hk : m.next.entries[key]? = none)
    {target : String} {d : Deferral} (hd : m.result.arbiter.pending[target]? = some d)
    (hn : target = key ∨ d.source = key) :
    ((∃ d₀, m.scene.arbiter.pending[target]? = some d₀ ∧ d.asMade = d₀.asMade) ∧
        m.deed.voids? ≠ some key) ∨
      (target ≠ key ∧ d.source = key ∧ ∃ n, n.key = target ∧ m.Resumes n ⟨d.kind, key⟩) := by
  rcases h.alters_result.cases hd with ⟨d₁, hd₁, hmade⟩ | ⟨n, rfl, ⟨group, ho⟩ | hr, -⟩
  · have hsource := Deferral.source_eq_of_asMade hmade
    rcases h.alters_after.cases hd₁ with ⟨d₀, hd₀, hmade'⟩ | ⟨n, rfl, ⟨group, ho⟩, -⟩
    · refine .inl ⟨⟨d₀, hd₀, hmade.trans hmade'⟩, fun hv => ?_⟩
      obtain ⟨htarget, hsource'⟩ := h.not_named hv hd₁
      rcases hn with hn | hn
      · exact htarget hn.symm
      · exact hsource' (hn.symm.trans hsource)
    · rw [hsource] at hn
      rcases hn with hn | hn
      · exact absurd hn (h.next.ordinary_ne hk ho).1
      · exact absurd hn (h.next.ordinary_ne hk ho).2
  · rcases hn with hn | hn
    · exact absurd hn (h.next.ordinary_ne hk ho).1
    · exact absurd hn (h.next.ordinary_ne hk ho).2
  · have hne : n.key ≠ key := by
      rintro rfl
      rw [(h.entry_of_resumes hr).1] at hk
      cases hk
    rcases hn with hn | hn
    · exact absurd hn hne
    · rw [hn] at hr
      exact .inr ⟨hne, hn, n, rfl, hr⟩

end Moment

theorem Roster.suppression_changes_once (r : Roster) (e : Event) :
    (r.track e).1.Pairwise fun a b =>
      ∀ group on off, a = .suppression group on → b ≠ .suppression group off := by
  have hchanges : ∀ {group g : String} {on : Bool},
      .suppression g on ∈ r.changes (r.next e) group → g = group := by
    intro group g on h
    rcases mem_changes_iff.mp h with ⟨he, -⟩ | ⟨he, -⟩ <;> cases he
    rfl
  have hformed : ∀ x ∈ r.formed e, ∀ g on, x ≠ .suppression g on := by
    rintro x hx g on rfl
    rcases r.formed_cases e with ⟨hes, -⟩ | ⟨n, -, -, hes⟩ <;> rw [hes] at hx
    · cases hx
    · cases List.mem_singleton.mp hx
  show (r.formed e ++ (r.touched e).flatMap (r.changes (r.next e))).Pairwise _
  rw [List.pairwise_append, List.pairwise_flatMap]
  refine ⟨?_, ⟨?_, ?_⟩, ?_⟩
  · exact List.pairwise_of_forall_mem_list fun x hx _ _ g on _ hxg => absurd hxg (hformed x hx g on)
  · intro group _
    unfold changes
    split <;> split <;> simp
  · refine (r.nodup_touched e).imp fun hne x hx y hy g on off hxg hyg => hne ?_
    subst hxg hyg
    exact (hchanges hx).symm.trans (hchanges hy)
  · exact fun x hx _ _ g on _ hxg => absurd hxg (hformed x hx g on)

/-- **An alert that falls due and is put off is on record when the event has been handled.** -/
theorem Moment.Sound.pending_of_resumes {m : Moment} (h : m.Sound) {n : Notice} {due : Schedule}
    (hr : m.Resumes n due) :
    m.result.arbiter.pending[n.key]? = some (Deferral.fresh n due.source due.kind) := by
  obtain ⟨hentry, -⟩ := h.entry_of_resumes hr
  obtain ⟨before, e, after, htrack, hr⟩ := hr
  have hchild : ¬Scene.ChildKey m.next.grouping n.key := fun ⟨_, _, hc, hk⟩ =>
    h.next.summary_key_ne hr.summary hc hk.symm
  have honce := m.roster.suppression_changes_once m.event
  rw [htrack] at honce
  have hlater := (List.pairwise_cons.mp (List.pairwise_append.mp honce).2.1).1
  generalize hu : Session.replay m.next.grouping m.now m.after before = u at hr
  have hresult : m.result = Session.replay m.next.grouping m.now
      ((u.handleGroup m.next.grouping m.now e).quiesce m.next.grouping m.now) after := by
    rw [Moment.result, htrack, ← hu]
    simp [Session.replay]
  have hmade : (u.handleGroup m.next.grouping m.now e).arbiter.pending[n.key]? =
      some (Deferral.fresh n due.source due.kind) := by
    have hout : (u.unschedule e.group).outcome n due.kind = .deferred := hr.outcome
    rw [Scene.handleGroup_of_resumes hr]
    simp [Scene.move, Scene.write, Arbiter.write, Scene.arbiter_deliver, hout, Outcome.pending]
  -- Neither the news nor the group events that come later concern the summary.
  have hquiet := Scene.alters_quiesce h.next.coherent
    (u.handleGroup m.next.grouping m.now e) m.now n.key
  rw [hresult]
  rcases Session.alters_replay h.next.coherent m.now after
    ((u.handleGroup m.next.grouping m.now e).quiesce m.next.grouping m.now) n.key with
    hsame | ⟨hkey | ⟨x, hx, ⟨on, hon⟩, c, hc, hk⟩, -⟩
  · rw [hsame]
    rcases hquiet with hsame | ⟨hkey, -⟩
    · rw [hsame, hmade]
    · exact absurd hkey hchild
  · exact absurd hkey hchild
  · obtain ⟨hc, hgroup⟩ := h.next.member hc
    rw [hk, hentry] at hc
    cases hc
    have he : x.group = e.group := hgroup.symm.trans (h.next.coherent e.group n hr.summary)
    rw [he] at hon
    exact absurd hon (hlater x hx e.group false on hr.event)

/-! ### Runs -/

/-- At an event when the key had departed, or at its departure, an alert that had been taken from
the key fell due and was put off, to the target; no event since then was about the key. -/
def Belated (ms : List Moment) (key target : String) (kind : Kind) : Prop :=
  ∃ before m after n, ms = before ++ m :: after ∧
    Departed ((before ++ [m]).map (·.event)) key ∧ (∀ x ∈ after, x.event.about? ≠ some key) ∧
      n.key = target ∧ m.Resumes n ⟨kind, key⟩

theorem Belated.concat {ms : List Moment} {key target : String} {kind : Kind}
    (h : Belated ms key target kind) {m : Moment} (hm : m.event.about? ≠ some key) :
    Belated (ms ++ [m]) key target kind := by
  obtain ⟨before, x, after, n, rfl, hd, hafter, hn, hr⟩ := h
  refine ⟨before, x, after ++ [m], n, by simp, hd, fun y hy => ?_, hn, hr⟩
  rcases List.mem_append.mp hy with hy | hy
  · exact hafter y hy
  · rwa [List.mem_singleton.mp hy]

/-- A key is no longer tracked, no deferral is to it, and one that is from it is belated. -/
structure Forgotten (ms : List Moment) (key : String) (r : Roster) (s : Scene) : Prop where
  entry : r.entries[key]? = none
  target : s.arbiter.pending[key]? = none
  source : ∀ (target : String) d, s.arbiter.pending[target]? = some d → d.source = key →
    Belated ms key target d.kind

theorem Moment.Sound.forgotten {ms : List Moment} {m : Moment} (h : m.Sound)
    (ih : ∀ key, Departed (ms.map (·.event)) key → Forgotten ms key m.roster m.scene) {key : String}
    (hk : Departed ((ms ++ [m]).map (·.event)) key) :
    Forgotten (ms ++ [m]) key m.next m.result := by
  have hnow : Departed ((ms ++ [m]).map (·.event)) key := hk
  rw [List.map_append, List.map_singleton, departed_concat] at hk
  have hentry : m.next.entries[key]? = none :=
    Roster.entries_next_of_departed (hk.imp_right fun hk => ⟨(ih key hk.1).entry, hk.2⟩)
  -- A deferral that was there before goes back to an earlier event: this one is not about the key.
  have hstays : m.deed.voids? ≠ some key →
      Forgotten ms key m.roster m.scene ∧ m.event.about? ≠ some key := by
    intro hv
    rcases hk with ⟨n, he, rfl⟩ | ⟨hk, he⟩
    · refine absurd ?_ hv
      rw [Moment.deed, he]
      rfl
    · exact ⟨ih key hk, he⟩
  refine ⟨hentry, Option.eq_none_iff_forall_ne_some.mpr fun d hd => ?_, fun target d hd hs => ?_⟩
  · rcases h.untracked hentry hd (.inl rfl) with ⟨⟨d₀, hd₀, -⟩, hv⟩ | ⟨hne, -⟩
    · rw [(hstays hv).1.target] at hd₀
      cases hd₀
    · exact hne rfl
  · rcases h.untracked hentry hd (.inr hs) with ⟨⟨d₀, hd₀, hmade⟩, hv⟩ | ⟨-, -, n, hn, hr⟩
    · obtain ⟨hf, hm⟩ := hstays hv
      have hs₀ : d₀.source = key := (Deferral.source_eq_of_asMade hmade).symm.trans hs
      rw [Deferral.kind_eq_of_asMade hmade]
      exact (hf.source target d₀ hd₀ hs₀).concat hm
    · exact ⟨ms, m, [], n, rfl, hnow, by simp, hn, hr⟩

namespace Session

theorem lasting_forgotten : Lasting fun ms r s =>
    ∀ key, Departed (ms.map (·.event)) key → Forgotten ms key r s where
  loses hl h key hk :=
    { entry := (h key hk).entry
      target := Option.eq_none_iff_forall_ne_some.mpr fun d hd => by
        have hd' := hl key d hd
        rw [(h key hk).target] at hd'
        cases hd'
      source := fun target d hd => (h key hk).source target d (hl target d hd) }
  quiesce {ms r s} now hi h key hk := by
    obtain ⟨hentry, htarget, hsource⟩ := h key hk
    have ha := Scene.alters_quiesce hi.coherent s now
    refine ⟨hentry, Option.eq_none_iff_forall_ne_some.mpr fun d hd => ?_, fun target d hd hs => ?_⟩
    · rcases ha.cases hd with ⟨d₀, hd₀, -⟩ | ⟨n, hn, ⟨group, ho⟩, -⟩
      · rw [htarget] at hd₀
        cases hd₀
      · exact (hi.ordinary_ne hentry ho).1 hn
    · rcases ha.cases hd with ⟨d₀, hd₀, hmade⟩ | ⟨n, -, ⟨group, ho⟩, -⟩
      · rw [Deferral.kind_eq_of_asMade hmade]
        exact hsource target d₀ hd₀ ((Deferral.source_eq_of_asMade hmade).symm.trans hs)
      · exact absurd hs (hi.ordinary_ne hentry ho).2
  moment hm h key hk := hm.forgotten h hk

end Session

/-- **A removed key is a source only of alerts that fall due afterwards.**  In every run of a new
session, for every key that has departed: the roster does not track it and no deferral is to it.  A
deferral from it is that of an alert which was scheduled when it was taken from the key, and which
fell due at an event since the departure, or at the departure itself, while the content of the
summary it went to was missing.  And whenever an alert falls due so, its deferral is on record when
the event has been handled, under the key it was taken from. -/
theorem departed_keys_leave_belated_alerts (settings : Settings) (clock : Clock)
    (rs : List Request) :
    let s := (Session.create settings clock).run rs
    let ms := (Session.create settings clock).past rs
    (∀ key, Departed (ms.map (·.event)) key →
      s.table.entries[key]? = none ∧ s.scene.arbiter.pending[key]? = none ∧
        ∀ (target : String) d, s.scene.arbiter.pending[target]? = some d → d.source = key →
          Belated ms key target d.kind) ∧
      ∀ m ∈ ms, ∀ n due, m.Resumes n due →
        m.result.arbiter.pending[n.key]? = some (Deferral.fresh n due.source due.kind) := by
  have hstart : ∀ key, Departed [] key → Forgotten [] key {} { arbiter := { settings } } := by
    rintro key ⟨before, n, after, he, -⟩
    simp at he
  refine ⟨fun key hk => ?_, fun m hm n due hr => ?_⟩
  · obtain ⟨hentry, htarget, hsource⟩ :=
      Session.past_induction Session.lasting_forgotten settings clock hstart rs key hk
    exact ⟨hentry, htarget, hsource⟩
  · exact (Session.sound_of_mem_past settings clock rs m hm).pending_of_resumes hr

/-- The alert of `s` moves to its only child `c`.  As `d` is announced, it is taken back from `c`
and scheduled for `s`; then `c` is removed, which ends the suppression, and the alert falls due
while the content of `s` is missing. -/
def leave : List Request :=
  let s := Cast.troupe.notice "s"
  let c := Cast.troupe.notice "c"
  [.host (.register .headsUp 4), .bind, .host (.prepare "c" 4 true), .send (.added s),
    .send (.added c), .host (.raise .headsUp s), .flush,
    .send (.announced (Cast.troupe.notice "d")), .send (.removed c), .flush]

theorem departed_leave :
    Departed (((Session.create {} {}).past leave).map (·.event)) "c" := by
  have hevents : ((Session.create {} {}).past leave).map (·.event) =
      [.added (Cast.troupe.notice "s"), .added (Cast.troupe.notice "c"),
        .announced (Cast.troupe.notice "d")] ++ .removed (Cast.troupe.notice "c") :: [] := by
    decide +kernel
  exact ⟨_, _, [], hevents, rfl, by simp⟩

/-- That a notice was removed does not keep its key out of the deferrals. -/
theorem removed_child_stays_a_source :
    Departed (((Session.create {} {}).past leave).map (·.event)) "c" ∧
      ∃ d, ((Session.create {} {}).run leave).scene.arbiter.pending["s"]? = some d ∧
        d.source = "c" :=
  ⟨departed_leave, ⟨"c", .headsUp, ⟨"g", .summary⟩, false⟩, by decide +kernel, rfl⟩

theorem leave_is_belated :
    let ms := (Session.create {} {}).past leave
    Departed (ms.map (·.event)) "c" ∧ Belated ms "c" "s" .headsUp := by
  intro ms
  have hpending : ((Session.create {} {}).run leave).scene.arbiter.pending["s"]? =
      some ⟨"c", .headsUp, ⟨"g", .summary⟩, false⟩ := by decide +kernel
  obtain ⟨-, -, hsource⟩ :=
    (departed_keys_leave_belated_alerts {} {} leave).1 "c" departed_leave
  exact ⟨departed_leave, hsource "s" _ hpending rfl⟩

end AlertHandoff
