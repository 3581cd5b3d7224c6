import AlertHandoff.Proofs.Cases
import AlertHandoff.Proofs.Cast
import AlertHandoff.Proofs.Past

/-! # What is taken from the children

When alerts are taken back, the children are gone through in order, and two things may be taken from
each: the alert it has, and the move that waits for its content.  `Scene.takings` lists all that is
taken, in order; taking it is all that is done (`takeAll_eq`), and the last of it is what the
summary gets.

Of the alerts of a child only the first is taken.  So a child that is up on one kind lets go of its
alert, and one that is up on both kinds keeps the second, unless the grouping lists its key twice
(`alerts_are_taken_one_by_one`).  That this happens, `second_alert_is_kept` says of a run. -/

namespace AlertHandoff

/-- Something that is taken from a child: its alert on a kind, or the move of an alert that waits
for its content. -/
inductive Taking where
  | alert (kind : Kind) (key : String)
  | move (kind : Kind) (key : String)
deriving DecidableEq, Repr

namespace Taking

/-- What is taken, as it is given to the summary. -/
def schedule : Taking → Schedule
  | .alert kind key | .move kind key => ⟨kind, key⟩

end Taking

namespace Scene
variable {s : Scene} {g : Grouping} {now : Nat} {group key : String} {summary c : Notice}

/-- Takes it. -/
def take (s : Scene) : Taking → Scene
  | .alert kind key => s.dismiss kind key
  | .move _ key => s.turnBack key

/-- The alert that is taken from a child. -/
def alertOf (s : Scene) (c : Notice) : Option Taking :=
  if c.policy.summaryOnly then (s.screen.kindUp? c.key).map (.alert · c.key) else none

/-- The move that is taken from a child. -/
def moveTo (s : Scene) (c : Notice) : Option Taking :=
  (s.arbiter.pending[c.key]?.filter (·.isLive)).map fun d => .move d.kind c.key

/-- What is taken from one child. -/
def takingsFrom (s : Scene) (c : Notice) : List Taking :=
  (s.alertOf c).toList ++ (s.moveTo c).toList

/-- What is taken from the children, each as it is found once the earlier ones have been gone
through. -/
def takings (s : Scene) : List Notice → List Taking
  | [] => []
  | c :: cs => s.takingsFrom c ++ ((s.takingsFrom c).foldl take s).takings cs

/-! ### Taking all of it is all that is done -/

theorem takeAlert_eq (c : Notice) (s : Scene) (taken : Option Schedule) :
    takeAlert c s taken =
      ((s.alertOf c).toList.foldl take s, ((s.alertOf c).map (·.schedule)).or taken) := by
  unfold takeAlert alertOf
  split
  · cases s.screen.kindUp? c.key <;> rfl
  · rfl

theorem takeDeferral_eq (c : Notice) (s : Scene) (taken : Option Schedule) :
    takeDeferral c s taken =
      ((s.moveTo c).toList.foldl take s, ((s.moveTo c).map (·.schedule)).or taken) := by
  unfold takeDeferral moveTo
  cases s.arbiter.pending[c.key]? with
  | none => rfl
  | some d =>
      rw [Option.filter_some]
      dsimp only
      split <;> rfl

theorem arbiter_alertOf (s : Scene) (c : Notice) :
    ((s.alertOf c).toList.foldl take s).arbiter = s.arbiter := by
  unfold alertOf
  split
  · cases s.screen.kindUp? c.key <;> rfl
  · rfl

theorem screen_moveTo (s : Scene) (c : Notice) :
    ((s.moveTo c).toList.foldl take s).screen = s.screen := by
  unfold moveTo
  cases s.arbiter.pending[c.key]?.filter (·.isLive) <;> rfl

theorem foldl_takingsFrom (s : Scene) (c : Notice) :
    (s.takingsFrom c).foldl take s =
      (((s.alertOf c).toList.foldl take s).moveTo c).toList.foldl take
        ((s.alertOf c).toList.foldl take s) := by
  rw [takingsFrom, List.foldl_append]
  simp only [moveTo, arbiter_alertOf]

theorem takeFrom_eq (acc : Scene × Option Schedule) (c : Notice) :
    takeFrom acc c = ((acc.1.takingsFrom c).foldl take acc.1,
      ((acc.1.takingsFrom c).getLast?.map (·.schedule)).or acc.2) := by
  unfold takeFrom takingsFrom
  dsimp only
  rw [takeAlert_eq, takeDeferral_eq, List.foldl_append]
  simp only [moveTo, arbiter_alertOf]
  cases acc.1.alertOf c <;> cases acc.1.arbiter.pending[c.key]?.filter (·.isLive) <;> rfl

/-- **All that is done to the children** is to take the takings, and the last of them is what the
summary gets. -/
theorem takeAll_eq (s : Scene) (cs : List Notice) :
    s.takeAll cs =
      ((s.takings cs).foldl take s, (s.takings cs).getLast?.map (·.schedule)) := by
  suffices h : ∀ (cs : List Notice) (acc : Scene × Option Schedule),
      cs.foldl takeFrom acc = ((acc.1.takings cs).foldl take acc.1,
        ((acc.1.takings cs).getLast?.map (·.schedule)).or acc.2) by
    rw [takeAll, h]
    simp
  intro cs
  induction cs with
  | nil => intro acc; rfl
  | cons c cs ih =>
      intro acc
      rw [List.foldl_cons, ih, takeFrom_eq]
      simp only [takings, List.foldl_append, List.getLast?_append, Option.map_or, Option.or_assoc]

/-! ### What it does to one key -/

end Scene

/-- The kinds on which the key is alerting, in order. -/
def Screen.kindsUp (s : Screen) (key : String) : List Kind := Kind.all.filter (s.isUp · key)

namespace Screen
variable {s t : Screen} {key : String}

theorem kindsUp_congr (h : ∀ k, s.isUp k key = t.isUp k key) : s.kindsUp key = t.kindsUp key :=
  List.filter_congr fun k _ => h k

theorem mem_kindsUp {k : Kind} : k ∈ s.kindsUp key ↔ s.isUp k key = true := by
  simp [kindsUp, Kind.mem_all]

theorem kindUp?_eq (s : Screen) (key : String) : s.kindUp? key = (s.kindsUp key).head? := by
  rw [kindsUp, List.head?_filter]
  rfl

/-- Dismissing the first alert of a key leaves the others. -/
theorem kindsUp_dismiss_head {kind : Kind} {kinds : List Kind} (h : s.kindsUp key = kind :: kinds) :
    (s.dismiss kind key).kindsUp key = kinds := by
  have hnodup : (s.kindsUp key).Nodup := List.Pairwise.filter _ (by decide)
  rw [h, List.nodup_cons] at hnodup
  have hdown : (s.dismiss kind key).kindsUp key = (s.kindsUp key).filter (· != kind) := by
    rw [kindsUp, kindsUp, List.filter_filter]
    refine List.filter_congr fun k _ => ?_
    rw [isUp_dismiss]
    simp [bne]
  rw [hdown, h, List.filter_cons_of_neg (by simp), List.filter_eq_self]
  intro k hk
  simp only [bne_iff_ne]
  rintro rfl
  exact hnodup.1 hk

theorem kindsUp_dismiss_of_ne {kind : Kind} {x : String} (h : key ≠ x) :
    (s.dismiss kind x).kindsUp key = s.kindsUp key :=
  kindsUp_congr fun k => by simp [h]

end Screen

namespace Scene
variable {s : Scene} {g : Grouping} {now : Nat} {group key : String} {summary c : Notice}

/-- Of the alerts of a child the first is taken, if only the summary may alert for it. -/
theorem kindsUp_takingsFrom (s : Scene) (c : Notice) (key : String) :
    ((s.takingsFrom c).foldl take s).screen.kindsUp key =
      (s.screen.kindsUp key).drop (if c.policy.summaryOnly && c.key == key then 1 else 0) := by
  rw [foldl_takingsFrom, screen_moveTo, alertOf]
  cases c.policy.summaryOnly with
  | false => rfl
  | true =>
      rw [if_pos rfl, Bool.true_and, Screen.kindUp?_eq]
      by_cases hkey : c.key = key
      · subst hkey
        cases h : s.screen.kindsUp c.key with
        | nil => simp [h]
        | cons kind kinds =>
            have hrest : ((s.dismiss kind c.key).screen).kindsUp c.key = kinds :=
              Screen.kindsUp_dismiss_head h
            simpa [take] using hrest
      · rw [if_neg (by simpa using hkey), List.drop_zero]
        cases s.screen.kindsUp c.key with
        | nil => rfl
        | cons kind kinds => exact Screen.kindsUp_dismiss_of_ne (Ne.symm hkey)

theorem awaits_takingsFrom (s : Scene) (c : Notice) (key : String) :
    ((s.takingsFrom c).foldl take s).arbiter.pending.awaits key =
      (s.arbiter.pending.awaits key && c.key != key) := by
  rw [foldl_takingsFrom, ← arbiter_alertOf s c]
  generalize (s.alertOf c).toList.foldl take s = t
  have htaken : (t.moveTo c = none ∧ t.arbiter.pending.awaits c.key = false) ∨
      ∃ kind, t.moveTo c = some (.move kind c.key) := by
    unfold moveTo Deferrals.awaits
    cases t.arbiter.pending[c.key]? with
    | none => exact .inl ⟨rfl, rfl⟩
    | some d =>
        cases h : d.isLive with
        | false => exact .inl (by simp [h])
        | true => exact .inr ⟨d.kind, by rw [Option.filter_some, if_pos h]; rfl⟩
  rcases htaken with ⟨hno, hd⟩ | ⟨kind, hm⟩
  · rw [hno]
    by_cases hkey : c.key = key
    · subst hkey
      simp [hd]
    · simp [hkey]
  · rw [hm]
    show (t.turnBack c.key).arbiter.pending.awaits key = _
    rw [Deferrals.awaits, Deferrals.awaits, pending_turnBack]
    by_cases hkey : c.key = key
    · subst hkey
      cases t.arbiter.pending[c.key]? <;> simp [Deferral.isLive]
    · simp [hkey]

theorem kindsUp_takeAll (s : Scene) (cs : List Notice) (key : String) :
    (s.takeAll cs).1.screen.kindsUp key =
      (s.screen.kindsUp key).drop (cs.countP fun c => c.policy.summaryOnly && c.key == key) := by
  rw [takeAll_eq]
  induction cs generalizing s with
  | nil => rfl
  | cons c cs ih =>
      rw [takings, List.foldl_append, ih, kindsUp_takingsFrom, List.drop_drop, List.countP_cons,
        Nat.add_comm]

theorem awaits_takeAll (s : Scene) (cs : List Notice) (key : String) :
    (s.takeAll cs).1.arbiter.pending.awaits key =
      (s.arbiter.pending.awaits key && cs.all (·.key != key)) := by
  rw [takeAll_eq]
  induction cs generalizing s with
  | nil => simp [takings]
  | cons c cs ih =>
      rw [takings, List.foldl_append, ih, awaits_takingsFrom, List.all_cons, Bool.and_assoc]

/-! ### Giving it to the summary -/

theorem restore_of_ne (s : Scene) (g : Grouping) (group : String) (taken : Schedule)
    (h : key ≠ summary.key) :
    (s.restore g group summary taken).screen.kindsUp key = s.screen.kindsUp key ∧
      (s.restore g group summary taken).arbiter.pending.awaits key =
        s.arbiter.pending.awaits key := by
  rcases s.restore_cases g group summary taken with ⟨-, he⟩ | ⟨-, -, he⟩ | ⟨-, -, he⟩
  · rw [he]
    exact ⟨rfl, rfl⟩
  · rw [he]
    generalize hu : s.modifyRecord group _ = u
    have hscreen : u.screen = s.screen := by rw [← hu]; rfl
    have hpending : u.arbiter.pending = s.arbiter.pending := by rw [← hu]; rfl
    rw [← hscreen, ← hpending]
    refine ⟨Screen.kindsUp_congr fun k => ?_, ?_⟩
    · show (u.deliver summary taken.source taken.kind).screen.isUp k key = _
      rw [isUp_deliver, beq_false_of_ne h]
      simp
    · show (u.deliver summary taken.source taken.kind).arbiter.pending.awaits key = _
      have hne : ¬summary.key = key := Ne.symm h
      rw [arbiter_deliver, Deferrals.awaits, Deferrals.awaits]
      cases u.outcome summary taken.kind <;>
        simp [Outcome.pending, Std.ExtTreeMap.getElem?_erase, Std.ExtTreeMap.getElem?_insert, hne]
  · rw [he]
    exact ⟨rfl, rfl⟩

/-- What is left of a key that is not the summary's is what the taking has left. -/
theorem handBack_of_ne (hs : g.summary group = some summary)
    (hmay : s.mayHandBack g now group summary = true) (h : key ≠ summary.key) :
    (s.handBack g now group).screen.kindsUp key =
        (s.takeAll (g.children group)).1.screen.kindsUp key ∧
      (s.handBack g now group).arbiter.pending.awaits key =
        (s.takeAll (g.children group)).1.arbiter.pending.awaits key := by
  rcases s.handBack_cases g now group with ⟨-, hno⟩ | ⟨n, hn, -, ⟨-, he⟩ | ⟨taken, -, he⟩⟩
  · rw [hno summary hs] at hmay
    cases hmay
  · rw [he]
    exact ⟨rfl, rfl⟩
  · obtain rfl : n = summary := Option.some.inj (hn.symm.trans hs)
    rw [he]
    exact restore_of_ne _ g group taken h

end Scene

/-- **Alerts are taken back one by one.**  When alerts of a group are taken back to its summary, no
live move to a child is left; and of the alerts of a child the first are taken, as many as the
grouping lists its key as that of a child for which only the summary may alert.  So such a child has
no alert left if it was up on one kind at most. -/
theorem alerts_are_taken_one_by_one (s : Scene) (g : Grouping) (now : Nat) (group : String)
    {summary : Notice} (hs : g.summary group = some summary)
    (hmay : s.mayHandBack g now group summary = true) :
    let t := s.handBack g now group
    ∀ c ∈ g.children group, c.key ≠ summary.key →
      t.arbiter.pending.awaits c.key = false ∧
        t.screen.kindsUp c.key = (s.screen.kindsUp c.key).drop
          ((g.children group).countP fun d => d.policy.summaryOnly && d.key == c.key) ∧
        (c.policy.summaryOnly = true → (s.screen.kindsUp c.key).length ≤ 1 →
          ∀ kind, t.screen.isUp kind c.key = false) := by
  intro t c hc hne
  obtain ⟨hkinds, hawaits⟩ := Scene.handBack_of_ne hs hmay hne
  rw [Scene.kindsUp_takeAll] at hkinds
  have hmoves : ((g.children group).all fun d => d.key != c.key) = false :=
    List.all_eq_false.mpr ⟨c, hc, by simp⟩
  rw [Scene.awaits_takeAll, hmoves, Bool.and_false] at hawaits
  refine ⟨hawaits, hkinds, fun hc' hlen kind => ?_⟩
  have hcount : 0 < (g.children group).countP fun d => d.policy.summaryOnly && d.key == c.key :=
    List.countP_pos_iff.mpr ⟨c, hc, by simp [hc']⟩
  have hnil : t.screen.kindsUp c.key = [] := by
    rw [hkinds, List.drop_eq_nil_iff]
    omega
  rw [Bool.eq_false_iff]
  intro hup
  have hmem := Screen.mem_kindsUp.mpr hup
  rw [hnil] at hmem
  cases hmem

/-- `s` comes up on both kinds, and both its alerts go to its only child `c`. -/
def twofold : List Request :=
  [.host (.register .headsUp 4), .host (.register .ambientPulse 8), .bind,
    .host (.prepare "c" 4 true), .host (.prepare "c" 8 true),
    .send (.added (Cast.troupe.notice "s")), .send (.added (Cast.troupe.notice "c")), .flush,
    .host (.raise .headsUp (Cast.troupe.notice "s")),
    .host (.raise .ambientPulse (Cast.troupe.notice "s")), .flush]

/-- The scene in which it is checked whether alerts are to be taken back, as `d` is about to join
the group. -/
def Session.expectant (s : Session) : Scene :=
  { s.scene with arbiter := s.scene.arbiter.announce (Cast.troupe.notice "d") }

theorem first_alert_is_taken :
    let s := (Session.create {} {}).run twofold
    let t := s.expectant.handBack s.table.grouping 0 "g"
    t.arbiter.pending.awaits "c" = false ∧ t.screen.kindsUp "c" = [.ambientPulse] := by
  intro s t
  have hsummary : s.table.grouping.summary "g" = some (Cast.troupe.notice "s") := by decide +kernel
  have hmay : s.expectant.mayHandBack s.table.grouping 0 "g" (Cast.troupe.notice "s") = true := by
    decide +kernel
  obtain ⟨hwaits, hkinds, -⟩ := alerts_are_taken_one_by_one s.expectant s.table.grouping 0 "g"
    hsummary hmay (Cast.troupe.notice "c") (by decide +kernel) (by decide)
  refine ⟨hwaits, hkinds.trans ?_⟩
  decide +kernel

theorem second_alert_is_kept :
    let s := (Session.create {} {}).run twofold
    let t := s.expectant.handBack s.table.grouping 0 "g"
    let c := Cast.troupe.notice "c"
    s.table.grouping.summary "g" = some (Cast.troupe.notice "s") ∧
      s.table.grouping.children "g" = [c] ∧ c.policy.summaryOnly = true ∧
      s.expectant.mayHandBack s.table.grouping 0 "g" (Cast.troupe.notice "s") = true ∧
      t.screen.isUp .ambientPulse "c" = true ∧
      (s.run [.send (.announced (Cast.troupe.notice "d")), .flush]).scene.screen.isUp
        .ambientPulse "c" = true := by
  decide +kernel

end AlertHandoff
