import AlertHandoff.Proofs.Confined

/-! # Scenes that agree stay in agreement

The counterpart of confinement: an operation that is about a group reads nothing of the other
groups, so from scenes that agree about the group it leads to scenes that agree about it again
(`Scene.Agree.handleEvent`, `Scene.Agree.handleGroup`, `Scene.Agree.handleChange`).  The groupings
that the two operations look at need only agree about the group as well. -/

namespace AlertHandoff
namespace Scene
variable {d : Division} {g : String} {s t : Scene} {n : Notice}

/-! ### Books, presenters and rows -/

theorem Agree.write (h : s.Agree d g t) (actions : List Action) :
    (s.write actions).Agree d g (t.write actions) :=
  ⟨h.arbiter.write actions, h.screen⟩

theorem Agree.modifyRecord (h : s.Agree d g t) (f : GroupRecord → GroupRecord) :
    (s.modifyRecord g f).Agree d g (t.modifyRecord g f) :=
  ⟨h.arbiter.modifyRecord f, h.screen⟩

theorem Agree.unschedule (h : s.Agree d g t) : (s.unschedule g).Agree d g (t.unschedule g) := by
  refine ⟨h.arbiter.withGroups ?_, h.screen⟩
  rw [Std.ExtTreeMap.getElem?_modify_self, Std.ExtTreeMap.getElem?_modify_self, h.arbiter.groups]

theorem Agree.clearDeferral (h : s.Agree d g t) (key : String) :
    (s.clearDeferral key).Agree d g (t.clearDeferral key) := by
  refine ⟨h.arbiter.withPending fun x hx => ?_, h.screen⟩
  rw [Std.ExtTreeMap.getElem?_erase, Std.ExtTreeMap.getElem?_erase, h.arbiter.pending x hx]

theorem Agree.dismiss (h : s.Agree d g t) (kind : Kind) {key : String} (hk : d.ofKey key = g) :
    (s.dismiss kind key).Agree d g (t.dismiss kind key) :=
  ⟨h.arbiter, h.screen.dismiss kind hk⟩

theorem Agree.release (h : s.Agree d g t) (hn : d.Belongs g n) (kind : Kind) :
    (s.release n kind).Agree d g (t.release n kind) := by
  unfold Scene.release
  rcases h.screen.presenters kind with ⟨hs, ht⟩ | ⟨p, q, hs, ht, hf⟩
  · simp only [hs, ht]
    exact h
  · simp only [hs, ht, hf]
    exact ⟨h.arbiter, h.screen.release hn.row q.flag⟩

theorem Agree.defer (h : s.Agree d g t) (hn : d.Belongs g n) (source : String) (kind : Kind)
    (flag : Flag) : (s.defer n source kind flag).Agree d g (t.defer n source kind flag) := by
  refine ⟨h.arbiter.withPending fun x hx => ?_, ?_⟩
  · rw [Std.ExtTreeMap.getElem?_insert, Std.ExtTreeMap.getElem?_insert, h.arbiter.pending x hx]
  · simp only [Scene.defer]
    rw [h.arbiter.settings]
    split
    · exact h.screen.request hn.row flag
    · exact h.screen

/-! ### Handing an alert over -/

theorem Agree.deliver (h : s.Agree d g t) (hn : d.Belongs g n) (source : String) (kind : Kind) :
    (s.deliver n source kind).Agree d g (t.deliver n source kind) := by
  unfold Scene.deliver
  rcases h.screen.presenters kind with ⟨hs, ht⟩ | ⟨p, q, hs, ht, hf⟩
  · simp only [hs, ht]
    exact h
  · simp only [hs, ht, hf, h.screen.isReady hn.row]
    split
    · exact ⟨(h.clearDeferral n.key).arbiter, h.screen.alert kind hn.key⟩
    · exact h.defer hn source kind q.flag

theorem Agree.move (h : s.Agree d g t) (hn : d.Belongs g n) (source : String) (kind : Kind) :
    (s.move n source kind).Agree d g (t.move n source kind) := by
  unfold Scene.move
  rw [h.outcome hn kind]
  exact (h.deliver hn source kind).write _

theorem Agree.markForward (h : s.Agree d g t) {summary child : Notice} (hn : d.Belongs g summary)
    (hc : d.Belongs g child) (kind : Kind) (now : Nat) :
    (s.markForward summary child kind now).Agree d g (t.markForward summary child kind now) := by
  unfold Scene.markForward
  rw [h.screen.up kind _ hc.key, hn.group]
  split
  · exact h.modifyRecord _
  · exact h

variable {G G' : Grouping}

theorem Agree.forward (h : s.Agree d g t) (hs : s.Divided d) (ht : t.Divided d)
    (hG : G.Agree g G') (hG' : G'.Divided d) (now : Nat) {summary : Notice}
    (hn : d.Belongs g summary) (kind : Kind) :
    (s.forward G now summary kind).Agree d g (t.forward G' now summary kind) := by
  unfold Scene.forward
  rw [h.mayForward hs ht hG hn, hn.group, heir?_congr hG]
  split
  · split
    · exact h
    · next child hc =>
      have hchild := hG' g child (.inr (mem_children_of_heir? hc).1)
      exact ((h.markForward hn hchild kind now).dismiss kind hn.key).move hchild _ kind
  · exact h

/-! ### Taking alerts back -/

theorem Agree.takeAlert (h : s.Agree d g t) {child : Notice} (hc : d.Belongs g child)
    (taken : Option Schedule) :
    (takeAlert child s taken).1.Agree d g (takeAlert child t taken).1 ∧
      (takeAlert child s taken).2 = (takeAlert child t taken).2 := by
  unfold Scene.takeAlert
  rw [h.screen.kindUp? hc.key]
  split
  · split
    · exact ⟨h, rfl⟩
    · exact ⟨h.dismiss _ hc.key, rfl⟩
  · exact ⟨h, rfl⟩

theorem Agree.takeDeferral (h : s.Agree d g t) {child : Notice} (hc : d.Belongs g child)
    (taken : Option Schedule) :
    (takeDeferral child s taken).1.Agree d g (takeDeferral child t taken).1 ∧
      (takeDeferral child s taken).2 = (takeDeferral child t taken).2 := by
  unfold Scene.takeDeferral
  rw [h.arbiter.pending _ hc.key]
  split
  · exact ⟨h, rfl⟩
  · split
    · refine ⟨⟨h.arbiter.withPending fun key hk => ?_, h.screen⟩, rfl⟩
      simp only [Deferrals.mark, Std.ExtTreeMap.getElem?_modify, h.arbiter.pending _ hc.key,
        h.arbiter.pending key hk]
    · exact ⟨h, rfl⟩

theorem Agree.takeFrom {acc acc' : Scene × Option Schedule} (h : acc.1.Agree d g acc'.1)
    (he : acc.2 = acc'.2) {child : Notice} (hc : d.Belongs g child) :
    (takeFrom acc child).1.Agree d g (takeFrom acc' child).1 ∧
      (takeFrom acc child).2 = (takeFrom acc' child).2 := by
  obtain ⟨ha, hat⟩ := h.takeAlert hc acc.2
  rw [he] at ha hat
  obtain ⟨hd, hdt⟩ := ha.takeDeferral hc (Scene.takeAlert child acc.1 acc'.2).2
  simp only [Scene.takeFrom, he, hat]
  rw [hat] at hd hdt
  exact ⟨hd, hdt⟩

theorem Agree.foldl_takeFrom : ∀ (children : List Notice) (acc acc' : Scene × Option Schedule),
    acc.1.Agree d g acc'.1 → acc.2 = acc'.2 → (∀ child ∈ children, d.Belongs g child) →
    (children.foldl Scene.takeFrom acc).1.Agree d g (children.foldl Scene.takeFrom acc').1 ∧
      (children.foldl Scene.takeFrom acc).2 = (children.foldl Scene.takeFrom acc').2
  | [], _, _, h, he, _ => ⟨h, he⟩
  | child :: children, acc, acc', h, he, hc => by
      obtain ⟨hf, hfe⟩ := h.takeFrom he (hc child List.mem_cons_self)
      exact Agree.foldl_takeFrom children (Scene.takeFrom acc child) (Scene.takeFrom acc' child)
        hf hfe fun x hx => hc x (List.mem_cons_of_mem child hx)

theorem Agree.takeAll (h : s.Agree d g t) {children : List Notice}
    (hc : ∀ child ∈ children, d.Belongs g child) :
    (s.takeAll children).1.Agree d g (t.takeAll children).1 ∧
      (s.takeAll children).2 = (t.takeAll children).2 :=
  Agree.foldl_takeFrom children (s, none) (t, none) h rfl hc

theorem Agree.restore (h : s.Agree d g t) (hG : G.Agree g G') {summary : Notice}
    (hn : d.Belongs g summary) (taken : Schedule) :
    (s.restore G g summary taken).Agree d g (t.restore G' g summary taken) := by
  unfold Scene.restore
  rw [h.screen.up _ _ hn.key, hG.children]
  split
  · exact h
  · split
    · exact (h.modifyRecord _).move hn _ _
    · exact (h.modifyRecord _).write _

theorem Agree.handBack (h : s.Agree d g t) (hs : s.Divided d) (ht : t.Divided d)
    (hG : G.Agree g G') (hG' : G'.Divided d) (now : Nat) :
    (s.handBack G now g).Agree d g (t.handBack G' now g) := by
  unfold Scene.handBack
  rw [hG.summary]
  split
  · exact h
  · next summary hsum =>
    rw [h.mayHandBack hs ht hG, hG.children]
    split
    · obtain ⟨ha, he⟩ := h.takeAll fun child hc => hG' g child (.inr hc)
      -- What was taken is the same, so the same is restored.
      revert ha he
      rcases s.takeAll (G'.children g) with ⟨s', taken⟩
      rcases t.takeAll (G'.children g) with ⟨t', taken'⟩
      rintro ha rfl
      cases taken with
      | none => exact ha
      | some due => exact ha.restore hG (hG' g summary (.inl hsum)) due
    · exact h

/-! ### Operations -/

theorem Agree.complete (h : s.Agree d g t) (hn : d.Belongs g n) (r : Deferral) :
    (s.complete n r).Agree d g (t.complete n r) := by
  unfold Scene.complete
  rw [h.outcome hn]
  exact (h.deliver hn _ _).write _

/-- Content of a row of the group. -/
theorem Agree.rendered (h : s.Agree d g t) (hs : s.Divided d) (hn : d.Belongs g n) :
    (s.rendered n).Agree d g (t.rendered n) := by
  have hc := h.clearDeferral n.key
  unfold Scene.rendered
  rw [h.arbiter.pending _ hn.key]
  split
  · exact h
  · next r hr =>
    have hsource : d.ofKey r.source = g := by
      rw [← h.arbiter.pending _ hn.key] at hr
      exact (hs.pending n.key r hr).trans hn.key
    dsimp only
    rw [hc.arbiter.quiet, hc.screen.up r.kind _ hsource]
    split
    · exact (hc.release hn r.kind).write _
    · split
      · exact (hc.release hn r.kind).write _
      · split
        · exact hc.write _
        · split
          · exact (hc.release hn r.kind).write _
          · exact hc.complete hn r

/-- A change of the group. -/
theorem Agree.handleChange (h : s.Agree d g t) (hs : s.Divided d) (ht : t.Divided d)
    (hG : G.Agree g G') (hG' : G'.Divided d) (now : Nat) (kind : Kind) {c : Change}
    (hc : ∀ n, c = .raised n → d.Belongs g n) :
    (s.handleChange G now kind c).Agree d g (t.handleChange G' now kind c) := by
  cases c with
  | dismissed key => exact h
  | raised n =>
      have hn := hc n rfl
      simp only [Scene.handleChange, hn.group, hG.suppressed, hG.summary]
      split
      · split
        · exact h
        · next summary hsum =>
          split
          · exact h.forward hs ht hG hG' now (hG' g summary (.inl hsum)) kind
          · exact h
      · exact h

theorem Agree.handleSuppression (h : s.Agree d g t) (hs : s.Divided d) (ht : t.Divided d)
    (hG : G.Agree g G') (hG' : G'.Divided d) (now : Nat) (on : Bool) :
    (s.handleSuppression G now g on).Agree d g (t.handleSuppression G' now g on) := by
  unfold Scene.handleSuppression
  rw [hG.summary]
  split
  · exact h
  · next summary hsum =>
    have hsummary := hG' g summary (.inl hsum)
    rw [h.screen.kindUp? hsummary.key, h.arbiter.quiet, h.arbiter.record]
    split
    · split
      · exact h
      · exact h.forward hs ht hG hG' now hsummary _
    · split
      · exact h
      · split
        · exact h.handBack hs ht hG hG' now
        · next due hd =>
          dsimp only
          rw [h.unschedule.screen.up _ _ hsummary.key]
          split
          · exact h.unschedule
          · exact h.unschedule.move hsummary _ _

/-- The event of the group. -/
theorem Agree.handleGroup (h : s.Agree d g t) (hs : s.Divided d) (ht : t.Divided d)
    (hG : G.Agree g G') (hG' : G'.Divided d) (now : Nat) {e : GroupEvent} (he : e.group = g) :
    (s.handleGroup G now e).Agree d g (t.handleGroup G' now e) := by
  cases e with
  | formed group =>
      obtain rfl : group = g := he
      exact h.modifyRecord id
  | suppression group on =>
      obtain rfl : group = g := he
      exact h.handleSuppression hs ht hG hG' now on
  | dissolved group =>
      obtain rfl : group = g := he
      refine ⟨h.arbiter.withGroups ?_, h.screen⟩
      rw [Std.ExtTreeMap.getElem?_erase_self, Std.ExtTreeMap.getElem?_erase_self]

/-- The announced notices are brought up to date alike. -/
theorem Agree.listing (h : s.Agree d g t) (e : Event) :
    (s.listing e).Agree d g (t.listing e) := by
  refine ⟨h.arbiter.withAnnounced fun key hk => ?_, h.screen⟩
  have ha := h.arbiter.announced key hk
  by_cases he : key = e.notice.key
  · subst he
    cases e with
    | rendered n => exact ha
    | announced n | added n | removed n => simp [Event.listed, Event.notice]
    | updated n previous =>
        simp only [Event.listed, Event.notice, Std.ExtTreeMap.getElem?_modify_self] at ha ⊢
        rw [ha]
  · rw [Event.getElem?_listed_of_ne he, Event.getElem?_listed_of_ne he, ha]

/-- The event of a notice of the group. -/
theorem Agree.handleEvent (h : s.Agree d g t) (hs : s.Divided d) (ht : t.Divided d)
    (hG : G.Agree g G') (hG' : G'.Divided d) (now : Nat) {e : Event}
    (he : d.Belongs g e.notice) :
    (s.handleEvent G now e).Agree d g (t.handleEvent G' now e) := by
  have hlist := h.listing e
  have hls := (s.confined_listing he hs).1
  have hlt := (t.confined_listing he ht).1
  cases e with
  | announced n =>
      simp only [Scene.handleEvent]
      split
      · exact hlist
      · rw [show n.group = g from he.group]
        exact hlist.handBack hls hlt hG hG' now
  | added n => exact hlist
  | updated n previous =>
      simp only [Scene.handleEvent]
      split
      · exact hlist
      · exact ⟨hlist.arbiter.giveUp _ .regrouped, hlist.screen⟩
  | removed n => exact ⟨hlist.arbiter.giveUp _ .removed, hlist.screen⟩
  | rendered n => exact h.rendered hs he

end Scene
end AlertHandoff
