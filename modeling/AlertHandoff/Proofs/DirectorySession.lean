import AlertHandoff.Proofs.Directory
import AlertHandoff.Proofs.Reach

/-! # Sessions over a directory

A session reads every answer about groups off its roster.  A directory session keeps a directory
instead, which it brings up to date event by event.  `Directory.roster` forgets what a directory
keeps beyond a roster, and `DirectorySession.toSession` makes a session of a directory session in
this way.

Nothing is lost by this.  A request gets the same reply in both and leads to sessions that belong
together again (`DirectorySession.Matches`, `matches_step`).  So a run over directories is a run of
sessions: what is known of the scene, the books, the replies and the roster of every session is
known of every directory session (`runs_as_session`, `of_sessions`). -/

namespace AlertHandoff

namespace Directory
variable {d : Directory} {r : Roster}

def grouping (d : Directory) : Grouping := ⟨d.suppressed, d.summary, d.children⟩

/-- The roster with the notices of the directory, and with the heads of its groups. -/
def roster (d : Directory) : Roster := ⟨d.entries, d.members.filterMap fun _ m => m.head⟩

/-- The directory is up to date: it keeps of every group what can be read off its roster. -/
structure Current (d : Directory) : Prop where
  indexed : d.roster.Indexed
  reflects : d.Reflects d.roster d.roster

theorem Reflects.roster_eq (h : d.Reflects r r) (hr : r.Indexed) : d.roster = r := by
  have hheads : d.roster.heads = r.heads := by
    refine Std.ExtTreeMap.ext_getElem? fun g => ?_
    rw [roster, Std.ExtTreeMap.getElem?_filterMap']
    have hg := h.members g
    cases hm : d.members[g]? with
    | none =>
        rw [hm] at hg
        exact (Members.lists_of_not_hasGroup hr hg.1).head
    | some m =>
        rw [hm] at hg
        exact hg.1.head
  calc d.roster = ⟨d.entries, d.roster.heads⟩ := rfl
    _ = r := by rw [h.entries, hheads]

theorem Reflects.current (h : d.Reflects r r) (hr : r.Indexed) : d.Current := by
  have he := h.roster_eq hr
  constructor
  · rwa [he]
  · rwa [he]

theorem current_empty : ({} : Directory).Current := reflects_empty.current Roster.indexed_empty

theorem roster_empty : ({} : Directory).roster = {} :=
  reflects_empty.roster_eq Roster.indexed_empty

theorem Current.observe (h : d.Current) (e : Event) :
    (d.observe e).1 = (d.roster.track e).1 ∧ (d.observe e).2.Current ∧
      (d.observe e).2.roster = d.roster.next e := by
  obtain ⟨htold, hnext⟩ := h.reflects.observe h.indexed e
  exact ⟨htold, hnext.current (h.indexed.next e), hnext.roster_eq (h.indexed.next e)⟩

theorem Answers.grouping_eq (h : d.Answers r) : d.grouping = r.grouping := by
  have hsuppressed : d.suppressed = r.suppressed := funext fun g => (h.group g).1
  have hsummary : d.summary = r.summary := funext fun g => (h.group g).2.1
  have hchildren : d.children = r.children := funext fun g => (h.group g).2.2
  rw [grouping, Roster.grouping, hsuppressed, hsummary, hchildren]

theorem Current.grouping_eq (h : d.Current) : d.grouping = d.roster.grouping :=
  (h.reflects.answers h.indexed).grouping_eq

end Directory

/-- The replies of a session to a list of requests. -/
def Session.replies : Session → List Request → List Reply
  | _, [] => []
  | s, r :: rs => (s.step r).2 :: replies (s.step r).1 rs

theorem Session.reported_eq : ∀ (s : Session) (rs : List Request),
    s.reported rs = (s.replies rs).flatMap Reply.journal
  | _, [] => rfl
  | s, r :: rs => by rw [reported, replies, List.flatMap_cons, reported_eq]

/-- A session that keeps a directory, once it is bound. -/
structure DirectorySession where
  scene : Scene := {}
  directory : Option Directory := none
  inbox : List Event := []
  isClosed : Bool := false
  clock : Clock := {}

namespace DirectorySession

def create (settings : Settings) (clock : Clock) : DirectorySession :=
  { scene := { arbiter := { settings } }, clock }

/-- Handles the event of a notice: first the arbiter does, then the directory, and then the group
events that the directory tells are handled. -/
def handle (now : Nat) (x : Directory × Scene) (e : Event) : Directory × Scene :=
  let scene := (x.2.handleEvent x.1.grouping now e).quiesce x.1.grouping now
  let observed := x.1.observe e
  (observed.2, Session.replay observed.2.grouping now scene observed.1)

/-- The directory and the scene in which a flush ends, before the journal is handed out. -/
def flushed (s : DirectorySession) (directory : Directory) : Directory × Scene :=
  s.inbox.foldl (handle s.clock.now)
    (directory, s.scene.quiesce directory.grouping s.clock.now)

def flush (s : DirectorySession) : DirectorySession × Reply :=
  match s.directory with
  | none => (s, .refused .notBound)
  | some directory =>
    let x := s.flushed directory
    ({ s with
        scene := { x.2 with arbiter := { x.2.arbiter with journal := [] } }
        directory := some x.1
        inbox := [] },
      .actions x.2.arbiter.journal)

def bind (s : DirectorySession) : DirectorySession × Reply :=
  if s.directory.isSome then (s, .refused .alreadyBound)
  else ({ s with directory := some {} }, .done)

def send (s : DirectorySession) (e : Event) : DirectorySession × Reply :=
  if s.isClosed then (s, .accepted false)
  else ({ s with inbox := s.inbox ++ [e] }, .accepted true)

/-- Carries out a request. -/
def step (s : DirectorySession) : Request → DirectorySession × Reply
  | .host c =>
    let (screen, reply) := s.scene.screen.host c
    ({ s with scene := { s.scene with screen } }, .host reply)
  | .advance micros => ({ s with clock := s.clock.advance micros }, .done)
  | .bind => s.bind
  | .send e => s.send e
  | .close => ({ s with isClosed := true }, .done)
  | .flush => s.flush
  | .quiet on =>
    ({ s with scene := { s.scene with arbiter := s.scene.arbiter.setQuiet on } }, .done)

def run (s : DirectorySession) (requests : List Request) : DirectorySession :=
  requests.foldl (fun s r => (s.step r).1) s

/-- The replies to a list of requests. -/
def replies : DirectorySession → List Request → List Reply
  | _, [] => []
  | s, r :: rs => (s.step r).2 :: replies (s.step r).1 rs

/-- The session over the roster of the directory. -/
def toSession (s : DirectorySession) : Session where
  scene := s.scene
  roster := s.directory.map (·.roster)
  inbox := s.inbox
  isClosed := s.isClosed
  clock := s.clock

variable {s : DirectorySession} {t : Session}

/-- The directory is up to date, and the session is the one over its roster. -/
structure Matches (s : DirectorySession) (t : Session) : Prop where
  current : ∀ d, s.directory = some d → d.Current
  session : s.toSession = t

/-- Handling one event keeps the directory up to date, and does to the scene what handling it over
the roster does. -/
theorem handle_eq (now : Nat) {d : Directory} (h : d.Current) (scene : Scene) (e : Event) :
    (handle now (d, scene) e).1.Current ∧
      ((handle now (d, scene) e).1.roster, (handle now (d, scene) e).2) =
        Session.handle now (d.roster, scene) e := by
  obtain ⟨htold, hcurrent, hnext⟩ := h.observe e
  refine ⟨hcurrent, ?_⟩
  simp only [handle, Session.handle, htold, hcurrent.grouping_eq, hnext, h.grouping_eq]

theorem foldl_handle_eq (now : Nat) : ∀ (es : List Event) {d : Directory} (scene : Scene),
    d.Current → (es.foldl (handle now) (d, scene)).1.Current ∧
      ((es.foldl (handle now) (d, scene)).1.roster, (es.foldl (handle now) (d, scene)).2) =
        es.foldl (Session.handle now) (d.roster, scene)
  | [], _, _, h => ⟨h, rfl⟩
  | e :: es, _, scene, h => by
      obtain ⟨hcurrent, hhandled⟩ := handle_eq now h scene e
      obtain ⟨hlast, hrest⟩ := foldl_handle_eq now es _ hcurrent
      rw [List.foldl_cons, List.foldl_cons, ← hhandled]
      exact ⟨hlast, hrest⟩

theorem matches_create (settings : Settings) (clock : Clock) :
    (create settings clock).Matches (Session.create settings clock) where
  current d hd := by cases hd
  session := rfl

theorem flushed_eq (s : DirectorySession) {d : Directory} (h : d.Current) :
    (s.flushed d).1.Current ∧
      ((s.flushed d).1.roster, (s.flushed d).2) = s.toSession.flushed d.roster := by
  have hfold := foldl_handle_eq s.clock.now s.inbox (s.scene.quiesce d.grouping s.clock.now) h
  rw [h.grouping_eq] at hfold
  rw [flushed, h.grouping_eq]
  exact hfold

theorem matches_flush (h : s.Matches t) :
    s.flush.1.Matches t.flush.1 ∧ s.flush.2 = t.flush.2 := by
  obtain ⟨hcurrent, rfl⟩ := h
  cases hd : s.directory with
  | none =>
      have hflush : s.flush = (s, .refused .notBound) := by rw [flush, hd]
      have hroster : s.toSession.roster = none := by rw [toSession, hd, Option.map_none]
      rw [hflush, Session.flush_of_none hroster]
      exact ⟨⟨hcurrent, rfl⟩, rfl⟩
  | some d =>
      obtain ⟨hlast, hflushed⟩ := s.flushed_eq (hcurrent d hd)
      have hroster : s.toSession.roster = some d.roster := by rw [toSession, hd, Option.map_some]
      rw [Session.flush_of_some hroster, ← hflushed, flush, hd]
      refine ⟨⟨fun x hx => ?_, rfl⟩, rfl⟩
      cases hx
      exact hlast

theorem matches_bind (h : s.Matches t) : s.bind.1.Matches t.bind.1 ∧ s.bind.2 = t.bind.2 := by
  obtain ⟨hcurrent, rfl⟩ := h
  have hbound : s.toSession.roster.isSome = s.directory.isSome := Option.isSome_map
  unfold bind Session.bind
  rw [hbound]
  split
  · exact ⟨⟨hcurrent, rfl⟩, rfl⟩
  · refine ⟨⟨fun d hd => ?_, ?_⟩, rfl⟩
    · cases hd
      exact Directory.current_empty
    · rw [toSession, Option.map_some, Directory.roster_empty]
      rfl

theorem matches_send (h : s.Matches t) (e : Event) :
    (s.send e).1.Matches (t.send e).1 ∧ (s.send e).2 = (t.send e).2 := by
  obtain ⟨hcurrent, rfl⟩ := h
  have hclosed : s.toSession.isClosed = s.isClosed := rfl
  unfold send Session.send
  rw [hclosed]
  split
  · exact ⟨⟨hcurrent, rfl⟩, rfl⟩
  · exact ⟨⟨hcurrent, rfl⟩, rfl⟩

/-- **One request** gets the same reply, and the two still belong together after it. -/
theorem matches_step (h : s.Matches t) (r : Request) :
    (s.step r).1.Matches (t.step r).1 ∧ (s.step r).2 = (t.step r).2 := by
  cases r with
  | bind => exact matches_bind h
  | flush => exact matches_flush h
  | send e => exact matches_send h e
  | host c | advance micros | close | quiet on =>
      obtain ⟨hcurrent, rfl⟩ := h
      exact ⟨⟨hcurrent, rfl⟩, rfl⟩

theorem matches_run : ∀ (rs : List Request) {s : DirectorySession} {t : Session}, s.Matches t →
    (s.run rs).Matches (t.run rs) ∧ s.replies rs = t.replies rs
  | [], _, _, h => ⟨h, rfl⟩
  | r :: rs, _, _, h => by
      obtain ⟨hnext, hreply⟩ := matches_step h r
      obtain ⟨hrun, hreplies⟩ := matches_run rs hnext
      refine ⟨hrun, ?_⟩
      rw [replies, Session.replies, hreply, hreplies]

/-- **A run over directories is a run of sessions.**  Whatever is asked of a new directory session,
it replies as a new session does, hands out what that reports, and ends in that session: the scene,
the inbox and the clock are the same, and the directory gives the answers of the roster and will
tell the same group events. -/
theorem runs_as_session (settings : Settings) (clock : Clock) (rs : List Request) :
    let new := create settings clock
    let session := Session.create settings clock
    new.replies rs = session.replies rs ∧
      (new.replies rs).flatMap Reply.journal = session.reported rs ∧
      (new.run rs).toSession = session.run rs ∧
      ∀ d, (new.run rs).directory = some d →
        ∃ roster, (session.run rs).roster = some roster ∧ d.Answers roster ∧
          ∀ e, (d.observe e).1 = (roster.track e).1 := by
  intro new session
  obtain ⟨⟨hcurrent, hsession⟩, hreplies⟩ := matches_run rs (matches_create settings clock)
  refine ⟨hreplies, ?_, hsession, fun d hd => ⟨d.roster, ?_, ?_, fun e => ?_⟩⟩
  · rw [Session.reported_eq, ← hreplies]
  · rw [← hsession, toSession, hd, Option.map_some]
  · exact (hcurrent d hd).reflects.answers (hcurrent d hd).indexed
  · exact ((hcurrent d hd).observe e).1

/-- What is true of every run of sessions, its replies and its end, is true of every run over
directories. -/
theorem of_sessions {P : List Request → List Reply → Session → Prop}
    (h : ∀ settings clock rs,
      P rs ((Session.create settings clock).replies rs) ((Session.create settings clock).run rs))
    (settings : Settings) (clock : Clock) (rs : List Request) :
    P rs ((create settings clock).replies rs) ((create settings clock).run rs).toSession := by
  obtain ⟨hreplies, -, hsession, -⟩ := runs_as_session settings clock rs
  rw [hreplies, hsession]
  exact h settings clock rs

end DirectorySession
end AlertHandoff
