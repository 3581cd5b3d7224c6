import AlertHandoff.Roster
import AlertHandoff.Screen.Host
import AlertHandoff.Session.Quiescence

/-! # Sessions

A session holds a scene, the roster of groups, and an inbox of events that have been sent and
not handled yet.  It handles nothing before it is bound, which happens once; `Session.flush` then
handles the whole inbox, each event until there is no news left, and returns the journal.

An event reaches the arbiter first, with the groups as they were, and then the roster; the group
events this brings about are handled one by one, with the groups as they are.

`Session.step` carries out one request and gives the reply, and `Session.run` a list of them. -/

namespace AlertHandoff

/-- What a session refuses: to be bound twice, and to be flushed before it is bound. -/
inductive Fault where
  | alreadyBound
  | notBound
deriving DecidableEq, Repr

def Fault.message : Fault → String
  | .alreadyBound => "transfer supervisor is already bound"
  | .notBound => "transfer supervisor used before bind()"

/-- The scene, the roster once the session is bound, the events that wait, whether the inbox is
closed to new ones, and the clock. -/
structure Session where
  scene : Scene := {}
  roster : Option Roster := none
  inbox : List Event := []
  isClosed : Bool := false
  clock : Clock := {}

/-- What can be asked of a session. -/
inductive Request where
  | host (c : HostCall)
  | advance (micros : Nat)
  | bind
  | send (e : Event)
  | close
  | flush
  | quiet (on : Bool)
deriving DecidableEq, Repr

inductive Reply where
  | done
  | host (r : HostReply)
  | accepted (yes : Bool)
  | actions (journal : List Action)
  | refused (f : Fault)
deriving DecidableEq

namespace Session

def create (settings : Settings) (clock : Clock) : Session :=
  { scene := { arbiter := { settings } }, clock }

/-- Handles the events of groups, each until there is no news left. -/
def replay (g : Grouping) (now : Nat) (s : Scene) (events : List GroupEvent) : Scene :=
  events.foldl (fun s e => (s.handleGroup g now e).quiesce g now) s

/-- Handles the event of a notice: first the arbiter does, then the roster, and then the group
events are handled. -/
def handle (now : Nat) (x : Roster × Scene) (e : Event) : Roster × Scene :=
  let scene := (x.2.handleEvent x.1.grouping now e).quiesce x.1.grouping now
  let roster := x.1.next e
  (roster, replay roster.grouping now scene (x.1.track e).1)

/-- Handles what the host did since the last time and every event in the inbox, and returns the
journal.  The clock is read once, so that it stands still during a flush; where operations are
looked at one by one (`Scene.perform`), each has a reading of its own. -/
def flush (s : Session) : Session × Reply :=
  match s.roster with
  | none => (s, .refused .notBound)
  | some roster =>
    let now := s.clock.now
    let x := s.inbox.foldl (handle now) (roster, s.scene.quiesce roster.grouping now)
    ({ s with
        scene := { x.2 with arbiter := { x.2.arbiter with journal := [] } }
        roster := some x.1
        inbox := [] },
      .actions x.2.arbiter.journal)

/-- Binds the session to an empty roster, once. -/
def bind (s : Session) : Session × Reply :=
  if s.roster.isSome then (s, .refused .alreadyBound)
  else ({ s with roster := some {} }, .done)

/-- Puts an event into the inbox, unless that is closed. -/
def send (s : Session) (e : Event) : Session × Reply :=
  if s.isClosed then (s, .accepted false)
  else ({ s with inbox := s.inbox ++ [e] }, .accepted true)

/-- Carries out a request. -/
def step (s : Session) : Request → Session × Reply
  | .host c =>
    let (screen, reply) := s.scene.screen.host c
    ({ s with scene := { s.scene with screen } }, .host reply)
  | .advance micros => ({ s with clock := s.clock.advance micros }, .done)
  | .bind => s.bind
  | .send e => s.send e
  | .close => ({ s with isClosed := true }, .done)
  | .flush => s.flush
  | .quiet on =>
    ({ s with scene := { s.scene with arbiter := s.scene.arbiter.setQuiet on } }, .done)

def run (s : Session) (requests : List Request) : Session :=
  requests.foldl (fun s r => (s.step r).1) s

/-- An alert that the host raises on a summary goes to the only child, whose content is ready. -/
example :
    let policy : Policy := { scope := .summary }
    let summary : Notice := { key := "s", group := "g", role := .summary, policy, row := "s" }
    let child : Notice := { key := "c", group := "g", role := .child, policy, row := "c" }
    let session := (create {} {}).run
      [.host (.register .headsUp 4), .bind, .send (.added summary), .send (.added child),
        .host (.prepare "c" 4 true), .host (.raise .headsUp summary)]
    (session.step .flush).2 = .actions [.moved "s" "c" .headsUp] := by
  decide +kernel

theorem run_append (s : Session) (a b : List Request) : s.run (a ++ b) = (s.run a).run b := by
  simp [run]

end Session
end AlertHandoff
