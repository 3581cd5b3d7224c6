import AlertHandoff.Scene.Completion
import AlertHandoff.Scene.Forward
import AlertHandoff.Scene.HandBack

/-! # What the arbiter answers to

The arbiter answers to the events of notices and groups, to the changes presenters report, and to
quiet mode.  `Scene.perform` collects all its operations; each takes the grouping as it is at that
moment and the reading of the clock. -/

namespace AlertHandoff
namespace Scene

/-- A presenter reports a change.  An alert that comes up on the summary of a suppressed group is
moved on. -/
def handleChange (s : Scene) (g : Grouping) (now : Nat) (kind : Kind) : Change → Scene
  | .dismissed _ => s
  | .raised n =>
    if n.isHead && g.suppressed n.group then
      match g.summary n.group with
      | none => s
      | some summary => if summary.key = n.key then s.forward g now summary kind else s
    else s

def unschedule (s : Scene) (group : String) : Scene :=
  { s with arbiter := { s.arbiter with
      groups := s.arbiter.groups.modify group fun r => { r with schedule := none } } }

/-- The suppression of a group changes.  Under suppression the alert of the summary moves on.
Without it the alert that was scheduled for the summary is due; if there is none, alerts may be
taken back. -/
def handleSuppression (s : Scene) (g : Grouping) (now : Nat) (group : String) (on : Bool) : Scene :=
  match g.summary group with
  | none => s
  | some summary =>
    if on then
      match s.screen.kindUp? summary.key with
      | none => s
      | some kind => s.forward g now summary kind
    else if s.arbiter.quiet then s
    else
      match (s.arbiter.record group).schedule with
      | none => s.handBack g now group
      | some due =>
        let s := s.unschedule group
        if s.screen.isUp due.kind summary.key then s
        else s.move summary due.source due.kind

def handleGroup (s : Scene) (g : Grouping) (now : Nat) : GroupEvent → Scene
  | .formed group => s.modifyRecord group id
  | .suppression group on => s.handleSuppression g now group on
  | .dissolved group =>
    { s with arbiter := { s.arbiter with groups := s.arbiter.groups.erase group } }

def handleEvent (s : Scene) (g : Grouping) (now : Nat) : Event → Scene
  | .announced n =>
    let s := { s with arbiter := s.arbiter.announce n }
    if n.isHead then s else s.handBack g now n.group
  | .added n => { s with arbiter := s.arbiter.added n }
  | .updated n previous =>
    let a := s.arbiter.refresh n
    { s with arbiter := if previous.describes n then a else a.regroup n }
  | .removed n => { s with arbiter := s.arbiter.remove n }
  | .rendered n => s.rendered n

/-- The operations of the arbiter. -/
inductive Operation where
  | event (e : Event)
  | groupEvent (e : GroupEvent)
  | suppression (group : String) (on : Bool)
  | change (kind : Kind) (c : Change)
  | rendered (n : Notice)
  | removed (n : Notice)
  | regrouped (n : Notice)
  | quiet (on : Bool)
deriving DecidableEq, Repr

def perform (s : Scene) (g : Grouping) (now : Nat) : Operation → Scene
  | .event e => s.handleEvent g now e
  | .groupEvent e => s.handleGroup g now e
  | .suppression group on => s.handleSuppression g now group on
  | .change kind c => s.handleChange g now kind c
  | .rendered n => s.rendered n
  | .removed n => { s with arbiter := s.arbiter.remove n }
  | .regrouped n => { s with arbiter := s.arbiter.regroup n }
  | .quiet on => { s with arbiter := s.arbiter.setQuiet on }

end Scene
end AlertHandoff
