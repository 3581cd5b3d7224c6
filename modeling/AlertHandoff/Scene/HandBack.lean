import AlertHandoff.Scene.Basic

/-! # Taking an alert back to the summary

When more children come soon after a move, the summary is shown again and the alert belongs on
it.  `Scene.handBack` takes the alerts of the children that only the summary may alert for, takes
back the moves that wait for a child's content, and gives the alert to the summary: at once if
the group has grown already, otherwise the alert is scheduled until it does. -/

namespace AlertHandoff
namespace Scene

/-- The number of children the group has or is about to have, less those about to join it that
are alerting already. -/
def expected (s : Scene) (g : Grouping) (group : String) : Nat :=
  (g.children group).length +
    ((s.arbiter.joining group (g.children group)).filter fun n =>
      !s.screen.isUpSomewhere n.key).length

/-- Alerts of the group may be taken back to the summary now. -/
def mayHandBack (s : Scene) (g : Grouping) (now : Nat) (group : String) (summary : Notice) :
    Bool :=
  !s.arbiter.quiet && summary.policy.summaryOnly &&
    (s.arbiter.record group).mayReturn s.arbiter.settings.window now && 1 < s.expected g group

/-- Takes the alert of a child that only the summary may alert for. -/
def takeAlert (child : Notice) (s : Scene) (taken : Option Schedule) : Scene × Option Schedule :=
  if child.policy.summaryOnly then
    match s.screen.kindUp? child.key with
    | none => (s, taken)
    | some kind => (s.dismiss kind child.key, some ⟨kind, child.key⟩)
  else (s, taken)

/-- Takes back the move that waits for the content of a child. -/
def takeDeferral (child : Notice) (s : Scene) (taken : Option Schedule) :
    Scene × Option Schedule :=
  match s.arbiter.pending[child.key]? with
  | none => (s, taken)
  | some d =>
    if d.isLive then
      ({ s with arbiter :=
          { s.arbiter with pending := Deferrals.mark s.arbiter.pending child.key true } },
        some ⟨d.kind, child.key⟩)
    else (s, taken)

/-- Takes from one child what it has of the alert; the last thing taken counts. -/
def takeFrom (acc : Scene × Option Schedule) (child : Notice) : Scene × Option Schedule :=
  let acc := takeAlert child acc.1 acc.2
  takeDeferral child acc.1 acc.2

/-- Takes from the children what they have of the alert. -/
def takeAll (s : Scene) (children : List Notice) : Scene × Option Schedule :=
  children.foldl takeFrom (s, none)

/-- Gives an alert that was taken from a child to the summary, now or when the group grows.  A
summary that is alerting keeps the alert it has. -/
def restore (s : Scene) (g : Grouping) (group : String) (summary : Notice) (taken : Schedule) :
    Scene :=
  if s.screen.isUp taken.kind summary.key then s
  else if 1 < (g.children group).length then
    (s.modifyRecord group fun r => { r with lastForward := none }).move summary taken.source
      taken.kind
  else
    (s.modifyRecord group fun _ => { lastForward := none, schedule := some taken }).write
      [.scheduled group taken.kind]

/-- Takes alerts of a group back to its summary, if that may be done now. -/
def handBack (s : Scene) (g : Grouping) (now : Nat) (group : String) : Scene :=
  match g.summary group with
  | none => s
  | some summary =>
    if s.mayHandBack g now group summary then
      match s.takeAll (g.children group) with
      | (s, none) => s
      | (s, some taken) => s.restore g group summary taken
    else s

theorem handBack_of_quiet {s : Scene} (h : s.arbiter.quiet = true) (g : Grouping) (now : Nat)
    (group : String) : s.handBack g now group = s := by
  unfold handBack
  split <;> simp [mayHandBack, h]

end Scene
end AlertHandoff
