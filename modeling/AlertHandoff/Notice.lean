/-! # Notices and what happens to them

A notice belongs to a group, either as the group's summary or as one of its children, and says
whether it may raise a transient alert.  `Policy.viaSummary` and
`Policy.summaryOnly` are the two questions the rest of the library asks about that.

A notice is a value: the same key may occur with another group, role or policy later, and
`Membership` records the group and role it had at one time.  `Event` lists the moments in the
life of a notice. -/

namespace AlertHandoff

/-- The two kinds of transient alert, in the order in which presenters are asked. -/
inductive Kind where
  | headsUp
  | ambientPulse
deriving DecidableEq, Repr

def Kind.all : List Kind := [.headsUp, .ambientPulse]

theorem Kind.mem_all (k : Kind) : k ∈ Kind.all := by cases k <;> simp [all]

/-- Which members of a group may raise the group's alert. -/
inductive Scope where
  | all
  | summary
  | children
deriving DecidableEq, Repr

/-- Whether a notice may alert, and which member of its group does so. -/
structure Policy where
  canAlert : Bool := true
  scope : Scope := .all
deriving DecidableEq, Repr

namespace Policy

/-- The policy of a notice that never alerts. -/
def mute : Policy := ⟨false, .all⟩

/-- The alert of the group normally goes out through the summary. -/
def viaSummary (p : Policy) : Bool := p.canAlert && p.scope != .children

/-- The alert of the group goes out through the summary and nowhere else. -/
def summaryOnly (p : Policy) : Bool := p.canAlert && p.scope == .summary

theorem canAlert_of_viaSummary {p : Policy} (h : p.viaSummary = true) :
    p.canAlert = true := by
  simp only [viaSummary, Bool.and_eq_true] at h
  exact h.1

theorem viaSummary_of_summaryOnly {p : Policy} (h : p.summaryOnly = true) :
    p.viaSummary = true := by
  simp only [summaryOnly, Bool.and_eq_true, beq_iff_eq] at h
  simp [viaSummary, h.1, h.2]

end Policy

/-- The place of a notice in its group. -/
inductive Role where
  | summary
  | child
deriving DecidableEq, Repr

/-- The group and the role of a notice at one time. -/
structure Membership where
  group : String
  role : Role
deriving DecidableEq, Repr

/-- A notice: its key, its place in a group, whether it may alert, and the name of the row that
draws it. -/
structure Notice where
  key : String
  group : String
  role : Role
  policy : Policy := {}
  row : String
deriving DecidableEq, Repr

namespace Notice

def membership (n : Notice) : Membership := ⟨n.group, n.role⟩

/-- The notice is the summary of a group. -/
def isHead (n : Notice) : Bool := n.role == .summary

end Notice

/-- The membership is that of the notice. -/
def Membership.describes (m : Membership) (n : Notice) : Bool :=
  m.group == n.group && m.role == n.role

theorem Membership.describes_iff {m : Membership} {n : Notice} :
    m.describes n = true ↔ m = n.membership := by
  cases m
  simp [describes, Notice.membership]

/-- What happens to a notice: it is announced while its content is still being drawn, it is
added, it is updated (with the membership it had before), it is removed, or content asked for it
has been drawn. -/
inductive Event where
  | announced (n : Notice)
  | added (n : Notice)
  | updated (n : Notice) (previous : Membership)
  | removed (n : Notice)
  | rendered (n : Notice)
deriving DecidableEq, Repr

def Event.notice : Event → Notice
  | .announced n | .added n | .updated n _ | .removed n | .rendered n => n

end AlertHandoff
