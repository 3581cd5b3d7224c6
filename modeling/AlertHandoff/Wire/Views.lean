import AlertHandoff.Session.Overview
import AlertHandoff.Wire.Journal

/-! # The written form of what can be seen of a session -/

namespace AlertHandoff

/-- A value that may be missing is written as null if it is. -/
def Json.optional {α : Type} (encode : α → Json) : Option α → Json
  | none => .null
  | some a => encode a

/-- A notice is written with the name of its row. -/
def Notice.encode (n : Notice) : Json :=
  .record [("key", .string n.key), ("group_key", .string n.group), ("role", n.role.encode),
    ("alert_policy", n.policy.encode), ("row", .string n.row)]

def Change.encode : Change → Json
  | .raised n => .record [("Added", n.encode)]
  | .dismissed key => .record [("Removed", .string key)]

/-- How a call is written: as the list of its name and its arguments. -/
def Call.encode : Call → Json
  | .raise kind key => .list [.string "show", kind.encode, .string key]
  | .update kind key alert => .list [.string "update", kind.encode, .string key, .bool alert]
  | .dismiss kind key => .list [.string "remove", kind.encode, .string key]
  | .request row flag => .list [.string "request", .string row, Flag.encode flag]
  | .release row flag => .list [.string "release", .string row, Flag.encode flag]

def Deferral.encode (d : Deferral) : Json :=
  .record [("source_key", .string d.source), ("kind", d.kind.encode),
    ("membership", d.membership.encode), ("aborted", .bool d.isReversed)]

/-- Deferrals are written as pairs of a destination and a deferral, by destination. -/
def Deferrals.encode (ds : List (String × Deferral)) : Json :=
  .list (ds.map fun x => .list [.string x.1, x.2.encode])

def Schedule.encode (s : Schedule) : Json :=
  .record [("kind", s.kind.encode), ("source_key", .string s.source)]

def GroupOverview.encode (g : GroupOverview) : Json :=
  .record [("group_key", .string g.group), ("transfer_recent", .bool g.isRecent),
    ("scheduled_summary", Json.optional Schedule.encode g.schedule)]

def Overview.encode (s : Overview) : Json :=
  .record [("quiet", .bool s.quiet), ("pending", Deferrals.encode s.pending),
    ("groups", .list (s.groups.map (·.encode)))]

/-- What a roster answers about a group. -/
def Roster.encodeGroup (r : Roster) (group : String) : Json :=
  .record [("group_key", .string group), ("suppressed", .bool (r.suppressed group)),
    ("summary", Json.optional (fun n => .string n.key) (r.summary group)),
    ("children", .list ((r.children group).map fun n => .string n.key))]

/-- What can be seen of a presenter. -/
def Presenter.encode (p : Presenter) : Json :=
  .record [("keys", .list (p.up.toList.map .string)), ("updates", .natural p.updates)]

/-- What was asked of a row. -/
def Row.encode (r : Row) : Json :=
  .record [("requested", .list (r.requested.map Flag.encode)),
    ("released", .list (r.released.map Flag.encode))]

def Fault.name : Fault → String
  | .alreadyBound => "AlreadyBound"
  | .notBound => "NotBound"

def Fault.encode (f : Fault) : Json :=
  .record [("error", .string f.name), ("message", .string f.message)]

def HostReply.encode : HostReply → Json
  | .done => .null
  | .replaced p =>
    .record [("flag", Flag.encode p.flag), ("changes", .list (p.feed.map (·.encode)))]
  | .feed changes => .list (changes.map (·.encode))
  | .noPresenter => .string "no presenter"

def Reply.encode : Reply → Json
  | .done => .null
  | .host r => r.encode
  | .accepted yes => .bool yes
  | .actions journal => .list (journal.map (·.encode))
  | .refused f => f.encode

end AlertHandoff
