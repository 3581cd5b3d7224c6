import AlertHandoff.Grouping
import AlertHandoff.Handoff.Action
import AlertHandoff.Wire.Values

/-! # The written form of the journal and of group events -/

namespace AlertHandoff

open Json (named? variant)

def Cause.name : Cause → String
  | .removed => "EntryRemoved"
  | .regrouped => "Regrouped"
  | .quiet => "QuietMode"
  | .reclaimed => "SourceReclaimed"

def Cause.encode (c : Cause) : Json := .string c.name

def Cause.decode? : Json → Option Cause :=
  named? Cause.name [.removed, .regrouped, .quiet, .reclaimed]

/-- How a step of a handoff is written: by its name, with what it moves. -/
def Action.encode : Action → Json
  | .moved source target kind => variant "Transferred"
    [("from", .string source), ("to", .string target), ("kind", kind.encode)]
  | .deferred source target kind => variant "Deferred"
    [("from", .string source), ("to", .string target), ("kind", kind.encode)]
  | .completed key kind => variant "Completed" [("key", .string key), ("kind", kind.encode)]
  | .scheduled group kind => variant "SummaryScheduled"
    [("group_key", .string group), ("kind", kind.encode)]
  | .reversed key => variant "Aborted" [("key", .string key)]
  | .voided key cause => variant "Discarded" [("key", .string key), ("reason", cause.encode)]

/-- The fields that move an alert from one key to another. -/
def Action.decodeMove? (make : String → String → Kind → Action) (body : Json) :
    Option Action := do
  let fs ← body.fields? ["from", "to", "kind"]
  return make (← (← fs.lookup "from").text?) (← (← fs.lookup "to").text?)
    (← Kind.decode? (← fs.lookup "kind"))

/-- The fields that name a key or a group, and a kind. -/
def Action.decodeKind? (field : String) (make : String → Kind → Action) (body : Json) :
    Option Action := do
  let fs ← body.fields? [field, "kind"]
  return make (← (← fs.lookup field).text?) (← Kind.decode? (← fs.lookup "kind"))

def Action.decode? (j : Json) : Option Action := do
  match ← j.variant? with
  | ("Transferred", body) => Action.decodeMove? .moved body
  | ("Deferred", body) => Action.decodeMove? .deferred body
  | ("Completed", body) => Action.decodeKind? "key" .completed body
  | ("SummaryScheduled", body) => Action.decodeKind? "group_key" .scheduled body
  | ("Aborted", body) => do
    let fs ← body.fields? ["key"]
    return .reversed (← (← fs.lookup "key").text?)
  | ("Discarded", body) => do
    let fs ← body.fields? ["key", "reason"]
    return .voided (← (← fs.lookup "key").text?) (← Cause.decode? (← fs.lookup "reason"))
  | _ => none

def GroupEvent.encode : GroupEvent → Json
  | .formed group => variant "Created" [("group_key", .string group)]
  | .suppression group on => variant "SuppressionChanged"
    [("group_key", .string group), ("suppressed", .bool on)]
  | .dissolved group => variant "Removed" [("group_key", .string group)]

def GroupEvent.decode? (j : Json) : Option GroupEvent := do
  match ← j.variant? with
  | ("Created", body) => do
    let fs ← body.fields? ["group_key"]
    return .formed (← (← fs.lookup "group_key").text?)
  | ("SuppressionChanged", body) => do
    let fs ← body.fields? ["group_key", "suppressed"]
    return .suppression (← (← fs.lookup "group_key").text?) (← (← fs.lookup "suppressed").bool?)
  | ("Removed", body) => do
    let fs ← body.fields? ["group_key"]
    return .dissolved (← (← fs.lookup "group_key").text?)
  | _ => none

end AlertHandoff
