import AlertHandoff.Handoff.Window
import AlertHandoff.Screen.Row
import AlertHandoff.Wire.Shape

/-! # The written form of settings and of what describes a notice

Every type has its form `encode` and the reader `decode?` of what may be written for it.  All
fields have to be given, except that `Settings` puts its default for a field that is missing. -/

namespace AlertHandoff

open Json (named?)

def Kind.name : Kind → String
  | .headsUp => "HeadsUp"
  | .ambientPulse => "AmbientPulse"

def Kind.encode (k : Kind) : Json := .string k.name

def Kind.decode? : Json → Option Kind := named? Kind.name Kind.all

def Role.name : Role → String
  | .summary => "Summary"
  | .child => "Child"

def Role.encode (r : Role) : Json := .string r.name

def Role.decode? : Json → Option Role := named? Role.name [.summary, .child]

def Scope.name : Scope → String
  | .all => "All"
  | .summary => "Summary"
  | .children => "Children"

def Scope.encode (s : Scope) : Json := .string s.name

def Scope.decode? : Json → Option Scope := named? Scope.name [.all, .summary, .children]

/-- A flag is written as its number. -/
def Flag.encode (f : Flag) : Json := .natural f.toNat

/-- Reads a flag, which has at most 32 bits. -/
def Flag.decode? (j : Json) : Option Flag := (j.below? UInt32.size).map UInt32.ofFin

def Policy.encode (p : Policy) : Json :=
  .record [("can_alert", .bool p.canAlert), ("group_alert", p.scope.encode)]

def Policy.decode? (j : Json) : Option Policy := do
  let fs ← j.fields? ["can_alert", "group_alert"]
  return { canAlert := ← (← fs.lookup "can_alert").bool?
           scope := ← Scope.decode? (← fs.lookup "group_alert") }

def Membership.encode (m : Membership) : Json :=
  .record [("group_key", .string m.group), ("role", m.role.encode)]

def Membership.decode? (j : Json) : Option Membership := do
  let fs ← j.fields? ["group_key", "role"]
  return { group := ← (← fs.lookup "group_key").text?
           role := ← Role.decode? (← fs.lookup "role") }

/-- The window is a number of milliseconds, or null if there is none. -/
def Settings.encodeWindow : Option UInt64 → Json
  | none => .null
  | some w => .natural w.toNat

/-- Reads a window, which is null or a number of milliseconds of at most 64 bits. -/
def Settings.decodeWindow? : Json → Option (Option UInt64)
  | .null => some none
  | j => (j.below? UInt64.size).map fun w => some (UInt64.ofFin w)

def Settings.encode (s : Settings) : Json :=
  .record [("transfer_back_window_ms", Settings.encodeWindow s.window),
    ("request_content_on_defer", .bool s.asksForContent)]

/-- Reads settings; a field that is missing has its default. -/
def Settings.decode? (j : Json) : Option Settings := do
  let fs ← j.fields? ["transfer_back_window_ms", "request_content_on_defer"]
  let fallback : Settings := {}
  return { window := ← (fs.lookup "transfer_back_window_ms").elim (some fallback.window)
             Settings.decodeWindow?
           asksForContent := ← (fs.lookup "request_content_on_defer").elim
             (some fallback.asksForContent) Json.bool? }

end AlertHandoff
