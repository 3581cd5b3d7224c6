import AlertHandoff.Json.Basic

/-! # How records and variants are written in JSON

A record is an object with one member for each field, or the list of its fields in order.  An
object may have other members too, but none of the record's own twice; a list may end early.
`Json.fields?` gives the fields that are there.

A variant without fields is its name, or an object whose only member has that name and is null.
A variant with fields is an object whose only member has its name and holds the fields.
`Json.unit?` and `Json.variant?` read the two. -/

namespace AlertHandoff.Json

def text? : Json → Option String
  | .text t => t
  | _ => none

def bool? : Json → Option Bool
  | .bool b => some b
  | _ => none

/-- A natural number below a bound. -/
def below? (bound : Nat) : Json → Option (Fin bound)
  | .natural n => if h : n < bound then some ⟨n, h⟩ else none
  | _ => none

/-- The members of an object by name, if every name is a text. -/
def namedMembers? (members : List (Option String × Json)) : Option (List (String × Json)) :=
  members.mapM fun m => m.1.map (·, m.2)

/-- The fields of a record that are there, by name. -/
def fields? (names : List String) : Json → Option (List (String × Json))
  | .list items => if items.length ≤ names.length then some (names.zip items) else none
  | .object ms => do
    let known := (← namedMembers? ms).filter fun m => names.contains m.1
    if (known.map (·.1)).Nodup then some known else none
  | _ => none

/-- The name of a variant without fields. -/
def unit? : Json → Option String
  | .text t => t
  | .object [(name, .null)] => name
  | _ => none

/-- The name of a variant with fields, and what holds the fields. -/
def variant? : Json → Option (String × Json)
  | .object [(name, body)] => name.map (·, body)
  | _ => none

def variant (name : String) (fields : List (String × Json)) : Json :=
  record [(name, record fields)]

/-- The value that has the name of the variant, among some that have names. -/
def named? {α : Type} (name : α → String) (among : List α) (j : Json) : Option α :=
  j.unit?.bind fun s => among.find? (name · == s)

theorem named?_string {α : Type} {name : α → String} {among : List α} {a : α} (h : a ∈ among)
    (hinj : ∀ x ∈ among, name x = name a → x = a) :
    named? name among (.string (name a)) = some a := by
  simp only [named?, string, unit?, Option.bind_some]
  cases hf : among.find? (name · == name a) with
  | none => simp [List.find?_eq_none] at hf; exact absurd rfl (hf a h)
  | some x =>
    have hx := List.find?_some hf
    simp only [beq_iff_eq] at hx
    rw [hinj x (List.mem_of_find?_eq_some hf) hx]

end AlertHandoff.Json
