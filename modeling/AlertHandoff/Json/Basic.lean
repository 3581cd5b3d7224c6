/-! # JSON values

`Json` holds a document as it is written: the members of an object in order and with repetitions,
and numbers apart by whether they are plain natural numbers.  A string that is written with
escapes for half a surrogate pair stands for no text; since such a string may occur in a part of
a document nobody looks at, it is a value too, `Json.text none`. -/

namespace AlertHandoff

/-- A JSON value.  A number that is not written as a plain natural number is kept as written, and
a string that stands for no text is `none`. -/
inductive Json where
  | null
  | bool (b : Bool)
  | natural (n : Nat)
  | number (literal : String)
  | text (t : Option String)
  | list (items : List Json)
  | object (members : List (Option String × Json))
deriving Repr

namespace Json

def string (s : String) : Json := .text (some s)

def record (members : List (String × Json)) : Json :=
  .object (members.map fun m => (some m.1, m.2))

end Json

end AlertHandoff
