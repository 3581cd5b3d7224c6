import AlertHandoff.Json.Basic
import AlertHandoff.Json.Token

/-! # Reading and writing JSON documents

`Json.parse?` reads a document strictly: one value, nothing after it but blanks, no comma before
a closing bracket.  `Json.render` writes a value without blanks, the members of an object in
their order. -/

namespace AlertHandoff.Json

mutual
/-- The value at the front, nested at most the given number of words deep, and the rest. -/
def value? : Nat → List Token → Option (Json × List Token)
  | 0, _ => none
  | _ + 1, .null :: rest => some (.null, rest)
  | _ + 1, .bool b :: rest => some (.bool b, rest)
  | _ + 1, .natural n :: rest => some (.natural n, rest)
  | _ + 1, .number s :: rest => some (.number s, rest)
  | _ + 1, .text t :: rest => some (.text t, rest)
  | _ + 1, .leftBracket :: .rightBracket :: rest => some (.list [], rest)
  | n + 1, .leftBracket :: rest => do
    let (items, rest) ← items? n rest
    return (.list items, rest)
  | _ + 1, .leftBrace :: .rightBrace :: rest => some (.object [], rest)
  | n + 1, .leftBrace :: rest => do
    let (members, rest) ← members? n rest
    return (.object members, rest)
  | _ + 1, _ => none

/-- The items at the front up to the closing bracket, and the rest. -/
def items? : Nat → List Token → Option (List Json × List Token)
  | 0, _ => none
  | n + 1, words => do
    let (item, rest) ← value? n words
    match rest with
    | .rightBracket :: rest => return ([item], rest)
    | .comma :: rest => do
      let (items, rest) ← items? n rest
      return (item :: items, rest)
    | _ => none

/-- The members at the front up to the closing brace, and the rest. -/
def members? : Nat → List Token → Option (List (Option String × Json) × List Token)
  | 0, _ => none
  | n + 1, .text name :: .colon :: words => do
    let (item, rest) ← value? n words
    match rest with
    | .rightBrace :: rest => return ([(name, item)], rest)
    | .comma :: rest => do
      let (members, rest) ← members? n rest
      return ((name, item) :: members, rest)
    | _ => none
  | _ + 1, _ => none
end

/-- The value of a document.  No value has more levels than words. -/
def parse? (text : String) : Option Json := do
  let words ← Token.ofChars? text.toList
  match ← value? words.length words with
  | (value, []) => return value
  | _ => none

mutual
/-- How a value is written.  A string that stands for no text is written as the empty one. -/
def chars : Json → List Char
  | .null => ['n', 'u', 'l', 'l']
  | .bool true => ['t', 'r', 'u', 'e']
  | .bool false => ['f', 'a', 'l', 's', 'e']
  | .natural n => Nat.toDigits 10 n
  | .number s => s.toList
  | .text t => Text.quote (t.getD "")
  | .list [] => ['[', ']']
  | .list (item :: items) => '[' :: chars item ++ itemChars items
  | .object [] => ['\x7b', '\x7d']
  | .object ((name, item) :: members) =>
    '\x7b' :: Text.quote (name.getD "") ++ ':' :: chars item ++ memberChars members

/-- How the items after the first are written, closing bracket included. -/
def itemChars : List Json → List Char
  | [] => [']']
  | item :: items => ',' :: chars item ++ itemChars items

/-- How the members after the first are written, closing brace included. -/
def memberChars : List (Option String × Json) → List Char
  | [] => ['\x7d']
  | (name, item) :: members =>
    ',' :: Text.quote (name.getD "") ++ ':' :: chars item ++ memberChars members
end

/-- The document of a value. -/
def render (value : Json) : String := String.ofList value.chars

end AlertHandoff.Json
