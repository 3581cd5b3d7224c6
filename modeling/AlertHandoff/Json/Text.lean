/-! # Strings in JSON documents

A string is written between quotes; a quote, a backslash and the characters below the space are
written as escapes.  `scan` splits the written form into pieces up to the closing quote, and
`join` puts the pieces together, where two escapes may name the halves of a surrogate pair;
half a pair alone stands for no text.

Control characters may not stand for themselves inside a string. -/

namespace AlertHandoff.Json.Text

/-- A piece of a written string: a character, or a 16-bit unit given by its number. -/
inductive Piece where
  | char (c : Char)
  | unit (n : Nat)
deriving DecidableEq, Repr

/-- The value of a hexadecimal digit. -/
def hexValue? (c : Char) : Option Nat :=
  if '0' ≤ c ∧ c ≤ '9' then some (c.toNat - '0'.toNat)
  else if 'a' ≤ c ∧ c ≤ 'f' then some (c.toNat - 'a'.toNat + 10)
  else if 'A' ≤ c ∧ c ≤ 'F' then some (c.toNat - 'A'.toNat + 10)
  else none

/-- The unit that four hexadecimal digits name. -/
def unit? (a b c d : Char) : Option Piece := do
  return .unit (((← hexValue? a) * 16 + (← hexValue? b)) * 256 +
    ((← hexValue? c) * 16 + (← hexValue? d)))

/-- The character that stands after a backslash for another one. -/
def escaped? : Char → Option Piece
  | '"' => some (.char '"')
  | '\\' => some (.char '\\')
  | '/' => some (.char '/')
  | 'b' => some (.char '\x08')
  | 'f' => some (.char '\x0c')
  | 'n' => some (.char '\n')
  | 'r' => some (.char '\r')
  | 't' => some (.char '\t')
  | _ => none

/-- The pieces of a string up to its closing quote, and what stands after that. -/
def scan : List Char → Option (List Piece × List Char)
  | [] => none
  | '"' :: rest => some ([], rest)
  | '\\' :: 'u' :: a :: b :: c :: d :: rest => do
    let p ← unit? a b c d
    let (ps, rest) ← scan rest
    return (p :: ps, rest)
  | '\\' :: c :: rest => do
    let p ← escaped? c
    let (ps, rest) ← scan rest
    return (p :: ps, rest)
  | c :: rest =>
    if c < ' ' ∨ c = '\\' then none
    else do
      let (ps, rest) ← scan rest
      return (.char c :: ps, rest)

/-- The unit is the first half of a surrogate pair. -/
def isHigh (n : Nat) : Bool := 0xD800 ≤ n && n < 0xDC00

/-- The unit is the second half of a surrogate pair. -/
def isLow (n : Nat) : Bool := 0xDC00 ≤ n && n < 0xE000

/-- The character of a surrogate pair. -/
def pair (high low : Nat) : Char :=
  Char.ofNat (0x10000 + (high - 0xD800) * 0x400 + (low - 0xDC00))

/-- The characters of a list of pieces, if every half of a pair has its other half. -/
def join : List Piece → Option (List Char)
  | [] => some []
  | .char c :: rest => (join rest).map (c :: ·)
  | .unit n :: rest =>
    if isHigh n then
      match rest with
      | .unit m :: rest => if isLow m then (join rest).map (pair n m :: ·) else none
      | _ => none
    else if isLow n then none
    else (join rest).map (Char.ofNat n :: ·)

/-- How a character is written inside a string. -/
def escape (c : Char) : List Char :=
  match c with
  | '"' => ['\\', '"']
  | '\\' => ['\\', '\\']
  | '\x08' => ['\\', 'b']
  | '\x0c' => ['\\', 'f']
  | '\n' => ['\\', 'n']
  | '\r' => ['\\', 'r']
  | '\t' => ['\\', 't']
  | c =>
    if c < ' ' then
      ['\\', 'u', '0', '0', Nat.digitChar (c.toNat / 16), Nat.digitChar (c.toNat % 16)]
    else [c]

/-- How a text is written, quotes included. -/
def quote (s : String) : List Char := '"' :: s.toList.flatMap escape ++ ['"']

example : (scan "a\\u00e9\\ud83d\\ude00\\n\"!".toList).map (fun x => (join x.1, x.2)) =
    some (some "aé😀\n".toList, ['!']) := by decide +kernel
example : (scan "\\ud83d\"".toList).map (fun x => join x.1) = some none := by decide +kernel
example : scan "\\x\"".toList = none := by decide +kernel

end AlertHandoff.Json.Text
