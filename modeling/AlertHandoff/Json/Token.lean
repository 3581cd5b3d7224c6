import AlertHandoff.Json.Text

/-! # The words of a JSON document

`Token.ofChars?` cuts a text into its words: brackets, commas, colons, strings, numbers and the
three names.  Blanks (space, tab, line feed, carriage return) may stand between words.  A number
has no leading zeros, at least one digit after a point, and at least one in an exponent. -/

namespace AlertHandoff.Json

/-- A word of a document. -/
inductive Token where
  | leftBrace
  | rightBrace
  | leftBracket
  | rightBracket
  | colon
  | comma
  | null
  | bool (b : Bool)
  | natural (n : Nat)
  | number (literal : String)
  | text (t : Option String)
deriving DecidableEq, Repr

namespace Token

/-- The digits at the front, and the rest. -/
def digits (cs : List Char) : List Char × List Char :=
  (cs.takeWhile Char.isDigit, cs.dropWhile Char.isDigit)

/-- The digits at the front if there is one, and the rest. -/
def someDigits? (cs : List Char) : Option (List Char × List Char) :=
  match digits cs with
  | ([], _) => none
  | ds => some ds

/-- The digits of a natural number without leading zeros, and the rest. -/
def integer? : List Char → Option (List Char × List Char)
  | '0' :: rest => some (['0'], rest)
  | cs => someDigits? cs

/-- The fraction at the front, which may be missing, and the rest. -/
def fraction? : List Char → Option (List Char × List Char)
  | '.' :: rest => do
    let (ds, rest) ← someDigits? rest
    return ('.' :: ds, rest)
  | cs => some ([], cs)

/-- The sign at the front, which may be missing, and the rest. -/
def sign : List Char → List Char × List Char
  | '+' :: rest => (['+'], rest)
  | '-' :: rest => (['-'], rest)
  | cs => ([], cs)

/-- The exponent at the front, which may be missing, and the rest. -/
def exponent? : List Char → Option (List Char × List Char)
  | [] => some ([], [])
  | c :: rest =>
    if c = 'e' ∨ c = 'E' then do
      let (s, rest) := sign rest
      let (ds, rest) ← someDigits? rest
      return (c :: s ++ ds, rest)
    else some ([], c :: rest)

/-- The number at the front whose sign has been read, and the rest. -/
def number? (sign : List Char) (cs : List Char) : Option (Token × List Char) := do
  let (whole, cs) ← integer? cs
  let (fraction, cs) ← fraction? cs
  let (exponent, cs) ← exponent? cs
  if sign.isEmpty && fraction.isEmpty && exponent.isEmpty then
    return (.natural (Nat.ofDigitChars 10 whole 0), cs)
  else return (.number (String.ofList (sign ++ whole ++ fraction ++ exponent)), cs)

/-- A character that may stand between words. -/
def isBlank (c : Char) : Bool := c == ' ' || c == '\t' || c == '\n' || c == '\r'

/-- The word at the front, and the rest. -/
def next? : List Char → Option (Token × List Char)
  | '\x7b' :: rest => some (.leftBrace, rest)
  | '\x7d' :: rest => some (.rightBrace, rest)
  | '[' :: rest => some (.leftBracket, rest)
  | ']' :: rest => some (.rightBracket, rest)
  | ':' :: rest => some (.colon, rest)
  | ',' :: rest => some (.comma, rest)
  | 'n' :: 'u' :: 'l' :: 'l' :: rest => some (.null, rest)
  | 't' :: 'r' :: 'u' :: 'e' :: rest => some (.bool true, rest)
  | 'f' :: 'a' :: 'l' :: 's' :: 'e' :: rest => some (.bool false, rest)
  | '"' :: rest => (Text.scan rest).map fun x => (.text ((Text.join x.1).map String.ofList), x.2)
  | '-' :: rest => number? ['-'] rest
  | cs => number? [] cs

/-- The words of a text that has at most the given number of characters. -/
def wordsWithin : Nat → List Char → Option (List Token)
  | _, [] => some []
  | 0, _ :: _ => none
  | n + 1, c :: rest =>
    if isBlank c then wordsWithin n rest
    else do
      let (t, rest) ← next? (c :: rest)
      return t :: (← wordsWithin n rest)

/-- The words of a text.  Each has a character at least. -/
def ofChars? (cs : List Char) : Option (List Token) := wordsWithin cs.length cs

example : ofChars? "[-0, 1.5e3,\t20 ]".toList =
    some [.leftBracket, .number "-0", .comma, .number "1.5e3", .comma, .natural 20,
      .rightBracket] := by decide
example : ofChars? "1.".toList = none := by decide

end Token
end AlertHandoff.Json
