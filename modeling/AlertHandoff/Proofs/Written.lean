import AlertHandoff.Json.Document
import AlertHandoff.Proofs.Spelling

/-! # What is written of a value reads back

`Json.words` lists the words of a value.  What is written of a value is cut into these words
(`Json.cuts_chars`), and the words are put together to the value again (`Json.value?_words`), with
as many words as the reader allows levels.  So a document reads back as the value it was written of
(`Json.parse?_render`), if the value can be written at all: of a number only plain natural numbers
are spelled anew, and a string has to stand for a text. -/

namespace AlertHandoff.Json

mutual
/-- The words of a value. -/
def words : Json → List Token
  | .null => [.null]
  | .bool b => [.bool b]
  | .natural n => [.natural n]
  | .number s => [.number s]
  | .text t => [.text t]
  | .list [] => [.leftBracket, .rightBracket]
  | .list (item :: items) => .leftBracket :: words item ++ itemWords items
  | .object [] => [.leftBrace, .rightBrace]
  | .object ((name, item) :: members) =>
    .leftBrace :: .text name :: .colon :: words item ++ memberWords members

/-- The words of the items after the first, closing bracket included. -/
def itemWords : List Json → List Token
  | [] => [.rightBracket]
  | item :: items => .comma :: words item ++ itemWords items

/-- The words of the members after the first, closing brace included. -/
def memberWords : List (Option String × Json) → List Token
  | [] => [.rightBrace]
  | (name, item) :: members => .comma :: .text name :: .colon :: words item ++ memberWords members
end

/-- A value that can be written: every number in it is a plain natural number, and every string
stands for a text. -/
inductive Plain : Json → Prop
  | null : Plain .null
  | bool (b : Bool) : Plain (.bool b)
  | natural (n : Nat) : Plain (.natural n)
  | string (s : String) : Plain (.string s)
  | list {items : List Json} (h : ∀ item ∈ items, Plain item) : Plain (.list items)
  | object {members : List (Option String × Json)} (hnames : ∀ m ∈ members, m.1.isSome = true)
      (h : ∀ m ∈ members, Plain m.2) : Plain (.object members)

/-- What comes after an item, a comma or the closing bracket, ends a number. -/
theorem ends_itemChars (items : List Json) (rest : List Char) :
    Token.Ends (itemChars items ++ rest) := by
  cases items <;> exact Token.ends_cons (by decide) _

theorem ends_memberChars (members : List (Option String × Json)) (rest : List Char) :
    Token.Ends (memberChars members ++ rest) := by
  cases members <;> exact Token.ends_cons (by decide) _

mutual
/-- What is written of a value is cut into its words. -/
theorem cuts_chars : ∀ {j : Json}, j.Plain → ∀ {rest : List Char} {ts : List Token},
    Token.Ends rest → Token.Cuts rest ts → Token.Cuts (chars j ++ rest) (words j ++ ts)
  | .null, _, _, _, _, h => Token.Cuts.cons (w := ['n', 'u', 'l', 'l']) ⟨'n', rfl, rfl⟩ rfl h
  | .bool true, _, _, _, _, h => Token.Cuts.cons (w := ['t', 'r', 'u', 'e']) ⟨'t', rfl, rfl⟩ rfl h
  | .bool false, _, _, _, _, h =>
      Token.Cuts.cons (w := ['f', 'a', 'l', 's', 'e']) ⟨'f', rfl, rfl⟩ rfl h
  | .natural n, _, _, _, hends, h => Token.Cuts.natural n hends h
  | .number s, hj, _, _, _, _ => by cases hj
  | .text none, hj, _, _, _, _ => by cases hj
  | .text (some s), _, _, _, _, h => Token.Cuts.quote s h
  | .list [], _, _, _, _, h => Token.Cuts.sign rfl rfl (Token.Cuts.sign rfl rfl h)
  | .list (item :: items), .list hj, rest, ts, _, h => by
      have hitems := cuts_itemChars (fun x hx => hj x (List.mem_cons_of_mem item hx)) h
      have hitem := cuts_chars (hj item List.mem_cons_self) (ends_itemChars items rest) hitems
      simp only [chars, words, List.cons_append, List.append_assoc]
      exact Token.Cuts.sign rfl rfl hitem
  | .object [], _, _, _, _, h => Token.Cuts.sign rfl rfl (Token.Cuts.sign rfl rfl h)
  | .object ((none, item) :: members), .object hnames _, _, _, _, _ => by
      cases hnames _ List.mem_cons_self
  | .object ((some name, item) :: members), .object hnames hj, rest, ts, _, h => by
      have hmembers := cuts_memberChars (fun x hx => hnames x (List.mem_cons_of_mem _ hx))
        (fun x hx => hj x (List.mem_cons_of_mem _ hx)) h
      have hitem := cuts_chars (hj _ List.mem_cons_self) (ends_memberChars members rest) hmembers
      simp only [chars, words, List.cons_append, List.append_assoc, Option.getD_some]
      exact Token.Cuts.sign rfl rfl (Token.Cuts.quote name (Token.Cuts.sign rfl rfl hitem))

theorem cuts_itemChars : ∀ {items : List Json}, (∀ item ∈ items, item.Plain) →
    ∀ {rest : List Char} {ts : List Token}, Token.Cuts rest ts →
      Token.Cuts (itemChars items ++ rest) (itemWords items ++ ts)
  | [], _, _, _, h => Token.Cuts.sign rfl rfl h
  | item :: items, hj, rest, ts, h => by
      have hitems := cuts_itemChars (fun x hx => hj x (List.mem_cons_of_mem item hx)) h
      have hitem := cuts_chars (hj item List.mem_cons_self) (ends_itemChars items rest) hitems
      simp only [itemChars, itemWords, List.cons_append, List.append_assoc]
      exact Token.Cuts.sign rfl rfl hitem

theorem cuts_memberChars : ∀ {members : List (Option String × Json)},
    (∀ m ∈ members, m.1.isSome = true) → (∀ m ∈ members, m.2.Plain) →
      ∀ {rest : List Char} {ts : List Token}, Token.Cuts rest ts →
        Token.Cuts (memberChars members ++ rest) (memberWords members ++ ts)
  | [], _, _, _, _, h => Token.Cuts.sign rfl rfl h
  | (none, item) :: members, hnames, _, _, _, _ => by cases hnames _ List.mem_cons_self
  | (some name, item) :: members, hnames, hj, rest, ts, h => by
      have hmembers := cuts_memberChars (fun x hx => hnames x (List.mem_cons_of_mem _ hx))
        (fun x hx => hj x (List.mem_cons_of_mem _ hx)) h
      have hitem := cuts_chars (hj _ List.mem_cons_self) (ends_memberChars members rest) hmembers
      simp only [memberChars, memberWords, List.cons_append, List.append_assoc, Option.getD_some]
      exact Token.Cuts.sign rfl rfl (Token.Cuts.quote name (Token.Cuts.sign rfl rfl hitem))
end

/-! ### Objects -/

theorem memberChars_record : ∀ members : List (String × Json),
    memberChars (members.map fun m => (some m.1, m.2)) =
      (members.flatMap fun m => ',' :: (Text.quote m.1 ++ ':' :: chars m.2)) ++ ['\x7d']
  | [] => rfl
  | m :: members => by
      rw [List.map_cons, memberChars, memberChars_record members]
      simp

theorem intercalate_comma (x : List Char) : ∀ xs : List (List Char),
    [','].intercalate (x :: xs) = x ++ xs.flatMap (',' :: ·)
  | [] => by simp
  | y :: xs => by
      rw [List.intercalate_cons_cons, intercalate_comma y xs]
      simp

/-- **The document of an object** is the list of its members in braces, with commas between them, so
that to take a member away from the object is to take it away from the document. -/
theorem render_record (members : List (String × Json)) :
    (record members).render =
      "\x7b" ++ ",".intercalate (members.map fun m => (string m.1).render ++ ":" ++ m.2.render) ++
        "\x7d" := by
  apply String.toList_inj.mp
  cases members with
  | nil => rfl
  | cons m members =>
      simp [render, record, chars, string, memberChars_record, intercalate_comma,
        List.flatMap_map, Function.comp_def]

/-! ### Reading -/

theorem words_ne_nil (j : Json) : words j ≠ [] := by
  rcases j with _ | b | n | s | t | items | members
  case list => cases items <;> simp [words]
  case object => cases members <;> simp [words]
  all_goals simp [words]

/-- No value begins with a closing bracket. -/
theorem value?_leftBracket {n : Nat} {item : Json} {ts : List Token} {items : List Json}
    {rest : List Token} (h : items? n (words item ++ ts) = some (items, rest)) :
    value? (n + 1) (.leftBracket :: (words item ++ ts)) = some (.list items, rest) := by
  rcases item with _ | b | k | s | t | items | members
  case list => cases items <;> simp_all [words, value?]
  case object => cases members <;> simp_all [words, value?]
  all_goals simp_all [words, value?]

mutual
theorem value?_words : ∀ (j : Json) {n : Nat} (rest : List Token), (words j).length ≤ n →
    value? n (words j ++ rest) = some (j, rest)
  | j, 0, _, h => absurd (List.length_eq_zero_iff.mp (Nat.le_zero.mp h)) (words_ne_nil j)
  | .null, n + 1, rest, _ => rfl
  | .bool b, n + 1, rest, _ => rfl
  | .natural k, n + 1, rest, _ => rfl
  | .number s, n + 1, rest, _ => rfl
  | .text t, n + 1, rest, _ => rfl
  | .list [], n + 1, rest, _ => rfl
  | .list (item :: items), n + 1, rest, h => by
      have hlen : (words item ++ itemWords items).length ≤ n := by
        rw [words, List.cons_append, List.length_cons] at h
        omega
      have hread := items?_words item items rest hlen
      rw [List.append_assoc] at hread
      simp only [words, List.cons_append, List.append_assoc]
      exact value?_leftBracket hread
  | .object [], n + 1, rest, _ => rfl
  | .object ((name, item) :: members), n + 1, rest, h => by
      have hlen : (words item ++ memberWords members).length + 2 ≤ n := by
        simp only [words, List.cons_append, List.length_cons] at h
        omega
      have hread := members?_words name item members rest hlen
      simp only [words, List.cons_append, value?, hread]
      rfl

theorem items?_words : ∀ (item : Json) (items : List Json) {n : Nat} (rest : List Token),
    (words item ++ itemWords items).length ≤ n →
      items? n (words item ++ itemWords items ++ rest) = some (item :: items, rest)
  | item, items, 0, _, h => by
      have hnil := List.length_eq_zero_iff.mp (Nat.le_zero.mp h)
      exact absurd (List.append_eq_nil_iff.mp hnil).1 (words_ne_nil item)
  | item, [], n + 1, rest, h => by
      have hlen : (words item).length ≤ n := by simpa [itemWords] using h
      rw [List.append_assoc, items?, value?_words item _ hlen]
      rfl
  | item, next :: items, n + 1, rest, h => by
      simp only [itemWords, List.length_append, List.length_cons] at h
      have hlen : (words item).length ≤ n := by omega
      have hrest : (words next ++ itemWords items).length ≤ n := by
        rw [List.length_append]
        omega
      rw [List.append_assoc, items?, value?_words item _ hlen]
      simp only [itemWords, List.cons_append, Option.bind_eq_bind, Option.bind_some,
        items?_words next items rest hrest]
      rfl

theorem members?_words : ∀ (name : Option String) (item : Json)
    (members : List (Option String × Json)) {n : Nat} (rest : List Token),
    (words item ++ memberWords members).length + 2 ≤ n →
      members? n (.text name :: .colon :: (words item ++ memberWords members ++ rest)) =
        some ((name, item) :: members, rest)
  | _, _, _, 0, _, h => by omega
  | name, item, [], n + 1, rest, h => by
      rw [List.length_append] at h
      have hlen : (words item).length ≤ n := by omega
      rw [List.append_assoc, members?, value?_words item _ hlen]
      rfl
  | name, item, (name', next) :: members, n + 1, rest, h => by
      simp only [memberWords, List.length_append, List.length_cons] at h
      have hlen : (words item).length ≤ n := by omega
      have hrest : (words next ++ memberWords members).length + 2 ≤ n := by
        rw [List.length_append]
        omega
      rw [List.append_assoc, members?, value?_words item _ hlen]
      simp only [memberWords, List.cons_append, Option.bind_eq_bind, Option.bind_some,
        members?_words name' next members rest hrest]
      rfl
end

/-- **What is written of a value reads back**, if the value can be written. -/
theorem parse?_render {j : Json} (h : j.Plain) : parse? j.render = some j := by
  have hcuts : Token.ofChars? (chars j) = some (words j) := by
    have := cuts_chars h Token.ends_nil Token.cuts_nil
    rw [List.append_nil, List.append_nil] at this
    exact this _ (Nat.le_refl _)
  have hvalue := value?_words j [] (Nat.le_refl _)
  rw [List.append_nil] at hvalue
  simp only [parse?, render, String.toList_ofList, hcuts, Option.bind_eq_bind, Option.bind_some,
    hvalue]
  rfl

end AlertHandoff.Json
