import AlertHandoff.Json.Token
import Mathlib.Data.List.Basic

/-! # How strings and numbers are spelled

What is written between quotes for a text is scanned back piece by piece: every character is
written as one piece, a control character as a unit of its own (`Text.scan_escape`).  What is
written for a natural number has no leading zeros, so that it reads back as long as nothing follows
that could belong to a number (`Token.next?_natural`).

`Token.Cuts` says that characters are cut into certain words; `Token.Cuts.cons` puts one word in
front. -/

namespace AlertHandoff.Json
namespace Text

theorem unit?_control : ∀ n < 32,
    unit? '0' '0' (Nat.digitChar (n / 16)) (Nat.digitChar (n % 16)) = some (.unit n) := by
  decide

theorem join_unit {c : Char} (h : c.toNat < 32) (ps : List Piece) :
    join (.unit c.toNat :: ps) = (join ps).map (c :: ·) := by
  have hhigh : isHigh c.toNat = false := by
    rw [isHigh, Bool.and_eq_false_iff]
    exact .inl (decide_eq_false (by omega))
  have hlow : isLow c.toNat = false := by
    rw [isLow, Bool.and_eq_false_iff]
    exact .inl (decide_eq_false (by omega))
  rw [join.eq_def]
  simp [hhigh, hlow, Char.ofNat_toNat]

theorem scan_cons {c : Char} (hq : c ≠ '"') (hs : c ≠ '\\') (h : ¬c < ' ') (rest : List Char) :
    scan (c :: rest) = (scan rest).map fun x => (.char c :: x.1, x.2) := by
  rw [scan.eq_def]
  split
  · next he => cases he
  · next he => exact absurd (List.cons.inj he).1 hq
  · next he => exact absurd (List.cons.inj he).1 hs
  · next he => exact absurd (List.cons.inj he).1 hs
  · next he =>
    obtain ⟨rfl, rfl⟩ := List.cons.inj he
    rw [if_neg (by simp [h, hs])]
    cases scan rest <;> rfl

theorem scan_escaped {c : Char} {p : Piece} (hc : c ≠ 'u') (h : escaped? c = some p)
    (rest : List Char) :
    scan ('\\' :: c :: rest) = (scan rest).map fun x => (p :: x.1, x.2) := by
  rw [scan]
  · rw [h]
    cases scan rest <;> rfl
  · intro _ _ _ _ _ he _
    exact hc he

theorem scan_unit {a b c d : Char} {p : Piece} (h : unit? a b c d = some p) (rest : List Char) :
    scan ('\\' :: 'u' :: a :: b :: c :: d :: rest) =
      (scan rest).map fun x => (p :: x.1, x.2) := by
  rw [scan, h]
  cases scan rest <;> rfl

/-- What is written for a character is scanned as one piece, which stands for that character. -/
theorem scan_escape (c : Char) (rest : List Char) :
    ∃ p, scan (escape c ++ rest) = (scan rest).map (fun x => (p :: x.1, x.2)) ∧
      ∀ ps, join (p :: ps) = (join ps).map (c :: ·) := by
  unfold escape
  split
  case h_8 hq hs _ _ _ _ _ =>
    split
    · next h =>
      have hn : c.toNat < 32 := h
      exact ⟨.unit c.toNat, scan_unit (unit?_control _ hn) rest, join_unit hn⟩
    · next h => exact ⟨.char c, scan_cons hq hs h rest, fun _ => rfl⟩
  all_goals exact ⟨.char _, scan_escaped (by decide) rfl rest, fun _ => rfl⟩

theorem scan_flatMap : ∀ (cs rest : List Char),
    ∃ ps, scan (cs.flatMap escape ++ '"' :: rest) = some (ps, rest) ∧ join ps = some cs
  | [], rest => ⟨[], by simp [scan], rfl⟩
  | c :: cs, rest => by
      obtain ⟨ps, hscan, hjoin⟩ := scan_flatMap cs rest
      obtain ⟨p, hp, hpjoin⟩ := scan_escape c (cs.flatMap escape ++ '"' :: rest)
      refine ⟨p :: ps, ?_, by rw [hpjoin, hjoin]; rfl⟩
      rw [List.flatMap_cons, List.append_assoc, hp, hscan]
      rfl

end Text

namespace Token
theorem next?_quote (s : String) (rest : List Char) :
    next? (Text.quote s ++ rest) = some (.text (some s), rest) := by
  obtain ⟨ps, hscan, hjoin⟩ := Text.scan_flatMap s.toList rest
  simp only [Text.quote, List.cons_append, List.append_assoc, List.nil_append, next?, hscan,
    Option.map_some, hjoin, String.ofList_toList]

/-- No number goes on here. -/
def Ends (cs : List Char) : Prop :=
  ∀ c ∈ cs.head?, c.isDigit = false ∧ c ≠ '.' ∧ c ≠ 'e' ∧ c ≠ 'E'

theorem head?_toDigits_ne {n : Nat} (h : 0 < n) : (Nat.toDigits 10 n).head? ≠ some '0' := by
  induction n using Nat.strongRecOn with
  | ind n ih =>
      rcases Nat.lt_or_ge n 10 with hn | hn
      · rw [Nat.toDigits_of_lt_base hn]
        have : ∀ d < 10, 0 < d → [Nat.digitChar d].head? ≠ some '0' := by decide
        exact this n hn h
      · rw [Nat.toDigits_of_base_le (by decide) hn,
          List.head?_append_of_ne_nil _ Nat.toDigits_ne_nil]
        exact ih (n / 10) (by omega) (by omega)

theorem digits_append {ds rest : List Char} (hds : ∀ c ∈ ds, c.isDigit = true) (h : Ends rest) :
    digits (ds ++ rest) = (ds, rest) := by
  have hrest : rest.takeWhile Char.isDigit = [] ∧ rest.dropWhile Char.isDigit = rest := by
    cases rest with
    | nil => exact ⟨rfl, rfl⟩
    | cons c rest =>
        have hc := (h c rfl).1
        simp [hc]
  rw [digits, List.takeWhile_append_of_pos hds, List.dropWhile_append_of_pos hds, hrest.1, hrest.2,
    List.append_nil]

theorem integer?_toDigits (n : Nat) {rest : List Char} (h : Ends rest) :
    integer? (Nat.toDigits 10 n ++ rest) = some (Nat.toDigits 10 n, rest) := by
  rcases Nat.eq_zero_or_pos n with rfl | hn
  · rfl
  · have hall : ∀ c ∈ Nat.toDigits 10 n, c.isDigit = true := fun c hc =>
      Nat.isDigit_of_mem_toDigits (by decide) (by decide) hc
    have hne := head?_toDigits_ne hn
    have hdigits := digits_append hall h
    cases hd : Nat.toDigits 10 n with
    | nil => exact absurd hd Nat.toDigits_ne_nil
    | cons d ds =>
        rw [hd] at hne hdigits
        have hd0 : d ≠ '0' := fun he => hne (by rw [he]; rfl)
        rw [List.cons_append] at hdigits ⊢
        simp [integer?, hd0, someDigits?, hdigits]

theorem fraction?_of_ends {rest : List Char} (h : Ends rest) :
    fraction? rest = some ([], rest) := by
  cases rest with
  | nil => rfl
  | cons c rest =>
      have hc := (h c rfl).2.1
      simp [fraction?, hc]

theorem exponent?_of_ends {rest : List Char} (h : Ends rest) :
    exponent? rest = some ([], rest) := by
  cases rest with
  | nil => rfl
  | cons c rest =>
      have hc := (h c rfl).2.2
      simp [exponent?, hc]

theorem number?_toDigits (n : Nat) {rest : List Char} (h : Ends rest) :
    number? [] (Nat.toDigits 10 n ++ rest) = some (.natural n, rest) := by
  simp [number?, integer?_toDigits n h, fraction?_of_ends h, exponent?_of_ends h,
    Nat.ofDigitChars_toDigits]

theorem next?_of_isDigit {d : Char} (hd : d.isDigit = true) (cs : List Char) :
    next? (d :: cs) = number? [] (d :: cs) := by
  rw [next?.eq_def]
  split
  case h_12 => rfl
  all_goals
    next he =>
    obtain ⟨rfl, -⟩ := List.cons.inj he
    cases hd

theorem next?_natural (n : Nat) {rest : List Char} (h : Ends rest) :
    next? (Nat.toDigits 10 n ++ rest) = some (.natural n, rest) := by
  cases hd : Nat.toDigits 10 n with
  | nil => exact absurd hd Nat.toDigits_ne_nil
  | cons d ds =>
      have hmem : d ∈ Nat.toDigits 10 n := by simp [hd]
      have hdigit := Nat.isDigit_of_mem_toDigits (by decide) (by decide) hmem
      rw [List.cons_append, next?_of_isDigit hdigit, ← List.cons_append, ← hd,
        number?_toDigits n h]

/-- The characters are cut into these words. -/
def Cuts (cs : List Char) (ts : List Token) : Prop :=
  ∀ n, cs.length ≤ n → wordsWithin n cs = some ts

theorem ends_nil : Ends [] := fun _ h => by cases h

theorem ends_cons {c : Char} (h : c.isDigit = false ∧ c ≠ '.' ∧ c ≠ 'e' ∧ c ≠ 'E')
    (rest : List Char) : Ends (c :: rest) := fun x hx => by
  cases hx
  exact h

theorem cuts_nil : Cuts [] [] := fun n _ => by cases n <;> rfl

/-- A word at the front, which has a character and does not begin with a blank. -/
theorem Cuts.cons {w rest : List Char} {t : Token} {ts : List Token}
    (h : ∃ c ∈ w.head?, isBlank c = false) (hnext : next? (w ++ rest) = some (t, rest))
    (hrest : Cuts rest ts) : Cuts (w ++ rest) (t :: ts) := by
  obtain ⟨c, hc, hblank⟩ := h
  cases w with
  | nil => cases hc
  | cons x w =>
      cases hc
      intro n hn
      cases n with
      | zero => simp at hn
      | succ n =>
          have hlen : rest.length ≤ n := by
            simp only [List.cons_append, List.length_cons, List.length_append] at hn
            omega
          rw [List.cons_append] at hnext ⊢
          simp only [wordsWithin, hblank, Bool.false_eq_true, if_false, hnext, Option.bind_eq_bind,
            Option.bind_some, hrest n hlen]
          rfl

/-- A word that is a single character. -/
theorem Cuts.sign {c : Char} {rest : List Char} {t : Token} {ts : List Token}
    (h : isBlank c = false) (hnext : next? (c :: rest) = some (t, rest)) (hrest : Cuts rest ts) :
    Cuts (c :: rest) (t :: ts) :=
  Cuts.cons (w := [c]) ⟨c, rfl, h⟩ hnext hrest

theorem Cuts.quote {rest : List Char} {ts : List Token} (s : String) (h : Cuts rest ts) :
    Cuts (Text.quote s ++ rest) (.text (some s) :: ts) :=
  Cuts.cons ⟨'"', rfl, rfl⟩ (next?_quote s rest) h

theorem Cuts.natural {rest : List Char} {ts : List Token} (n : Nat) (hends : Ends rest)
    (h : Cuts rest ts) : Cuts (Nat.toDigits 10 n ++ rest) (.natural n :: ts) := by
  refine Cuts.cons ?_ (next?_natural n hends) h
  cases hd : Nat.toDigits 10 n with
  | nil => exact absurd hd Nat.toDigits_ne_nil
  | cons d ds =>
      have hdigit : d.isDigit = true :=
        Nat.isDigit_of_mem_toDigits (b := 10) (n := n) (by decide) (by decide) (by simp [hd])
      refine ⟨d, rfl, ?_⟩
      by_contra hblank
      simp only [isBlank, Bool.not_eq_false, Bool.or_eq_true, beq_iff_eq] at hblank
      rcases hblank with ((rfl | rfl) | rfl) | rfl <;> cases hdigit

end Token

end AlertHandoff.Json
