/-
  What the code uses of the standard library of Swift 3: integers read from a
  text, and the text of an optional.

  The strings that Objective-C methods return have the type `String!`.  In an
  interpolation they are optionals, and print as such.
-/
import Mathlib.Tactic.IntervalCases
import Monujo.Lib.SelfDelimiting

namespace Monujo

/-! ## Numerals -/

/-- The value of decimal digits, most significant first. -/
def digits (cs : List Char) : Option ℕ :=
  if cs ≠ [] ∧ cs.all Char.isDigit then
    some (cs.foldl (fun n c => 10 * n + (c.toNat - '0'.toNat)) 0)
  else none

/-- The value of a numeral below `size`: an optional sign and decimal digits; a
    minus sign only before a zero. -/
def parseUnsigned (size : ℕ) (s : String) : Option ℕ :=
  let value := match s.toList with
    | '+' :: cs => digits cs
    | '-' :: cs => (digits cs).filter (· = 0)
    | cs => digits cs
  value.filter (· < size)

/-- `UInt32(s)`. -/
def UInt32.parse (s : String) : Option UInt32 := (parseUnsigned UInt32.size s).map UInt32.ofNat

/-- `UInt64(s)`. -/
def UInt64.parse (s : String) : Option UInt64 := (parseUnsigned UInt64.size s).map UInt64.ofNat

/-! ## Optionals -/

def backslash : Char := Char.ofNat 92

/-- A digit of `\u{..}`. -/
def hexDigit (n : ℕ) : Char := if n < 10 then Char.ofNat (48 + n) else Char.ofNat (55 + n)

/-- `UnicodeScalar.escaped(asASCII: false)`: quotes, backslashes and control
    characters are escaped. -/
def escaped (c : Char) : List Char :=
  if c.toNat = 92 ∨ c.toNat = 39 ∨ c.toNat = 34 then [backslash, c]
  else if c.toNat = 0 then [backslash, '0']
  else if c.toNat = 10 then [backslash, 'n']
  else if c.toNat = 13 then [backslash, 'r']
  else if c.toNat = 9 then [backslash, 't']
  else if c.toNat < 32 ∨ c.toNat = 127 then
    [backslash, 'u', '{', hexDigit (c.toNat / 16), hexDigit (c.toNat % 16), '}']
  else [c]

/-- `"\(s)"` of a `String!`: `Optional(..)` around its `debugDescription`. -/
def optional (s : String) : String :=
  "Optional(" ++ String.ofList (Char.ofNat 34 :: s.toList.flatMap escaped ++ [Char.ofNat 34]) ++ ")"

/-! ### Reading back -/

/-- The value of a digit of `\u{..}`. -/
def hexValue (c : Char) : ℕ := if c.toNat < 58 then c.toNat - 48 else c.toNat - 55

/-- The character that is escaped at the beginning, and the rest. -/
def unescape : List Char → Option (Char × List Char)
  | [] => none
  | c :: cs =>
    if c = backslash then
      match cs with
      | '0' :: cs => some (Char.ofNat 0, cs)
      | 'n' :: cs => some (Char.ofNat 10, cs)
      | 'r' :: cs => some (Char.ofNat 13, cs)
      | 't' :: cs => some (Char.ofNat 9, cs)
      | 'u' :: '{' :: hi :: lo :: '}' :: cs =>
        some (Char.ofNat (16 * hexValue hi + hexValue lo), cs)
      | c :: cs => some (c, cs)
      | [] => none
    else some (c, cs)

/-- Outside ASCII nothing is escaped. -/
theorem escaped_of_le {c : Char} (h : 128 ≤ c.toNat) : escaped c = [c] := by
  unfold escaped
  split_ifs <;> first | rfl | omega

theorem unescape_escaped (c : Char) (cs : List Char) :
    unescape (escaped c ++ cs) = some (c, cs) := by
  rcases Nat.lt_or_ge c.toNat 128 with hlt | hle
  · rw [← Char.ofNat_toNat c]
    generalize c.toNat = n at hlt
    interval_cases n <;> rfl
  · have hne : c ≠ backslash := by
      rintro rfl
      exact absurd hle (by decide)
    rw [escaped_of_le hle]
    simp [unescape, hne]

theorem selfDelimiting_escaped : SelfDelimiting escaped :=
  .of_read unescape unescape_escaped

theorem escaped_ne_nil (c : Char) : escaped c ≠ [] := by
  unfold escaped
  split_ifs <;> exact List.cons_ne_nil _ _

/-- The text of an optional shows the string. -/
theorem optional_injective : Function.Injective optional := by
  intro s t h
  have hlist : (optional s).toList = (optional t).toList := congrArg String.toList h
  simp only [optional, String.toList_append, String.toList_ofList, List.append_assoc,
    List.cons_append, List.append_cancel_left_eq, List.cons.injEq, true_and,
    List.append_cancel_right_eq] at hlist
  exact String.toList_inj.1 (selfDelimiting_escaped.flatMap_injective escaped_ne_nil hlist)

theorem newline_notMem_escaped (c : Char) : '\n' ∉ escaped c := by
  rcases Nat.lt_or_ge c.toNat 128 with hlt | hle
  · rw [← Char.ofNat_toNat c]
    generalize c.toNat = n at hlt
    interval_cases n <;> decide
  · rw [escaped_of_le hle, List.mem_singleton]
    rintro rfl
    exact absurd hle (by decide)

/-- It is one line, whatever the string. -/
theorem newline_notMem_optional (s : String) : '\n' ∉ (optional s).toList := by
  have hescaped : '\n' ∉ s.toList.flatMap escaped := by
    intro h
    obtain ⟨c, -, hc⟩ := List.mem_flatMap.1 h
    exact newline_notMem_escaped c hc
  simp only [optional, String.toList_append, String.toList_ofList, List.mem_append,
    List.mem_cons, not_or]
  refine ⟨⟨by decide, ⟨by decide, hescaped⟩, by decide, by simp⟩, by decide⟩

end Monujo
