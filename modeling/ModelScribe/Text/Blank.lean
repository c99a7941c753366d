-- Blank text. A text is blank when it holds nothing but white space, and
-- every part of the generator treats a blank text as an absent one. White
-- space is the Unicode property of that name: 25 characters, neither more
-- (no zero-width space, no byte order mark) nor fewer (U+0085 and U+3000
-- count).

namespace ModelScribe.Text

/-! ## White space -/

/-- The characters with the Unicode property `White_Space`. -/
def isSpace (c : Char) : Bool :=
  let n := c.toNat
  (9 ≤ n && n ≤ 13) || n == 0x20 || n == 0x85 || n == 0xA0 || n == 0x1680
    || (0x2000 ≤ n && n ≤ 0x200A) || n == 0x2028 || n == 0x2029 || n == 0x202F
    || n == 0x205F || n == 0x3000

/-! ## Blank texts -/

/-- Nothing but white space, or nothing at all. -/
def isBlank (s : String) : Bool := s.toList.all isSpace

/-- An optional text counts only when it is there and not blank. -/
def nonBlank (s : Option String) : Option String := s.filter (!isBlank ·)

/-- The characters without the white space at their two ends. -/
def trimChars (cs : List Char) : List Char :=
  ((cs.dropWhile isSpace).reverse.dropWhile isSpace).reverse

/-- The text without the white space at its two ends. -/
def trim (s : String) : String := String.ofList (trimChars s.toList)

@[simp] theorem isBlank_empty : isBlank "" = true := rfl

@[simp] theorem isBlank_append (s t : String) : isBlank (s ++ t) = (isBlank s && isBlank t) := by
  simp [isBlank, String.toList_append, List.all_append]

theorem nonBlank_eq_some {s : Option String} {t : String} :
    nonBlank s = some t ↔ s = some t ∧ isBlank t = false := by
  simp [nonBlank, Option.filter_eq_some_iff]

end ModelScribe.Text
