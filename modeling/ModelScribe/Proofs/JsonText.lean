-- JSON texts read piece by piece. A string or a number is spelled in one of
-- its ways, and something that cannot belong to it follows; then the reader of
-- it hands back what was spelled and stops where that ends.
import ModelScribe.Json.Reader
import ModelScribe.Proofs.Spelling

namespace ModelScribe.Json

/-! ## The grammar -/

/-- The characters with an escape of their own, each with the letter of the escape. -/
def shortEscapes : List (Char × Char) :=
  [('"', '"'), ('\\', '\\'), ('/', '/'), ('\x08', 'b'), ('\x0c', 'f'), ('\n', 'n'), ('\r', 'r'),
    ('\t', 't')]

/-- An escape without its backslash: a letter, or one or two numbers of four hexadecimal
digits, of which two make a surrogate pair. -/
inductive SpellsEscape : Char → List Char → Prop
  | short {c e : Char} (h : (c, e) ∈ shortEscapes) : SpellsEscape c [e]
  | unit {c : Char} {ds : List Char} (hlength : ds.length = 4)
    (h : Text.digitsValue 16 ds = some c.toNat) : SpellsEscape c ('u' :: ds)
  | pair {c : Char} {ds ds' : List Char} {high low : Nat} (hlength : ds.length = 4)
    (hlength' : ds'.length = 4) (hhigh : Text.digitsValue 16 ds = some (0xD800 + high))
    (hlow : Text.digitsValue 16 ds' = some (0xDC00 + low)) (hhigh' : high < 0x400)
    (hlow' : low < 0x400) (h : c.toNat = 0x10000 + high * 0x400 + low) :
    SpellsEscape c ('u' :: (ds ++ '\\' :: 'u' :: ds'))

inductive SpellsChar : Char → List Char → Prop
  | plain {c : Char} (hquote : c ≠ '"') (hbackslash : c ≠ '\\') (h : 32 ≤ c.toNat) :
    SpellsChar c [c]
  | escape {c : Char} {cs : List Char} (h : SpellsEscape c cs) : SpellsChar c ('\\' :: cs)

/-- What JSON has of its own. -/
def grammar : Grammar where
  isBlank := isSpace
  isGap := isSpace
  sign := ':'
  isKeyChar := fun _ => false
  spellsChar := SpellsChar
  hasNull := true

theorem spellsChar_alphanum {c : Char} (h : c.isAlphanum) : SpellsChar c [c] := by
  have hcontrol : ∀ n < 32, (Char.ofNat n).isAlphanum = false := by decide
  refine .plain (fun hc => ?_) (fun hc => ?_) (Nat.not_lt.mp fun hc => ?_)
  · rw [hc] at h
    cases h
  · rw [hc] at h
    cases h
  · rw [← Char.ofNat_toNat c, hcontrol _ hc] at h
    cases h

/-! ## White space and words -/

variable {cs rest : List Char}

theorem skipSpace_append {gap : List Char} (h : ∀ c ∈ gap, isSpace c) :
    skipSpace (gap ++ cs) = skipSpace cs := List.dropWhile_append_of_pos h

theorem skipSpace_cons {c : Char} (h : isSpace c = false) : skipSpace (c :: cs) = c :: cs :=
  List.dropWhile_cons_of_neg (by simp [h])

theorem mem_delimiters_of_isSpace {c : Char} (h : isSpace c) : c ∈ delimiters := by
  simp only [isSpace, Bool.or_eq_true, decide_eq_true_eq] at h
  rcases h with ((rfl | rfl) | rfl) | rfl <;> decide

theorem isSpace_eq_false {c : Char} (h : c ∉ delimiters) : isSpace c = false :=
  Bool.eq_false_iff.mpr fun hc => h (mem_delimiters_of_isSpace hc)

@[simp] theorem skipSpace_skipSpace (cs : List Char) : skipSpace (skipSpace cs) = skipSpace cs := by
  induction cs with
  | nil => rfl
  | cons c cs ih =>
    by_cases hc : isSpace c
    · rw [show skipSpace (c :: cs) = skipSpace cs from List.dropWhile_cons_of_pos hc, ih]
    · rw [skipSpace_cons (Bool.eq_false_iff.mpr hc), skipSpace_cons (Bool.eq_false_iff.mpr hc)]

/-! ## Strings -/

theorem hexQuad_append {ds : List Char} {n : Nat} (hlength : ds.length = 4)
    (h : Text.digitsValue 16 ds = some n) : hexQuad (ds ++ rest) = .ok (n, rest) := by
  obtain ⟨a, b, c, d, rfl⟩ := List.length_eq_four.mp hlength
  simp [hexQuad, h]

/-- No character has the number of half a surrogate pair. -/
theorem not_surrogate (c : Char) : isLeading c.toNat = false ∧ isTrailing c.toNat = false := by
  have hvalid : c.toNat < 0xD800 ∨ 0xDFFF < c.toNat ∧ c.toNat < 0x110000 := c.valid
  constructor
  · simp only [isLeading, Bool.and_eq_false_iff, decide_eq_false_iff_not]
    omega
  · simp only [isTrailing, Bool.and_eq_false_iff, decide_eq_false_iff_not]
    omega

theorem escaped_append {c : Char} (h : SpellsEscape c cs) :
    escaped (cs ++ rest) = .ok (c, rest) := by
  cases h with
  | short h =>
    simp only [shortEscapes, List.mem_cons, Prod.mk.injEq, List.not_mem_nil, or_false] at h
    rcases h with ⟨rfl, rfl⟩ | ⟨rfl, rfl⟩ | ⟨rfl, rfl⟩ | ⟨rfl, rfl⟩ | ⟨rfl, rfl⟩ | ⟨rfl, rfl⟩
      | ⟨rfl, rfl⟩ | ⟨rfl, rfl⟩ <;> rfl
  | unit hlength h =>
    simp [escaped, hexQuad_append hlength h, Step.andThen, not_surrogate]
  | @pair _ _ high low hlength hlength' hhigh hlow hhigh' hlow' h =>
    have hleading : isLeading (0xD800 + high) = true := by
      simp only [isLeading, Bool.and_eq_true, decide_eq_true_eq]
      omega
    have hnot : isTrailing (0xD800 + high) = false := by
      simp only [isTrailing, Bool.and_eq_false_iff, decide_eq_false_iff_not]
      omega
    have htrailing : isTrailing (0xDC00 + low) = true := by
      simp only [isTrailing, Bool.and_eq_true, decide_eq_true_eq]
      omega
    have hjoin : joinPair (0xD800 + high) (0xDC00 + low) = c := by
      rw [joinPair, Nat.add_sub_cancel_left, Nat.add_sub_cancel_left,
        show high * 0x400 + low + 0x10000 = c.toNat by omega, Char.ofNat_toNat]
    simp [escaped, trailingHalf, hexQuad_append hlength hhigh, hexQuad_append hlength' hlow,
      Step.andThen, hnot, hleading, htrailing, hjoin]

/-- An escape that has been read is passed over. -/
theorem stringBody_covered (text cs rest : List Char) :
    stringBody text cs.length (cs ++ rest) = stringBody text 0 rest := by
  induction cs with
  | nil => rfl
  | cons c cs ih => simpa [stringBody] using ih

theorem stringBody_append {c : Char} (h : SpellsChar c cs) (text rest : List Char) :
    stringBody text 0 (cs ++ rest) = stringBody (c :: text) 0 rest := by
  cases h with
  | plain hquote hbackslash h =>
    simp [stringBody, hquote, hbackslash, Nat.not_lt.mpr h]
  | escape h =>
    rw [List.cons_append, stringBody]
    simp [escaped_append h, stringBody_covered]

theorem stringBody_pieces (pieces : List (Char × List Char))
    (h : ∀ p ∈ pieces, SpellsChar p.1 p.2) (text rest : List Char) :
    stringBody text 0 (pieces.flatMap (·.2) ++ '"' :: rest)
      = .ok (String.ofList (text.reverse ++ pieces.map (·.1)), rest) := by
  induction pieces generalizing text with
  | nil => simp [stringBody]
  | cons p pieces ih =>
    rw [List.flatMap_cons, List.append_assoc, stringBody_append (h p List.mem_cons_self),
      ih (fun q hq => h q (List.mem_cons_of_mem _ hq))]
    simp

/-! ## Numbers -/

theorem isDigit_of_bounds {c : Char} (h : '0' ≤ c ∧ c ≤ '9') : isDigit c = true := by
  simpa [isDigit] using h

theorem le_ofDigitChars (ds : List Char) (n : Nat) : n ≤ Nat.ofDigitChars 10 ds n := by
  induction ds generalizing n with
  | nil => simp
  | cons d ds ih =>
    rw [Nat.ofDigitChars_cons]
    exact Nat.le_trans (by omega) (ih _)

/-- Digits are taken in whole if what they stand for fits in 64 bits. -/
theorem absorb_eq (ds : List Char) (n : Nat) (h : Nat.ofDigitChars 10 ds n < 2 ^ 64) :
    absorb n ds = (Nat.ofDigitChars 10 ds n, []) := by
  induction ds generalizing n with
  | nil => rfl
  | cons d ds ih =>
    have hnext : n * 10 + digitValue d = 10 * n + (d.toNat - '0'.toNat) := by
      rw [Nat.mul_comm]
      rfl
    rw [Nat.ofDigitChars_cons] at h ⊢
    have hle := le_ofDigitChars ds (10 * n + (d.toNat - '0'.toNat))
    rw [absorb, hnext, if_pos (by omega), ih _ h]

variable {n : Nat}

theorem takeWhile_digits (hrest : Delimited rest) :
    (Nat.toDigits 10 n ++ rest).takeWhile isDigit = Nat.toDigits 10 n :=
  hrest.takeWhile_append (by decide) fun _ hc => isDigit_of_bounds (isDigit_of_mem_toDigits hc)

theorem dropWhile_digits (hrest : Delimited rest) :
    (Nat.toDigits 10 n ++ rest).dropWhile isDigit = rest :=
  hrest.dropWhile_append (by decide) fun _ hc => isDigit_of_bounds (isDigit_of_mem_toDigits hc)

theorem number_digits (negative : Bool) (hn : n < 2 ^ 64) (hrest : Delimited rest) :
    number negative (Nat.toDigits 10 n ++ rest) = .ok (integral negative n, rest) := by
  have habsorb : absorb 0 (Nat.toDigits 10 n) = (n, []) := by
    have hvalue := Nat.ofDigitChars_ten_toDigits (n := n)
    rw [absorb_eq _ _ (by omega), hvalue]
  unfold number
  simp only [takeWhile_digits hrest, dropWhile_digits hrest]
  split
  · rename_i h
    exact absurd h Nat.toDigits_ne_nil
  · rename_i h
    exact absurd h toDigits_ne_zero_cons_cons
  · simp only [habsorb]
    split
    · simp [delimiters] at hrest
    · simp [delimiters] at hrest
    · simp [delimiters] at hrest
    · rfl

/-! ## Passing over strings and numbers -/

theorem skipString_covered (cs rest : List Char) :
    skipString cs.length (cs ++ rest) = skipString 0 rest := by
  induction cs with
  | nil => rfl
  | cons c cs ih => simpa [skipString] using ih

/-- An escape ends where the reader of escapes says so. -/
theorem skipString_escape {cs rest : List Char} (h : skipEscape (cs ++ rest) = .ok rest) :
    skipString 0 ('\\' :: (cs ++ rest)) = skipString 0 rest := by
  rw [skipString]
  simp [h, skipString_covered]

theorem skipEscape_unit {ds : List Char} {n : Nat} (hlength : ds.length = 4)
    (h : Text.digitsValue 16 ds = some n) (rest : List Char) :
    skipEscape ('u' :: ds ++ rest) = .ok rest := by
  simp [skipEscape, hexQuad_append hlength h, Step.andThen]

/-! ## Keys -/

/-- Keys stand between quotes. -/
theorem quotes_of_spellsKey {s : String} (h : grammar.SpellsKey s cs) : grammar.Quotes s cs := by
  cases h with
  | quoted h => exact h
  | bare hne h =>
    obtain ⟨c, rest, hcs⟩ :=
      List.exists_cons_of_ne_nil (l := s.toList) (fun he => hne (String.toList_eq_nil_iff.mp he))
    have := h c (hcs ▸ List.mem_cons_self)
    simp [grammar] at this

theorem colon_append {gap : List Char} (hgap : ∀ c ∈ gap, isSpace c) (rest : List Char) :
    colon (gap ++ ':' :: rest) = .ok rest := by
  rw [colon, skipSpace_append hgap, skipSpace_cons rfl]
  rfl

end ModelScribe.Json
