-- TOML texts read piece by piece. As with JSON, each reader hands back what
-- was spelled and stops where that ends. White space is more involved here:
-- it may hold line breaks between the items of a list or a table and none
-- around the sign of an entry, and a comment would count as white space too.
import ModelScribe.Toml.Document
import ModelScribe.Proofs.Spelling

namespace ModelScribe.Toml

/-! ## The grammar -/

/-- The characters with an escape of their own, each with the letter of the escape. -/
def shortEscapes : List (Char × Char) :=
  [('\x08', 'b'), ('\t', 't'), ('\n', 'n'), ('\x0c', 'f'), ('\r', 'r'), ('\x1b', 'e'),
    ('"', '"'), ('\\', '\\')]

/-- The letters of the escapes by number, each with the count of its digits. -/
def codedEscapes : List (Char × Nat) := [('x', 2), ('u', 4), ('U', 8)]

/-- An escape without its backslash: a letter, or a letter and hexadecimal digits. -/
inductive SpellsEscape : Char → List Char → Prop
  | short {c e : Char} (h : (c, e) ∈ shortEscapes) : SpellsEscape c [e]
  | coded {c e : Char} {ds : List Char} (h : (e, ds.length) ∈ codedEscapes)
    (hvalue : Text.digitsValue 16 ds = some c.toNat) : SpellsEscape c (e :: ds)

inductive SpellsChar : Char → List Char → Prop
  | plain {c : Char} (hquote : c ≠ '"') (hbackslash : c ≠ '\\') (h : isControl c = false) :
    SpellsChar c [c]
  | escape {c : Char} {cs : List Char} (h : SpellsEscape c cs) : SpellsChar c ('\\' :: cs)

/-- White space between items, which may go on over lines. -/
def isGap (c : Char) : Bool := isSpace c || c = '\n'

/-- What TOML has of its own. -/
def grammar : Grammar where
  isBlank := isSpace
  isGap := isGap
  sign := '='
  isKeyChar := isKeyChar
  spellsChar := SpellsChar
  hasNull := false

/-! ## White space -/

variable {cs rest : List Char} {c : Char}

/-- Neither white space nor the beginning of a comment. -/
def isSolid (c : Char) : Bool := !(isGap c || c = '\r' || c = '#')

theorem mem_delimiters_of_isGap (h : isGap c) : c ∈ delimiters := by
  simp only [isGap, isSpace, Bool.or_eq_true, decide_eq_true_eq] at h
  rcases h with (rfl | rfl) | rfl <;> decide

theorem isGap_of_isSpace (h : isSpace c) : isGap c := by simp [isGap, h]

theorem isSpace_eq_false (h : isSolid c) : isSpace c = false := by
  rw [isSolid, Bool.not_eq_true', Bool.or_eq_false_iff, Bool.or_eq_false_iff, isGap,
    Bool.or_eq_false_iff] at h
  exact h.1.1.1

theorem isSolid_of_beginsWith {t : Tree} (h : t.BeginsWith c) : isSolid c := by
  have hdelimiters := h.not_mem_delimiters
  have hgap : isGap c = false :=
    Bool.eq_false_iff.mpr fun hc => hdelimiters (mem_delimiters_of_isGap hc)
  have hreturn : c ≠ '\r' := fun hc => hdelimiters (hc ▸ by decide)
  have hcomment : c ≠ '#' := h.ne (by cases t <;> simp [Tree.BeginsWith])
  simp [isSolid, hgap, hreturn, hcomment]

theorem skipSpace_append {gap : List Char} (h : ∀ c ∈ gap, isSpace c) :
    skipSpace (gap ++ cs) = skipSpace cs := List.dropWhile_append_of_pos h

theorem skipSpace_solid (h : isSolid c) : skipSpace (c :: cs) = c :: cs :=
  List.dropWhile_cons_of_neg (by simp [isSpace_eq_false h])

theorem skipLines_append {gap : List Char} (h : ∀ c ∈ gap, isGap c) :
    skipLines false (gap ++ cs) = skipLines false cs := by
  induction gap with
  | nil => rfl
  | cons c gap ih =>
    have hrest := ih fun d hd => h d (List.mem_cons_of_mem _ hd)
    have hc := h c List.mem_cons_self
    simp only [isGap, isSpace, Bool.or_eq_true, decide_eq_true_eq] at hc
    rcases hc with (rfl | rfl) | rfl <;> exact hrest

theorem skipLines_solid (h : isSolid c) : skipLines false (c :: cs) = some (c :: cs) := by
  simp only [isSolid, isGap, Bool.not_eq_true', Bool.or_eq_false_iff, decide_eq_false_iff_not] at h
  obtain ⟨⟨⟨hspace, hline⟩, hreturn⟩, hcomment⟩ := h
  rw [skipLines, if_neg hline, if_neg hreturn, if_neg (by decide), if_neg (by simp [hspace]),
    if_neg hcomment]

/-- The two ways to pass over what stands around the sign of an entry. -/
def IsGapReader (gap : List Char → Option (List Char)) : Prop :=
  ∀ blanks c cs, (∀ d ∈ blanks, isSpace d) → isSolid c → gap (blanks ++ c :: cs) = some (c :: cs)

theorem isGapReader_skipLines : IsGapReader (skipLines false) := fun _ _ _ hblanks hc => by
  rw [skipLines_append fun d hd => isGap_of_isSpace (hblanks d hd), skipLines_solid hc]

theorem isGapReader_skipSpace : IsGapReader (some ∘ skipSpace) := fun _ _ _ hblanks hc => by
  rw [Function.comp_apply, skipSpace_append hblanks, skipSpace_solid hc]

/-! ## Strings -/

theorem codedChar_append {ds : List Char} (h : Text.digitsValue 16 ds = some c.toNat) :
    codedChar ds.length (ds ++ rest) = some (c, rest) := by
  have hchar : Text.numberedChar c.toNat = some c := by
    rw [Text.numberedChar, if_pos (show c.toNat.isValidChar from c.valid), Char.ofNat_toNat]
  simp [codedChar, h, hchar]

theorem escaped_append (h : SpellsEscape c cs) : escaped (cs ++ rest) = some (c, rest) := by
  cases h with
  | short h =>
    simp only [shortEscapes, List.mem_cons, Prod.mk.injEq, List.not_mem_nil, or_false] at h
    rcases h with ⟨rfl, rfl⟩ | ⟨rfl, rfl⟩ | ⟨rfl, rfl⟩ | ⟨rfl, rfl⟩ | ⟨rfl, rfl⟩ | ⟨rfl, rfl⟩
      | ⟨rfl, rfl⟩ | ⟨rfl, rfl⟩ <;> rfl
  | @coded _ ds h hvalue =>
    have hcoded : codedChar ds.length (ds ++ rest) = some (c, rest) := codedChar_append hvalue
    simp only [codedEscapes, List.mem_cons, Prod.mk.injEq, List.not_mem_nil, or_false] at h
    rcases h with ⟨rfl, hlength⟩ | ⟨rfl, hlength⟩ | ⟨rfl, hlength⟩ <;>
      rwa [hlength] at hcoded

/-- An escape that has been read is passed over. -/
theorem lineString_covered (text cs rest : List Char) :
    lineString '"' true text cs.length (cs ++ rest) = lineString '"' true text 0 rest := by
  induction cs with
  | nil => rfl
  | cons c cs ih => simpa [lineString] using ih

theorem lineString_append (h : SpellsChar c cs) (text rest : List Char) :
    lineString '"' true text 0 (cs ++ rest) = lineString '"' true (c :: text) 0 rest := by
  cases h with
  | plain hquote hbackslash h => simp [lineString, hquote, hbackslash, h]
  | escape h =>
    rw [List.cons_append, lineString]
    simp [escaped_append h, lineString_covered]

theorem lineString_pieces (pieces : List (Char × List Char))
    (h : ∀ p ∈ pieces, SpellsChar p.1 p.2) (text rest : List Char) :
    lineString '"' true text 0 (pieces.flatMap (·.2) ++ '"' :: rest)
      = some (String.ofList (text.reverse ++ pieces.map (·.1)), rest) := by
  induction pieces generalizing text with
  | nil => simp [lineString]
  | cons p pieces ih =>
    rw [List.flatMap_cons, List.append_assoc, lineString_append (h p List.mem_cons_self),
      ih (fun q hq => h q (List.mem_cons_of_mem _ hq))]
    simp

theorem spellsChar_atomChar (h : isAtomChar c) : SpellsChar c [c] := by
  have hcontrol : ∀ n < 128, isControl (Char.ofNat n) → isAtomChar (Char.ofNat n) = false := by
    decide
  refine .plain (fun hc => ?_) (fun hc => ?_) (Bool.eq_false_iff.mpr fun hc => ?_)
  · rw [hc] at h
    cases h
  · rw [hc] at h
    cases h
  · have hlt : c.toNat < 128 := by
      simp only [isControl, Bool.or_eq_true, Bool.and_eq_true, decide_eq_true_eq] at hc
      omega
    have hatom := hcontrol c.toNat hlt
    rw [Char.ofNat_toNat, h] at hatom
    cases hatom hc

/-- A quote is never spelled by itself. -/
theorem SpellsChar.exists_cons (h : SpellsChar c cs) : ∃ d ds, cs = d :: ds ∧ d ≠ '"' := by
  cases h with
  | plain hquote => exact ⟨_, _, rfl, hquote⟩
  | escape => exact ⟨_, _, rfl, by decide⟩

/-- A string is read as what it spells. Only an empty string has two quotes in front, and no
third one follows where it ends. -/
theorem quotes_body {s : String} (h : grammar.Quotes s cs) :
    ∃ body, cs = '"' :: body ∧
      (∀ rest, lineString '"' true [] 0 (body ++ rest) = some (s, rest)) ∧
      ∀ rest, Delimited rest → ∀ more, body ++ rest ≠ '"' :: '"' :: more := by
  cases h with
  | intro pieces h =>
    refine ⟨_, rfl, fun rest => ?_, fun rest hrest more => ?_⟩
    · rw [List.append_assoc]
      exact lineString_pieces pieces h [] rest
    · cases pieces with
      | nil =>
        intro heq
        rw [show rest = '"' :: more from (List.cons.inj heq).2] at hrest
        exact absurd ((delimited_cons ..).mp hrest) (by decide)
      | cons p pieces =>
        obtain ⟨d, ds, hp, hd⟩ := (h p List.mem_cons_self).exists_cons
        simp [hp, hd]

/-! ## Keys -/

/-- The characters that end a word without quotes. -/
def wordEnds : List Char :=
  [' ', '\t', '\n', '\r', '#', '.', '=', ',', '[', ']', '\x7b', '\x7d']

theorem not_endsWord (h : isKeyChar c) : endsWord c = false := by
  have hnone : wordEnds.all (!isKeyChar ·) = true := by decide
  refine Bool.eq_false_iff.mpr fun hc => ?_
  have hmem : c ∈ wordEnds := by simpa [wordEnds, endsWord, isSpace, or_assoc] using hc
  simpa [h] using List.all_eq_true.mp hnone c hmem

theorem isSolid_of_isKeyChar (h : isKeyChar c) : isSolid c := by
  have hend := not_endsWord h
  simp only [endsWord, Bool.or_eq_false_iff] at hend
  simp [isSolid, isGap, hend]

/-- A key begins with a quote or with one of its own characters, and so does no white space. -/
theorem keyText_cons {s : String} (h : grammar.SpellsKey s cs) :
    ∃ c tail, cs = c :: tail ∧ isSolid c ∧ c ≠ '[' ∧ c ≠ '\x7d' ∧ c ≠ '\ufeff' := by
  cases h with
  | quoted h =>
    obtain ⟨body, rfl, -⟩ := quotes_body h
    exact ⟨_, _, rfl, by decide⟩
  | bare hne h =>
    obtain ⟨c, tail, hcs⟩ :=
      List.exists_cons_of_ne_nil (l := s.toList) fun he => hne (String.toList_eq_nil_iff.mp he)
    have hc : isKeyChar c := h c (hcs ▸ List.mem_cons_self)
    refine ⟨c, tail, hcs, isSolid_of_isKeyChar hc, ?_, ?_, ?_⟩ <;>
      (rintro rfl; exact absurd hc (by decide))

theorem simpleKey_spelled {s : String} (h : grammar.SpellsKey s cs)
    (hrest : ∀ c ∈ rest.head?, endsWord c) :
    simpleKey (cs ++ rest) = .ok ({ name := s, extent := ⟨cs ++ rest, rest⟩ }, rest) := by
  cases h with
  | quoted h =>
    obtain ⟨body, rfl, hbody, -⟩ := quotes_body h
    simp [simpleKey, hbody, orFault, Except.map]
  | bare hne h =>
    have hne' : s.toList ≠ [] := fun he => hne (String.toList_eq_nil_iff.mp he)
    have hword : ∀ c ∈ s.toList, (!endsWord c) = true := fun c hc => by
      simp [not_endsWord (h c hc)]
    have hstop : ∀ c ∈ rest.head?, (!endsWord c) = false := fun c hc => by simp [hrest c hc]
    have hall : s.toList.all isKeyChar = true := List.all_eq_true.mpr h
    unfold simpleKey
    split
    case h_3 =>
      simp [takeWhile_append_stop hword hstop, dropWhile_append_stop hword hstop, hne', hall]
    all_goals
      rename_i heq
      obtain ⟨c, tail, hcs⟩ := List.exists_cons_of_ne_nil hne'
      have hc : isKeyChar c := h c (hcs ▸ List.mem_cons_self)
      rw [hcs, List.cons_append] at heq
      obtain rfl := (List.cons.inj heq).1
      exact absurd hc (by decide)

/-- The key of a member is read with the white space behind it. -/
theorem key_spelled {m : Member} (hm : grammar.Names m) (rest : List Char) :
    ∃ extent, key maxParts (m.keyText ++ (m.beforeSign ++ '=' :: rest))
      = .ok (([], { name := m.key, extent }), '=' :: rest) := by
  obtain ⟨c, tail, hkey, hc, -⟩ := keyText_cons hm.key
  have hend : ∀ c ∈ (m.beforeSign ++ '=' :: rest).head?, endsWord c := by
    cases hbefore : m.beforeSign with
    | nil => simp [endsWord]
    | cons d ds =>
      have hd : isSpace d := hm.before d (hbefore ▸ List.mem_cons_self)
      simp [endsWord, hd]
  have hstart : skipSpace (m.keyText ++ (m.beforeSign ++ '=' :: rest))
      = m.keyText ++ (m.beforeSign ++ '=' :: rest) := by
    rw [hkey, List.cons_append, skipSpace_solid hc]
  have hsign : skipSpace (m.beforeSign ++ '=' :: rest) = '=' :: rest := by
    rw [skipSpace_append hm.before, skipSpace_solid (by decide)]
  refine ⟨⟨m.keyText ++ (m.beforeSign ++ '=' :: rest), m.beforeSign ++ '=' :: rest⟩, ?_⟩
  rw [maxParts, key, hstart, simpleKey_spelled hm.key hend]
  simp only [bind, Except.bind, hsign]
  rfl

/-! ## Words and numbers -/

theorem digitValue_digit (h : '0' ≤ c ∧ c ≤ '9') :
    Text.digitValue 10 c = some (c.toNat - '0'.toNat) := by
  have hlt : c.toNat - 48 < 10 := by
    have : c.toNat ≤ '9'.toNat := h.2
    have : '9'.toNat = 57 := rfl
    omega
  rw [Text.digitValue, if_pos h, if_pos hlt]
  rfl

theorem foldlM_digits {ds : List Char} (h : ∀ c ∈ ds, '0' ≤ c ∧ c ≤ '9') (n : Nat) :
    ds.foldlM (fun n c => (Text.digitValue 10 c).map (n * 10 + ·)) n
      = some (Nat.ofDigitChars 10 ds n) := by
  induction ds generalizing n with
  | nil => rfl
  | cons d ds ih =>
    rw [List.foldlM_cons, digitValue_digit (h d List.mem_cons_self), Nat.ofDigitChars_cons,
      ← ih (fun c hc => h c (List.mem_cons_of_mem _ hc)), Nat.mul_comm 10]
    rfl

theorem digitsValue_toDigits (n : Nat) : Text.digitsValue 10 (Nat.toDigits 10 n) = some n := by
  rw [Text.digitsValue, foldlM_digits fun _ hc => isDigit_of_mem_toDigits hc,
    Nat.ofDigitChars_ten_toDigits]

theorem plainDigits_digits {ds : List Char} (hne : ds ≠ []) (h : ∀ c ∈ ds, '0' ≤ c ∧ c ≤ '9') :
    plainDigits 10 ds = some ds := by
  induction ds with
  | nil => exact absurd rfl hne
  | cons d ds ih =>
    have hd := digitValue_digit (h d List.mem_cons_self)
    cases ds with
    | nil => simp [plainDigits, hd]
    | cons e ds =>
      have he : e ≠ '_' := by
        rintro rfl
        exact absurd (h '_' (by simp)) (by decide)
      rw [plainDigits, hd, ih (by simp) fun c hc => h c (List.mem_cons_of_mem _ hc)]
      · rfl
      · simp
      · rintro rest heq
        exact he (List.cons.inj heq).1

theorem wholeDigits_toDigits (n : Nat) :
    wholeDigits (Nat.toDigits 10 n) = some (Nat.toDigits 10 n) := by
  rw [wholeDigits, plainDigits_digits Nat.toDigits_ne_nil fun _ hc => isDigit_of_mem_toDigits hc]
  split
  · rename_i heq
    exact absurd (Option.some.inj heq) toDigits_ne_zero_cons_cons
  · rfl

/-- An integer is written with digits behind a minus sign or without one. -/
theorem mem_repr {z : Int} (h : c ∈ (Int.repr z).toList) : c = '-' ∨ '0' ≤ c ∧ c ≤ '9' := by
  rw [digits_repr, List.mem_append] at h
  rcases h with h | h
  · split at h
    · exact Or.inl (List.mem_singleton.mp h)
    · simp at h
  · exact Or.inr (isDigit_of_mem_toDigits h)

theorem splitSign_toDigits (n : Nat) :
    splitSign (Nat.toDigits 10 n) = (false, Nat.toDigits 10 n) := by
  unfold splitSign
  split
  case h_3 => rfl
  all_goals
    rename_i heq
    have hsign := isDigit_of_mem_toDigits (heq ▸ List.mem_cons_self)
    exact absurd hsign (by decide)

theorem splitSign_repr (z : Int) :
    splitSign (Int.repr z).toList = (decide (z < 0), Nat.toDigits 10 z.natAbs) := by
  rw [digits_repr]
  by_cases hneg : z < 0
  · simp [hneg, splitSign]
  · simp [hneg, splitSign_toDigits]

/-- The letter of a base never stands behind a first zero. -/
theorem repr_ne_zero_cons_cons (z : Int) : (Int.repr z).toList ≠ '0' :: c :: cs := by
  rw [digits_repr]
  split
  · exact fun heq => absurd (List.cons.inj heq).1 (by decide)
  · exact toDigits_ne_zero_cons_cons

theorem integer_repr (z : Int) : integer (Int.repr z).toList = some (.integer z) := by
  unfold integer
  split
  case h_4 =>
    simp only [splitSign_repr, wholeDigits_toDigits, Option.bind_some, digitsValue_toDigits,
      decide_eq_true_eq]
    change some (Value.integer (if z < 0 then -(z.natAbs : Int) else z.natAbs)) = some (.integer z)
    rw [show (if z < 0 then -(z.natAbs : Int) else z.natAbs) = z by split <;> omega]
  all_goals
    rename_i heq
    exact absurd heq (repr_ne_zero_cons_cons z)

/-- No integer is a word of letters. -/
theorem repr_ne_word {z : Int} {w : List Char}
    (h : w.all (fun c => c = '-' || ('0' ≤ c && c ≤ '9')) = false) : (Int.repr z).toList ≠ w := by
  intro heq
  have hall : (Int.repr z).toList.all (fun c => c = '-' || ('0' ≤ c && c ≤ '9')) = true :=
    List.all_eq_true.mpr fun c hc => by simpa using mem_repr hc
  rw [heq, h] at hall
  cases hall

theorem atom_repr (z : Int) : atom (Int.repr z).toList = some (.integer z) := by
  rw [atom, if_neg (repr_ne_word (by decide)), if_neg (repr_ne_word (by decide)), integer_repr]
  rfl

theorem isAtomChar_of_mem_repr {z : Int} (h : c ∈ (Int.repr z).toList) : isAtomChar c := by
  rcases mem_repr h with rfl | hdigit
  · decide
  · have : c.isDigit = true := by simpa [Char.isDigit, Char.le_def] using hdigit
    simp [isAtomChar, Char.isAlphanum, this]

/-- A date has a dash behind its year. -/
theorem date_eq_none (h : '-' ∉ cs.drop 4) : date cs = none := by
  have hdash : after '-' (cs.drop 4) = none := by
    cases hdrop : cs.drop 4 with
    | nil => rfl
    | cons c rest =>
      have hc : c ≠ '-' := fun he => h (hdrop ▸ he ▸ List.mem_cons_self)
      simp [after, hc]
  unfold date fixedDigits
  split
  · rfl
  · cases Text.digitsValue 10 (cs.take 4) <;> simp [hdash]

theorem dash_not_mem_drop_repr (z : Int) : '-' ∉ (Int.repr z).toList.drop 4 := by
  have hdigits : '-' ∉ Nat.toDigits 10 z.natAbs := fun h =>
    absurd (isDigit_of_mem_toDigits h) (by decide)
  rw [digits_repr]
  split
  · exact fun h => hdigits (List.mem_of_mem_drop (i := 3) h)
  · exact fun h => hdigits (List.mem_of_mem_drop h)

/-- An unquoted word that is no date ends before a delimiter. -/
theorem atomValue_append {v : Value} (hcs : ∀ c ∈ cs, isAtomChar c) (hdate : date cs = none)
    (h : atom cs = some v) (hrest : Delimited rest) : atomValue (cs ++ rest) = some (v, rest) := by
  have hword := hrest.takeWhile_append (p := isAtomChar) (by decide) hcs
  have hafter := hrest.dropWhile_append (p := isAtomChar) (by decide) hcs
  unfold atomValue
  simp only [hword, hafter, hdate, h]
  cases rest with
  | nil => rfl
  | cons c rest =>
    by_cases hc : c = ' ' <;> simp [hc]

end ModelScribe.Toml
