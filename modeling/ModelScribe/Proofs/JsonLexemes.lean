-- The lexemes of JSON in full: strings with any escapes and numbers of any
-- size, as the standard allows them. What is written is read, or passed over,
-- to its end; and what is read or passed over was written. What a lexeme
-- denotes does not depend on the text that follows it.
import ModelScribe.Proofs.JsonText

namespace ModelScribe.Json

variable {cs rest : List Char}

/-! ## Strings -/

/-- An escape without its backslash, which may state half a surrogate pair. -/
inductive IsEscape : List Char → Prop
  | short {e : Char} (h : e ∈ shortEscapes.map (·.2)) : IsEscape [e]
  | unit {ds : List Char} {n : Nat} (hlength : ds.length = 4)
    (h : Text.digitsValue 16 ds = some n) : IsEscape ('u' :: ds)

/-- What may stand between the quotes of a string. -/
inductive IsBody : List Char → Prop
  | nil : IsBody []
  | plain {c : Char} {cs : List Char} (hquote : c ≠ '"') (hbackslash : c ≠ '\\')
    (hcontrol : 32 ≤ c.toNat) (h : IsBody cs) : IsBody (c :: cs)
  | escape {es cs : List Char} (hes : IsEscape es) (h : IsBody cs) : IsBody ('\\' :: (es ++ cs))

theorem skipEscape_append (h : IsEscape cs) : skipEscape (cs ++ rest) = .ok rest := by
  cases h with
  | @short e h =>
    have hletters : (shortEscapes.map (·.2)).all fun e =>
        e != 'u' && ['"', '\\', '/', 'b', 'f', 'n', 'r', 't'].contains e := by decide
    obtain ⟨hu, hmem⟩ := Bool.and_eq_true_iff.mp (List.all_eq_true.mp hletters e h)
    rw [List.singleton_append, skipEscape, if_pos hmem]
    exact bne_iff_ne.mp hu
  | unit hlength h => exact skipEscape_unit hlength h rest

theorem skipString_body (h : IsBody cs) : skipString 0 (cs ++ '"' :: rest) = .ok rest := by
  induction h with
  | nil => simp [skipString]
  | plain hquote hbackslash hcontrol _ ih =>
    simpa [skipString, hquote, hbackslash, Nat.not_lt.mpr hcontrol] using ih
  | escape hes _ ih =>
    rw [List.cons_append, List.append_assoc, skipString_escape (skipEscape_append hes), ih]

theorem hexQuad_eq_ok {n : Nat} (h : hexQuad cs = .ok (n, rest)) :
    ∃ ds, ds.length = 4 ∧ Text.digitsValue 16 ds = some n ∧ cs = ds ++ rest := by
  unfold hexQuad at h
  split at h
  · split at h
    · rename_i a b c d tail _ n' hdigits
      cases h
      exact ⟨[a, b, c, d], rfl, hdigits, rfl⟩
    · cases h
  · split at h <;> cases h

theorem skipEscape_eq_ok (h : skipEscape cs = .ok rest) : ∃ es, IsEscape es ∧ cs = es ++ rest := by
  unfold skipEscape at h
  split at h
  · cases h
  · rename_i tail
    cases hquad : hexQuad tail with
    | error fault =>
      rw [hquad] at h
      cases h
    | ok p =>
      obtain ⟨n, after⟩ := p
      rw [hquad] at h
      cases h
      obtain ⟨ds, hlength, hdigits, rfl⟩ := hexQuad_eq_ok hquad
      exact ⟨_, .unit hlength hdigits, rfl⟩
  · split at h
    · rename_i e tail _ hmem
      cases h
      exact ⟨[e], .short (by simpa [shortEscapes] using hmem), rfl⟩
    · cases h

/-- What is passed over as a string is one. -/
theorem skipString_eq_ok (h : skipString 0 cs = .ok rest) :
    ∃ body, IsBody body ∧ cs = body ++ '"' :: rest := by
  induction hn : cs.length using Nat.strongRecOn generalizing cs with
  | ind n ih =>
    subst hn
    cases cs with
    | nil => cases h
    | cons c cs =>
      rw [skipString] at h
      split_ifs at h with hquote hbackslash hcontrol
      · cases h
        exact ⟨[], .nil, by rw [hquote]; rfl⟩
      · subst hbackslash
        cases hescape : skipEscape cs with
        | error fault =>
          rw [hescape] at h
          cases h
        | ok after =>
          obtain ⟨es, hes, rfl⟩ := skipEscape_eq_ok hescape
          simp only [hescape, List.length_append, Nat.add_sub_cancel, skipString_covered] at h
          have hshorter : after.length < ('\\' :: (es ++ after)).length := by
            rw [List.length_cons, List.length_append]
            omega
          obtain ⟨body, hbody, rfl⟩ := ih after.length hshorter h rfl
          exact ⟨_, .escape hes hbody, by simp⟩
      · cases h
      · obtain ⟨body, hbody, rfl⟩ := ih cs.length (by simp) h rfl
        exact ⟨_, .plain hquote hbackslash (Nat.not_lt.mp hcontrol) hbody, rfl⟩

/-! ## What a string denotes -/

theorem andThen_eq_ok {α β : Type} {step : Step α} {next : α → List Char → Except Failure β}
    {b : β} (h : step.andThen next = .ok b) :
    ∃ a rest, step = .ok (a, rest) ∧ next a rest = .ok b := by
  cases step with
  | error fault => cases h
  | ok p => exact ⟨p.1, p.2, rfl, h⟩

theorem digitsValue_lt {ds : List Char} {n : Nat} (hlength : ds.length = 4)
    (h : Text.digitsValue 16 ds = some n) : n < 0x10000 := by
  obtain ⟨a, b, c, d, rfl⟩ := List.length_eq_four.mp hlength
  have hdigit : ∀ {c : Char} {v : Nat}, Text.digitValue 16 c = some v → v < 16 := by
    intro c v hv
    rw [Text.digitValue, Option.ite_none_right_eq_some] at hv
    exact Option.some.inj hv.2 ▸ hv.1
  simp only [Text.digitsValue, List.foldlM_cons, List.foldlM_nil, Option.bind_eq_bind,
    Option.bind_eq_some_iff, Option.map_eq_some_iff, Option.pure_def, Option.some.injEq] at h
  obtain ⟨_, ⟨v₁, h₁, rfl⟩, _, ⟨v₂, h₂, rfl⟩, _, ⟨v₃, h₃, rfl⟩, _, ⟨v₄, h₄, rfl⟩, rfl⟩ := h
  have := hdigit h₁
  have := hdigit h₂
  have := hdigit h₃
  have := hdigit h₄
  omega

theorem toNat_ofNat {n : Nat} (h : n.isValidChar) : (Char.ofNat n).toNat = n := by
  rw [Char.ofNat, dif_pos h]
  rfl

theorem trailingHalf_eq_ok {leading : Nat} {c : Char}
    (h : trailingHalf leading cs = .ok (c, rest)) :
    ∃ ds trailing, ds.length = 4 ∧ Text.digitsValue 16 ds = some trailing ∧ isTrailing trailing ∧
      c = joinPair leading trailing ∧ cs = '\\' :: 'u' :: (ds ++ rest) := by
  unfold trailingHalf at h
  split at h
  · cases h
  · obtain ⟨trailing, after, hquad, h⟩ := andThen_eq_ok h
    split at h
    · rename_i htrailing
      simp only [Except.ok.injEq, Prod.mk.injEq] at h
      obtain ⟨rfl, rfl⟩ := h
      obtain ⟨ds, hlength, hdigits, rfl⟩ := hexQuad_eq_ok hquad
      exact ⟨ds, trailing, hlength, hdigits, htrailing, rfl, rfl⟩
    · cases h
  all_goals cases h

theorem escaped_eq_ok {c : Char} (h : escaped cs = .ok (c, rest)) :
    ∃ es, SpellsEscape c es ∧ cs = es ++ rest := by
  unfold escaped at h
  split at h
  case h_10 =>
    obtain ⟨n, after, hquad, hchar⟩ := andThen_eq_ok h
    obtain ⟨ds, hlength, hdigits, rfl⟩ := hexQuad_eq_ok hquad
    have hn := digitsValue_lt hlength hdigits
    split_ifs at hchar with htrailing hleading
    · cases hchar
    · obtain ⟨ds', trailing, hlength', hdigits', htrailing', hc, hafter⟩ :=
        trailingHalf_eq_ok hchar
      subst hafter
      simp only [isLeading, isTrailing, Bool.and_eq_true, decide_eq_true_eq] at hleading htrailing'
      obtain ⟨high, rfl⟩ := Nat.exists_eq_add_of_le hleading.1
      obtain ⟨low, rfl⟩ := Nat.exists_eq_add_of_le htrailing'.1
      refine ⟨_, .pair hlength hlength' hdigits hdigits' (by omega) (by omega) ?_, by simp⟩
      rw [hc, joinPair, Nat.add_sub_cancel_left, Nat.add_sub_cancel_left,
        toNat_ofNat (by simp only [Nat.isValidChar]; omega)]
      omega
    · simp only [Except.ok.injEq, Prod.mk.injEq] at hchar
      obtain ⟨rfl, rfl⟩ := hchar
      simp only [isLeading, isTrailing, Bool.and_eq_true, decide_eq_true_eq, not_and, Nat.not_lt]
        at hleading htrailing
      refine ⟨_, .unit hlength ?_, rfl⟩
      rw [hdigits, toNat_ofNat (by simp only [Nat.isValidChar]; omega)]
  case h_1 => cases h
  case h_11 => cases h
  all_goals
    cases h
    exact ⟨[_], .short (by decide), rfl⟩

/-- The ways in which a character is written are parts of strings. -/
theorem SpellsChar.isBody {c : Char} {piece : List Char} (h : SpellsChar c piece)
    (hcs : IsBody cs) : IsBody (piece ++ cs) := by
  cases h with
  | plain hquote hbackslash hcontrol => exact .plain hquote hbackslash hcontrol hcs
  | escape h =>
    cases h with
    | short h => exact .escape (.short (List.mem_map_of_mem h)) hcs
    | unit hlength h => exact .escape (.unit hlength h) hcs
    | pair hlength hlength' hhigh hlow =>
      have hbody := IsBody.escape (.unit hlength hhigh) (.escape (.unit hlength' hlow) hcs)
      simpa using hbody

theorem isBody_pieces {pieces : List (Char × List Char)} (h : ∀ p ∈ pieces, SpellsChar p.1 p.2) :
    IsBody (pieces.flatMap (·.2)) := by
  induction pieces with
  | nil => exact .nil
  | cons p pieces ih =>
    obtain ⟨hp, h⟩ := List.forall_mem_cons.mp h
    exact hp.isBody (ih h)

/-- A string that is read is spelled character by character. -/
theorem stringBody_eq_ok {text : List Char} {s : String}
    (h : stringBody text 0 cs = .ok (s, rest)) :
    ∃ pieces : List (Char × List Char), (∀ p ∈ pieces, SpellsChar p.1 p.2) ∧
      cs = pieces.flatMap (·.2) ++ '"' :: rest ∧
      s = String.ofList (text.reverse ++ pieces.map (·.1)) := by
  induction hn : cs.length using Nat.strongRecOn generalizing cs text with
  | ind n ih =>
    subst hn
    cases cs with
    | nil => cases h
    | cons c cs =>
      rw [stringBody] at h
      split_ifs at h with hquote hbackslash hcontrol
      · cases h
        exact ⟨[], List.forall_mem_nil _, by rw [hquote]; rfl, by simp⟩
      · subst hbackslash
        cases hescape : escaped cs with
        | error fault =>
          rw [hescape] at h
          cases h
        | ok p =>
          obtain ⟨x, after⟩ := p
          obtain ⟨es, hes, rfl⟩ := escaped_eq_ok hescape
          simp only [hescape, List.length_append, Nat.add_sub_cancel, stringBody_covered] at h
          have hshorter : after.length < ('\\' :: (es ++ after)).length := by
            rw [List.length_cons, List.length_append]
            omega
          obtain ⟨pieces, hpieces, rfl, rfl⟩ := ih after.length hshorter h rfl
          exact ⟨(x, '\\' :: es) :: pieces, List.forall_mem_cons.mpr ⟨.escape hes, hpieces⟩,
            by simp, by simp⟩
      · cases h
      · obtain ⟨pieces, hpieces, rfl, rfl⟩ := ih cs.length (by simp) h rfl
        exact ⟨(c, [c]) :: pieces, List.forall_mem_cons.mpr
          ⟨.plain hquote hbackslash (Nat.not_lt.mp hcontrol), hpieces⟩, by simp, by simp⟩

theorem string_eq_ok {s : String} (h : string cs = .ok (s, rest)) :
    ∃ body, IsBody body ∧ cs = body ++ '"' :: rest ∧
      ∀ after, string (body ++ '"' :: after) = .ok (s, after) := by
  obtain ⟨pieces, hpieces, rfl, rfl⟩ := stringBody_eq_ok h
  exact ⟨_, isBody_pieces hpieces, rfl, stringBody_pieces pieces hpieces []⟩

/-- What the text between quotes denotes: nothing, if half a surrogate pair stands alone. -/
def denoted (body : List Char) : Option String := (string (body ++ ['"'])).toOption.map (·.1)

/-- Two strings at the start of a text end at the same quote. -/
theorem body_unique {body body' rest' : List Char} (h : IsBody body) (h' : IsBody body')
    (heq : body ++ '"' :: rest = body' ++ '"' :: rest') : body = body' ∧ rest = rest' := by
  have hskip : skipString 0 (body ++ '"' :: rest) = .ok rest' := heq ▸ skipString_body h'
  rw [skipString_body h] at hskip
  cases hskip
  exact ⟨List.append_cancel_right heq, rfl⟩

/-- What a string denotes does not depend on what follows it. -/
theorem string_body (h : IsBody cs) (rest : List Char) :
    (string (cs ++ '"' :: rest)).toOption = (denoted cs).map (·, rest) := by
  have hok {s : String} {after left : List Char}
      (hs : string (cs ++ '"' :: after) = .ok (s, left)) :
      left = after ∧ ∀ after, string (cs ++ '"' :: after) = .ok (s, after) := by
    obtain ⟨body, hbody, heq, hread⟩ := string_eq_ok hs
    obtain ⟨rfl, rfl⟩ := body_unique h hbody heq
    exact ⟨rfl, hread⟩
  rw [denoted]
  cases hshort : string (cs ++ ['"']) with
  | ok p => rw [(hok hshort).2 rest]; rfl
  | error fault =>
    cases hlong : string (cs ++ '"' :: rest) with
    | error fault => rfl
    | ok p =>
      rw [(hok hlong).2 []] at hshort
      cases hshort

/-! ## Numbers -/

/-- Digits, at least one. -/
def IsDigits (cs : List Char) : Prop := cs ≠ [] ∧ ∀ c ∈ cs, isDigit c

/-- A point with digits behind it, or nothing. -/
inductive IsFraction : List Char → Prop
  | none : IsFraction []
  | some {ds : List Char} (h : IsDigits ds) : IsFraction ('.' :: ds)

/-- An exponent with or without a sign, or nothing. -/
inductive IsExponent : List Char → Prop
  | none : IsExponent []
  | some {e : Char} {sign ds : List Char} (he : e = 'e' ∨ e = 'E')
    (hsign : sign ∈ [[], ['+'], ['-']]) (h : IsDigits ds) : IsExponent (e :: (sign ++ ds))

/-- A number behind its sign. No zero stands before other digits. -/
inductive IsMagnitude : List Char → Prop
  | intro {whole fraction exponent : List Char} (hwhole : IsDigits whole)
    (hzero : ∀ c ds, whole ≠ '0' :: c :: ds) (hfraction : IsFraction fraction)
    (hexponent : IsExponent exponent) : IsMagnitude (whole ++ (fraction ++ exponent))

theorem IsMagnitude.exists_cons (h : IsMagnitude cs) : ∃ d ds, cs = d :: ds ∧ isDigit d := by
  cases h with
  | intro hwhole =>
    obtain ⟨d, ds, rfl⟩ := List.exists_cons_of_ne_nil hwhole.1
    exact ⟨d, _, rfl, hwhole.2 d List.mem_cons_self⟩

/-- The reader stops behind the text, and what it finds there does not depend on what
follows. -/
def Settles {α : Type} (read : List Char → Step α) (cs : List Char) : Prop :=
  ∃ a : Option α, ∀ rest, Delimited rest → (read (cs ++ rest)).toOption = a.map (·, rest)

theorem settles_real (negative : Bool) (significand : Nat) (exponent : Int) :
    Settles (real negative significand exponent) [] := by
  unfold Settles real
  cases scaled 8 significand.toFloat exponent with
  | none => exact ⟨none, fun _ _ => rfl⟩
  | some f => exact ⟨some _, fun _ _ => rfl⟩

theorem IsDigits.takeWhile_append {ds : List Char} (h : IsDigits ds)
    (hrest : ∀ c ∈ rest.head?, isDigit c = false) : (ds ++ rest).takeWhile isDigit = ds :=
  takeWhile_append_stop h.2 hrest

theorem IsDigits.dropWhile_append {ds : List Char} (h : IsDigits ds)
    (hrest : ∀ c ∈ rest.head?, isDigit c = false) : (ds ++ rest).dropWhile isDigit = rest :=
  dropWhile_append_stop h.2 hrest

theorem settles_signedPart (negative : Bool) (significand : Nat) (exponent : Int) (down : Bool)
    {ds : List Char} (h : IsDigits ds) :
    Settles (exponentPart negative significand exponent) ((if down then '-' else '+') :: ds) := by
  have htake {rest : List Char} (hrest : Delimited rest) := h.takeWhile_append
    (hrest.stops (by decide) : ∀ c ∈ rest.head?, isDigit c = false)
  have hdrop {rest : List Char} (hrest : Delimited rest) := h.dropWhile_append
    (hrest.stops (by decide) : ∀ c ∈ rest.head?, isDigit c = false)
  have hsome : ds.isEmpty = false := List.isEmpty_eq_false_iff.mpr h.1
  cases hvalue : exponentValue 0 ds with
  | ok value =>
    obtain ⟨a, ha⟩ :=
      settles_real negative significand (if down then exponent - value else exponent + value)
    refine ⟨a, fun rest hrest => ?_⟩
    rw [← ha rest hrest, List.nil_append, exponentPart.eq_def]
    cases down <;>
      simp only [Bool.false_eq_true, if_false, if_true, List.cons_append, htake hrest, hdrop hrest,
        hsome, hvalue]
  | error left =>
    by_cases hlarge : significand ≠ 0 ∧ !down
    · refine ⟨none, fun rest hrest => ?_⟩
      rw [exponentPart.eq_def]
      cases down
      · simp only [Bool.false_eq_true, if_false, List.cons_append, htake hrest, hdrop hrest, hsome,
          hvalue, if_pos hlarge]
        rfl
      · cases hlarge.2
    · refine ⟨some (.real (if negative then -0.0 else 0.0)), fun rest hrest => ?_⟩
      rw [exponentPart.eq_def]
      cases down <;>
        simp only [Bool.false_eq_true, if_false, if_true, List.cons_append, htake hrest,
          hdrop hrest, hsome, hvalue, if_neg hlarge]
      all_goals rfl

theorem settles_exponentPart (negative : Bool) (significand : Nat) (exponent : Int)
    {sign ds : List Char} (hsign : sign ∈ [[], ['+'], ['-']]) (h : IsDigits ds) :
    Settles (exponentPart negative significand exponent) (sign ++ ds) := by
  have hsigned : sign = [] ∨ sign = ['+'] ∨ sign = ['-'] := by simpa using hsign
  rcases hsigned with rfl | rfl | rfl
  · obtain ⟨d, ds', rfl⟩ := List.exists_cons_of_ne_nil h.1
    have hd : isDigit d := h.2 d List.mem_cons_self
    have hplus : d ≠ '+' := fun he => absurd (he ▸ hd) (by decide)
    have hminus : d ≠ '-' := fun he => absurd (he ▸ hd) (by decide)
    obtain ⟨a, ha⟩ := settles_signedPart negative significand exponent false h
    refine ⟨a, fun rest hrest => ?_⟩
    rw [← ha rest hrest]
    simp [exponentPart, hplus, hminus]
  · exact settles_signedPart negative significand exponent false h
  · exact settles_signedPart negative significand exponent true h

theorem settles_afterDigits (negative : Bool) (significand : Nat) (exponent : Int)
    (h : IsExponent cs) : Settles (afterDigits negative significand exponent) cs := by
  cases h with
  | none => 
    obtain ⟨a, ha⟩ := settles_real negative significand exponent
    refine ⟨a, fun rest hrest => ?_⟩
    rw [← ha rest hrest, List.nil_append, afterDigits]
    · rintro tail rfl
      simp [delimiters] at hrest
    · rintro tail rfl
      simp [delimiters] at hrest
  | some he hsign h =>
    obtain ⟨a, ha⟩ := settles_exponentPart negative significand exponent hsign h
    refine ⟨a, fun rest hrest => ?_⟩
    rw [← ha rest hrest]
    rcases he with rfl | rfl <;> rfl

theorem stops_fraction {fraction exponent : List Char} (h : IsFraction fraction)
    (h' : IsExponent exponent) (hrest : Delimited rest) :
    ∀ c ∈ (fraction ++ (exponent ++ rest)).head?, isDigit c = false := by
  cases h with
  | some => simp [isDigit]
  | none =>
    cases h' with
    | none => exact hrest.stops (by decide)
    | some he => rcases he with rfl | rfl <;> simp [isDigit]

theorem settles_fractionPart (negative : Bool) (significand : Nat) (exponent : Int)
    {ds : List Char} (hds : IsDigits ds) (h : IsExponent cs) :
    Settles (fractionPart negative significand exponent) (ds ++ cs) := by
  obtain ⟨a, ha⟩ := settles_afterDigits negative (absorb significand ds).1
    (exponent - (ds.length - (absorb significand ds).2.length : Nat)) h
  refine ⟨a, fun rest hrest => ?_⟩
  have hstop := stops_fraction .none h hrest
  rw [List.nil_append] at hstop
  rw [← ha rest hrest, fractionPart.eq_def]
  simp only [List.append_assoc, hds.takeWhile_append hstop, hds.dropWhile_append hstop]
  rw [if_neg (by simpa using hds.1)]

/-- A number is finished by what follows its first digits. -/
theorem number_whole (negative : Bool) {whole : List Char} (hwhole : IsDigits whole)
    (hzero : ∀ c ds, whole ≠ '0' :: c :: ds) (tail : List Char) :
    (∀ c ∈ tail.head?, isDigit c = false) → number negative (whole ++ tail) = match tail with
      | '.' :: after => fractionPart negative (absorb 0 whole).1 (absorb 0 whole).2.length after
      | 'e' :: after => exponentPart negative (absorb 0 whole).1 (absorb 0 whole).2.length after
      | 'E' :: after => exponentPart negative (absorb 0 whole).1 (absorb 0 whole).2.length after
      | _ =>
        if (absorb 0 whole).2.isEmpty then .ok (integral negative (absorb 0 whole).1, tail)
        else real negative (absorb 0 whole).1 (absorb 0 whole).2.length tail := by
  intro htail
  rw [number.eq_def]
  simp only [hwhole.takeWhile_append htail, hwhole.dropWhile_append htail]
  split
  · exact absurd rfl hwhole.1
  · exact absurd rfl (hzero _ _)
  · rfl

theorem settles_number (negative : Bool) (h : IsMagnitude cs) : Settles (number negative) cs := by
  cases h with
  | @intro whole fraction exponent hwhole hzero hfraction hexponent =>
    cases hfraction with
    | some hds =>
      obtain ⟨a, ha⟩ := settles_fractionPart negative (absorb 0 whole).1
        (absorb 0 whole).2.length hds hexponent
      refine ⟨a, fun rest hrest => ?_⟩
      rw [← ha rest hrest, List.append_assoc, number_whole negative hwhole hzero _
        (by simp [isDigit])]
      rfl
    | none =>
      cases hexponent with
      | @some e sign ds he hsign hds =>
        obtain ⟨a, ha⟩ := settles_exponentPart negative (absorb 0 whole).1
          (absorb 0 whole).2.length hsign hds
        refine ⟨a, fun rest hrest => ?_⟩
        rw [← ha rest hrest, List.append_assoc, number_whole negative hwhole hzero _
          (by rcases he with rfl | rfl <;> simp [isDigit])]
        rcases he with rfl | rfl <;> rfl
      | none =>
        have hend : ∃ a : Option Number, ∀ rest, Delimited rest →
            (if (absorb 0 whole).2.isEmpty then .ok (integral negative (absorb 0 whole).1, rest)
              else real negative (absorb 0 whole).1 (absorb 0 whole).2.length rest).toOption
              = a.map (·, rest) := by
          cases (absorb 0 whole).2.isEmpty with
          | true => exact ⟨some _, fun _ _ => rfl⟩
          | false => exact settles_real negative _ _
        obtain ⟨a, ha⟩ := hend
        refine ⟨a, fun rest hrest => ?_⟩
        rw [← ha rest hrest, List.append_assoc, List.nil_append, List.nil_append,
          number_whole negative hwhole hzero _ (hrest.stops (by decide))]
        split
        · simp [delimiters] at hrest
        · simp [delimiters] at hrest
        · simp [delimiters] at hrest
        · rfl

/-- The number that the digits of a value stand for, if a number can hold it. -/
def numeral (negative : Bool) (magnitude : List Char) : Option Number :=
  (number negative magnitude).toOption.map (·.1)

/-- What a number stands for does not depend on what follows it. -/
theorem number_magnitude (negative : Bool) (h : IsMagnitude cs) (hrest : Delimited rest) :
    (number negative (cs ++ rest)).toOption = (numeral negative cs).map (·, rest) := by
  obtain ⟨a, ha⟩ := settles_number negative h
  have hnil := ha [] delimited_nil
  rw [List.append_nil] at hnil
  rw [ha rest hrest, numeral, hnil]
  cases a <;> rfl

/-! ## Passing over numbers -/

theorem skipExponent_append {sign ds : List Char} (hsign : sign ∈ [[], ['+'], ['-']])
    (h : IsDigits ds) (hrest : Delimited rest) :
    skipExponent (sign ++ (ds ++ rest)) = .ok rest := by
  have hstop := hrest.stops (p := isDigit) (by decide)
  obtain ⟨d, tail, rfl⟩ := List.exists_cons_of_ne_nil h.1
  have hd : isDigit d := h.2 d List.mem_cons_self
  have hsigned : sign = [] ∨ sign = ['+'] ∨ sign = ['-'] := by simpa using hsign
  rw [skipExponent.eq_def]
  rcases hsigned with rfl | rfl | rfl
  · split
    · rename_i heq
      cases heq
      cases hd
    · rename_i heq
      cases heq
      cases hd
    · simp only [List.nil_append, h.takeWhile_append hstop, h.dropWhile_append hstop]
      rfl
  all_goals
    simp only [List.singleton_append, h.takeWhile_append hstop, h.dropWhile_append hstop]
    rfl

theorem skipAfterDigits_append (h : IsExponent cs) (hrest : Delimited rest) :
    skipAfterDigits (cs ++ rest) = .ok rest := by
  cases h with
  | none =>
    rw [List.nil_append, skipAfterDigits]
    · rintro tail rfl
      simp [delimiters] at hrest
    · rintro tail rfl
      simp [delimiters] at hrest
  | some he hsign h =>
    rw [← skipExponent_append hsign h hrest]
    rcases he with rfl | rfl <;> simp [skipAfterDigits]

theorem skipNumber_magnitude (h : IsMagnitude cs) (hrest : Delimited rest) :
    skipNumber (cs ++ rest) = .ok rest := by
  cases h with
  | @intro whole fraction exponent hwhole hzero hfraction hexponent =>
    have hstop := stops_fraction hfraction hexponent hrest
    rw [skipNumber.eq_def]
    simp only [List.append_assoc, hwhole.takeWhile_append hstop, hwhole.dropWhile_append hstop]
    split
    · exact absurd rfl hwhole.1
    · exact absurd rfl (hzero _ _)
    · have hafter := skipAfterDigits_append hexponent hrest
      cases hfraction with
      | some hds =>
        have hstop' := stops_fraction .none hexponent hrest
        rw [List.nil_append] at hstop'
        simp only [List.cons_append, hds.takeWhile_append hstop', hds.dropWhile_append hstop']
        rw [if_neg (by simpa using hds.1), hafter]
      | none =>
        rw [← hafter, List.nil_append]
        split
        · rename_i heq
          cases hexponent with
          | none =>
            rw [List.nil_append] at heq
            simp [heq, delimiters] at hrest
          | some he => rcases he with rfl | rfl <;> cases heq
        · rfl

theorem isDigits_takeWhile (h : (cs.takeWhile isDigit).isEmpty ≠ true) :
    IsDigits (cs.takeWhile isDigit) :=
  ⟨by simpa using h, List.all_eq_true.mp List.all_takeWhile⟩

theorem skipExponent_eq_ok (h : skipExponent cs = .ok rest) :
    ∃ sign ds, sign ∈ [[], ['+'], ['-']] ∧ IsDigits ds ∧ cs = sign ++ (ds ++ rest) := by
  rw [skipExponent.eq_def] at h
  have hdigits {tail : List Char}
      (h : (if (tail.takeWhile isDigit).isEmpty then failAhead .invalidNumber tail
        else .ok (tail.dropWhile isDigit) : Except Failure (List Char)) = .ok rest) :
      ∃ ds, IsDigits ds ∧ tail = ds ++ rest := by
    split at h
    · cases h
    · rename_i hne
      cases h
      exact ⟨_, isDigits_takeWhile hne, List.takeWhile_append_dropWhile.symm⟩
  dsimp only at h
  split at h
  · obtain ⟨ds, hds, rfl⟩ := hdigits h
    exact ⟨['+'], ds, by simp, hds, rfl⟩
  · obtain ⟨ds, hds, rfl⟩ := hdigits h
    exact ⟨['-'], ds, by simp, hds, rfl⟩
  · obtain ⟨ds, hds, rfl⟩ := hdigits h
    exact ⟨[], ds, by simp, hds, rfl⟩

theorem skipAfterDigits_eq_ok (h : skipAfterDigits cs = .ok rest) :
    ∃ exponent, IsExponent exponent ∧ cs = exponent ++ rest := by
  rw [skipAfterDigits.eq_def] at h
  split at h
  · obtain ⟨sign, ds, hsign, hds, rfl⟩ := skipExponent_eq_ok h
    exact ⟨_, .some (Or.inl rfl) hsign hds, by simp⟩
  · obtain ⟨sign, ds, hsign, hds, rfl⟩ := skipExponent_eq_ok h
    exact ⟨_, .some (Or.inr rfl) hsign hds, by simp⟩
  · cases h
    exact ⟨[], .none, rfl⟩

/-- What is passed over as a number is one. -/
theorem skipNumber_eq_ok (h : skipNumber cs = .ok rest) :
    ∃ magnitude, IsMagnitude magnitude ∧ cs = magnitude ++ rest := by
  rw [skipNumber.eq_def] at h
  split at h
  · cases h
  · cases h
  · rename_i hne hzero
    have hwhole : IsDigits (cs.takeWhile isDigit) := isDigits_takeWhile (by simpa using hne)
    have hcs : cs = cs.takeWhile isDigit ++ cs.dropWhile isDigit :=
      List.takeWhile_append_dropWhile.symm
    split at h
    · rename_i tail htail
      split at h
      · cases h
      · rename_i hfraction
        obtain ⟨exponent, hexponent, hafter⟩ := skipAfterDigits_eq_ok h
        refine ⟨_, .intro hwhole hzero (.some (isDigits_takeWhile hfraction)) hexponent, ?_⟩
        have htail' : tail = tail.takeWhile isDigit ++ tail.dropWhile isDigit :=
          List.takeWhile_append_dropWhile.symm
        rw [hafter] at htail'
        refine hcs.trans ?_
        simpa [htail] using htail'
    · obtain ⟨exponent, hexponent, hafter⟩ := skipAfterDigits_eq_ok h
      refine ⟨_, .intro hwhole hzero .none hexponent, ?_⟩
      refine hcs.trans ?_
      rw [hafter, List.nil_append, List.append_assoc]

/-! ## What is read as a number -/

section

variable {negative : Bool} {significand : Nat} {exponent : Int} {n : Number}

theorem real_eq_ok (h : real negative significand exponent cs = .ok (n, rest)) : cs = rest := by
  unfold real at h
  split at h
  · cases h
  · exact (Prod.mk.inj (Except.ok.inj h)).2

theorem exponentPart_eq_ok (h : exponentPart negative significand exponent cs = .ok (n, rest)) :
    ∃ sign ds, sign ∈ [[], ['+'], ['-']] ∧ IsDigits ds ∧ cs = sign ++ (ds ++ rest) := by
  rw [exponentPart.eq_def] at h
  split at h
  rename_i down tail hsigned
  obtain ⟨sign, hsign, rfl⟩ : ∃ sign ∈ [[], ['+'], ['-']], cs = sign ++ tail := by
    split at hsigned <;> cases hsigned
    · exact ⟨['+'], by simp, rfl⟩
    · exact ⟨['-'], by simp, rfl⟩
    · exact ⟨[], by simp, rfl⟩
  dsimp only at h
  split at h
  · split at h <;> cases h
  · rename_i hdigits
    have hrest : tail.dropWhile isDigit = rest := by
      split at h
      · exact real_eq_ok h
      · split at h
        · cases h
        · exact (Prod.mk.inj (Except.ok.inj h)).2
    refine ⟨sign, _, hsign, isDigits_takeWhile hdigits, ?_⟩
    rw [← hrest, List.takeWhile_append_dropWhile]

theorem afterDigits_eq_ok (h : afterDigits negative significand exponent cs = .ok (n, rest)) :
    ∃ exponent, IsExponent exponent ∧ cs = exponent ++ rest := by
  rw [afterDigits.eq_def] at h
  split at h
  · obtain ⟨sign, ds, hsign, hds, rfl⟩ := exponentPart_eq_ok h
    exact ⟨_, .some (Or.inl rfl) hsign hds, by simp⟩
  · obtain ⟨sign, ds, hsign, hds, rfl⟩ := exponentPart_eq_ok h
    exact ⟨_, .some (Or.inr rfl) hsign hds, by simp⟩
  · exact ⟨[], .none, real_eq_ok h⟩

theorem fractionPart_eq_ok (h : fractionPart negative significand exponent cs = .ok (n, rest)) :
    ∃ ds exponent, IsDigits ds ∧ IsExponent exponent ∧ cs = ds ++ (exponent ++ rest) := by
  rw [fractionPart.eq_def] at h
  dsimp only at h
  split at h
  · split at h <;> cases h
  · rename_i hdigits
    obtain ⟨exponent, hexponent, hafter⟩ := afterDigits_eq_ok h
    refine ⟨_, exponent, isDigits_takeWhile hdigits, hexponent, ?_⟩
    rw [← hafter, List.takeWhile_append_dropWhile]

/-- What is read as a number is one. -/
theorem number_eq_ok (h : number negative cs = .ok (n, rest)) :
    ∃ magnitude, IsMagnitude magnitude ∧ cs = magnitude ++ rest := by
  rw [number.eq_def] at h
  dsimp only at h
  split at h
  · split at h <;> cases h
  · cases h
  · rename_i hne hzero
    have hwhole : IsDigits (cs.takeWhile isDigit) := isDigits_takeWhile (by simpa using hne)
    obtain ⟨fraction, exponent, hfraction, hexponent, hdrop⟩ : ∃ fraction exponent,
        IsFraction fraction ∧ IsExponent exponent ∧
          cs.dropWhile isDigit = fraction ++ (exponent ++ rest) := by
      split at h
      · rename_i heq
        obtain ⟨ds, exponent, hds, hexponent, rfl⟩ := fractionPart_eq_ok h
        exact ⟨_, exponent, .some hds, hexponent, heq⟩
      · rename_i heq
        obtain ⟨sign, ds, hsign, hds, rfl⟩ := exponentPart_eq_ok h
        exact ⟨[], _, .none, .some (Or.inl rfl) hsign hds, by simp [heq]⟩
      · rename_i heq
        obtain ⟨sign, ds, hsign, hds, rfl⟩ := exponentPart_eq_ok h
        exact ⟨[], _, .none, .some (Or.inr rfl) hsign hds, by simp [heq]⟩
      · refine ⟨[], [], .none, .none, ?_⟩
        split at h
        · exact (Prod.mk.inj (Except.ok.inj h)).2
        · exact real_eq_ok h
    refine ⟨_, .intro hwhole hzero hfraction hexponent, ?_⟩
    rw [List.append_assoc, List.append_assoc, ← hdrop, List.takeWhile_append_dropWhile]

end

end ModelScribe.Json
