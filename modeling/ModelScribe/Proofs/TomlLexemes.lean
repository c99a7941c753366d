-- What a TOML lexeme depends on. A lexeme ends where the next one may begin,
-- and nothing behind it has a part in how it is read but the character that
-- it ends at and, behind a date, the one after a space. So a document may
-- change behind a lexeme, and the lexeme is read as before.
import Mathlib.Data.List.TakeWhile
import ModelScribe.Proofs.TomlText
import ModelScribe.Toml.Document

namespace ModelScribe.Toml

variable {α : Type} {cs rest : List Char}

/-! ## Lexemes on their own -/

/-- Two texts that a lexeme before them cannot tell apart. -/
structure Kin (rest rest' : List Char) : Prop where
  head : rest'.head? = rest.head?
  digit : (rest'.drop 1).head?.any Char.isDigit → (rest.drop 1).head?.any Char.isDigit

theorem Kin.refl (rest : List Char) : Kin rest rest := ⟨rfl, id⟩

/-- A reader that takes no account of what stands behind the text it has read. -/
def Exact (read : List Char → Option (α × List Char)) : Prop :=
  ∀ {cs a rest}, read cs = some (a, rest) →
    ∃ taken, cs = taken ++ rest ∧ ∀ rest', read (taken ++ rest') = some (a, rest')

/-- A reader that may look at what stands behind the text it has read, but no further than to
tell texts apart that are not kin. -/
def Local (read : List Char → Option (α × List Char)) : Prop :=
  ∀ {cs a rest}, read cs = some (a, rest) →
    ∃ taken, cs = taken ++ rest ∧ ∀ rest', Kin rest rest' → read (taken ++ rest') = some (a, rest')

/-! ## Strings -/

theorem exact_codedChar (digits : Nat) : Exact (codedChar digits) := by
  intro cs c rest h
  rw [codedChar] at h
  split at h
  · cases h
  · rename_i hlength
    obtain ⟨x, hx, heq⟩ := Option.map_eq_some_iff.mp h
    obtain ⟨rfl, rfl⟩ := Prod.mk.inj heq
    have htake : (cs.take digits).length = digits := by
      have := List.length_take_le digits cs
      omega
    refine ⟨cs.take digits, (List.take_append_drop digits cs).symm, fun rest' => ?_⟩
    have hsame : (cs.take digits ++ rest').take digits = cs.take digits :=
      List.take_left' htake
    have hdrop : (cs.take digits ++ rest').drop digits = rest' := List.drop_left' htake
    rw [codedChar, hsame, hdrop, if_neg hlength, hx]
    rfl

theorem exact_escaped : Exact escaped := by
  intro cs c rest h
  unfold escaped at h
  split at h
  case h_9 rest' | h_10 rest' | h_11 rest' =>
    obtain ⟨taken, rfl, hread⟩ := exact_codedChar _ h
    exact ⟨_ :: taken, rfl, hread⟩
  case h_12 => cases h
  all_goals
    obtain ⟨rfl, rfl⟩ := Prod.mk.inj (Option.some.inj h)
    exact ⟨[_], rfl, fun _ => rfl⟩

theorem skipBlank_local (cs : List Char) : ∃ blanks, cs = blanks ++ skipBlank cs ∧
    ∀ after, after.take 2 = (skipBlank cs).take 2 → skipBlank (blanks ++ after) = after := by
  induction cs using skipBlank.induct with
  | case1 => exact ⟨[], rfl, fun after h => by simp_all [skipBlank]⟩
  | case2 rest ih =>
    obtain ⟨blanks, heq, hskip⟩ := ih
    refine ⟨'\r' :: '\n' :: blanks, ?_, fun after h => ?_⟩
    · rw [skipBlank, List.cons_append, List.cons_append, ← heq]
    · rw [skipBlank] at h
      rw [List.cons_append, List.cons_append, skipBlank, hskip after h]
  | case3 c rest _ hblank ih =>
    obtain ⟨blanks, heq, hskip⟩ := ih
    have hstep (cs : List Char) : skipBlank (c :: cs) = skipBlank cs := by
      rw [skipBlank, if_pos hblank]
      rintro _ rfl
      cases hblank
    refine ⟨c :: blanks, ?_, fun after h => ?_⟩
    · rw [hstep, List.cons_append, ← heq]
    · rw [hstep] at h
      rw [List.cons_append, hstep, hskip after h]
  | case4 c rest hreturn hblank =>
    have hstep (cs : List Char) (h : ∀ rest, c = '\r' → cs = '\n' :: rest → False) :
        skipBlank (c :: cs) = c :: cs := by
      rw [skipBlank, if_neg hblank]
      exact h
    refine ⟨[], by rw [hstep rest hreturn]; rfl, fun after h => ?_⟩
    rw [hstep rest hreturn] at h
    cases after with
    | nil => cases h
    | cons d after =>
      obtain ⟨rfl, hafter⟩ := List.cons.inj h
      refine hstep after fun rest' hd ha => ?_
      cases rest with
      | nil => cases ha; cases hafter
      | cons e rest =>
        cases ha
        obtain ⟨rfl, -⟩ := List.cons.inj hafter
        exact hreturn _ hd rfl

/-- A line break is read by itself, and there is something of it. -/
theorem exact_lineBreak (h : lineBreak cs = some rest) :
    ∃ c taken, cs = c :: (taken ++ rest) ∧
      ∀ rest', lineBreak (c :: (taken ++ rest')) = some rest' := by
  unfold lineBreak at h
  split at h
  · exact ⟨'\n', [], by rw [← Option.some.inj h]; rfl, fun _ => rfl⟩
  · exact ⟨'\r', ['\n'], by rw [← Option.some.inj h]; rfl, fun _ => rfl⟩
  · cases h

theorem stops_dropWhile (p : Char → Bool) (cs : List Char) :
    ∀ c ∈ (cs.dropWhile p).head?, p c = false := by
  intro c hc
  have hstop := List.head?_dropWhile_not p cs
  rw [hc] at hstop
  simpa using hstop

/-- Another text may follow that stops in its place. -/
theorem takeWhile_local (p : Char → Bool) (cs rest : List Char)
    (h : ∀ c ∈ rest.head?, p c = false) :
    (cs.takeWhile p ++ rest).takeWhile p = cs.takeWhile p ∧
      (cs.takeWhile p ++ rest).dropWhile p = rest :=
  have htaken : ∀ c ∈ cs.takeWhile p, p c := fun _ hc => List.mem_takeWhile_imp hc
  ⟨takeWhile_append_stop htaken h, dropWhile_append_stop htaken h⟩

theorem skipSpace_local (cs : List Char) : ∃ spaces, cs = spaces ++ skipSpace cs ∧
    ∀ rest, (∀ c ∈ rest.head?, isSpace c = false) → skipSpace (spaces ++ rest) = rest :=
  ⟨cs.takeWhile isSpace, List.takeWhile_append_dropWhile.symm, fun _ h =>
    (takeWhile_local isSpace cs _ h).2⟩

theorem continuedLine_local {after : List Char} (h : continuedLine cs = some after) :
    ∃ covered, cs = covered ++ after ∧
      ∀ after', after'.take 2 = after.take 2 → continuedLine (covered ++ after') = some after' := by
  obtain ⟨line, hline, rfl⟩ := Option.map_eq_some_iff.mp h
  obtain ⟨spaces, hspaces, hskip⟩ := skipSpace_local cs
  obtain ⟨c, signs, hsigns, hread⟩ := exact_lineBreak hline
  obtain ⟨blanks, hblanks, hskipBlank⟩ := skipBlank_local line
  have hsolid := stops_dropWhile isSpace cs
  rw [show cs.dropWhile isSpace = _ from hsigns] at hsolid
  rw [hsigns] at hspaces
  refine ⟨spaces ++ c :: (signs ++ blanks), ?_, fun after' hafter => ?_⟩
  · rw [hspaces]
    simp only [List.append_assoc, List.cons_append]
    rw [← hblanks]
  · have hspaces' := hskip (c :: (signs ++ (blanks ++ after'))) fun d hd => hsolid d hd
    simp only [List.append_assoc, List.cons_append]
    rw [continuedLine, hspaces', hread, Option.map_some, hskipBlank _ hafter]

/-- A line that goes on with an escape does not end here. -/
theorem continuedLine_eq_none {found : Char × List Char} (h : escaped cs = some found) :
    continuedLine cs = none := by
  unfold escaped at h
  split at h
  case h_12 => cases h
  all_goals rfl

theorem takeWhile_append_congr {p : Char → Bool} (taken rest rest' : List Char)
    (h : ((taken ++ rest).takeWhile p).length < taken.length) :
    (taken ++ rest').takeWhile p = (taken ++ rest).takeWhile p := by
  induction taken with
  | nil => cases h
  | cons c taken ih =>
    rw [List.cons_append, List.takeWhile_cons] at h ⊢
    rw [List.cons_append, List.takeWhile_cons]
    split
    case isTrue hc =>
      rw [if_pos hc, List.length_cons, List.length_cons, Nat.succ_lt_succ_iff] at h
      rw [ih h]
    case isFalse => rfl

/-- What has been covered is a part of the longer text taken, and as many characters of it are
covered whatever follows. -/
theorem covered_within {covered after taken : List Char} {ahead : Nat}
    (heq : covered ++ after = taken ++ rest)
    (hlength : (covered ++ after).length - after.length + ahead < taken.length)
    (rest' : List Char) :
    ∃ more, ahead < more.length ∧ after = more ++ rest ∧
      taken ++ rest' = covered ++ (more ++ rest') ∧
      (taken ++ rest').length - (more ++ rest').length
        = (covered ++ after).length - after.length := by
  have hcovered (after : List Char) :
      (covered ++ after).length - after.length = covered.length := by
    rw [List.length_append, Nat.add_sub_cancel_right]
  rw [hcovered] at hlength
  obtain ⟨more, rfl, hafter⟩ | ⟨more, rfl, -⟩ := List.append_eq_append_iff.mp heq
  · rw [List.length_append] at hlength
    exact ⟨more, by omega, hafter, List.append_assoc ..,
      by rw [List.append_assoc, hcovered, hcovered]⟩
  · rw [List.length_append] at hlength
    omega

/-- An escape within the text taken is read by itself. -/
theorem escaped_within {x : Char} {after taken : List Char} {ahead : Nat}
    (h : escaped cs = some (x, after)) (hcs : cs = taken ++ rest)
    (hlength : cs.length - after.length + ahead < taken.length) (rest' : List Char) :
    ∃ after', escaped (taken ++ rest') = some (x, after') ∧
      (taken ++ rest').length - after'.length = cs.length - after.length := by
  obtain ⟨letters, rfl, hletters⟩ := exact_escaped h
  obtain ⟨more, -, -, heq, hcovered⟩ := covered_within hcs hlength rest'
  exact ⟨more ++ rest', heq ▸ hletters _, hcovered⟩

/-- The end of a line within the text taken is read by itself. -/
theorem continuedLine_within {after taken : List Char} (h : continuedLine cs = some after)
    (hcs : cs = taken ++ rest) (hlength : cs.length - after.length + 2 < taken.length)
    (rest' : List Char) :
    ∃ after', continuedLine (taken ++ rest') = some after' ∧
      (taken ++ rest').length - after'.length = cs.length - after.length := by
  obtain ⟨skipped, rfl, hskipped⟩ := continuedLine_local h
  obtain ⟨more, hmore, rfl, heq, hcovered⟩ := covered_within hcs hlength rest'
  refine ⟨more ++ rest', heq ▸ hskipped _ ?_, hcovered⟩
  rw [List.take_append_of_le_length (by omega), List.take_append_of_le_length (by omega)]

section

variable {read : List Char → Nat → List Char → Option (String × List Char)} {ahead covered : Nat}
  {quote : Char} {escapes : Bool} {text : List Char} {s : String}

/-- What a reader of strings does at a character, given the text so far: the string ends, or more
of it is read. It is read in the same way before any text that begins with the same character,
if `ahead` characters of the string are left to tell how it goes on. -/
inductive Turn (read : List Char → Nat → List Char → Option (String × List Char)) (ahead : Nat)
    (text : List Char) (c : Char) : List Char → String → List Char → Prop
  | ends {cs rest : List Char} {s : String} (taken : List Char) (hcs : cs = taken ++ rest)
    (hahead : ahead ≤ taken.length) (hs : s.length ≤ text.length + taken.length + 1)
    (hread : ∀ rest', rest'.head? = rest.head? →
      read text 0 (c :: (taken ++ rest')) = some (s, rest')) :
    Turn read ahead text c cs s rest
  | more {cs rest grown : List Char} {covered : Nat} {s : String}
    (hgrown : grown.length ≤ text.length + covered + 1)
    (h : read grown covered cs = some (s, rest))
    (hread : ∀ taken rest', cs = taken ++ rest → covered + ahead < taken.length →
      rest'.head? = rest.head? →
      read text 0 (c :: (taken ++ rest')) = read grown covered (taken ++ rest')) :
    Turn read ahead text c cs s rest

/-- A reader of strings that takes one turn at each character, but for those that an earlier
turn has covered. -/
structure Scans (read : List Char → Nat → List Char → Option (String × List Char))
    (ahead : Nat) : Prop where
  nil (text : List Char) (covered : Nat) : read text covered [] = none
  covered (text : List Char) (covered : Nat) (c : Char) (cs : List Char) :
    read text (covered + 1) (c :: cs) = read text covered cs
  turn {text : List Char} {c : Char} {cs : List Char} {s : String} {rest : List Char}
    (h : read text 0 (c :: cs) = some (s, rest)) : Turn read ahead text c cs s rest

/-- A string ends behind all that has been read of it, is no longer than what it is written as,
and is read in the same way whatever follows, as long as that begins with the same character. -/
theorem Scans.exists_taken (hscans : Scans read ahead) (h : read text covered cs = some (s, rest)) :
    ∃ taken, cs = taken ++ rest ∧ covered + ahead < taken.length ∧
      s.length + covered ≤ text.length + taken.length ∧
      ∀ rest', rest'.head? = rest.head? → read text covered (taken ++ rest') = some (s, rest') := by
  induction cs generalizing text covered with
  | nil =>
    rw [hscans.nil] at h
    cases h
  | cons c cs ih =>
    cases covered with
    | succ covered =>
      rw [hscans.covered] at h
      obtain ⟨taken, rfl, hahead, hs, hread⟩ := ih h
      refine ⟨c :: taken, rfl, by rw [List.length_cons]; omega, by rw [List.length_cons]; omega,
        fun rest' hrest => ?_⟩
      rw [List.cons_append, hscans.covered, hread rest' hrest]
    | zero =>
      cases hscans.turn h with
      | ends taken hcs hahead hs hread =>
        exact ⟨c :: taken, congrArg (c :: ·) hcs, by rw [List.length_cons]; omega,
          by rw [List.length_cons]; omega, hread⟩
      | more hgrown h hread =>
        obtain ⟨taken, rfl, hahead, hs, hread'⟩ := ih h
        refine ⟨c :: taken, rfl, by rw [List.length_cons]; omega, by rw [List.length_cons]; omega,
          fun rest' hrest => ?_⟩
        rw [List.cons_append, hread taken rest' rfl hahead hrest, hread' rest' hrest]

theorem scans_lineString (quote : Char) (escapes : Bool) : Scans (lineString quote escapes) 0 where
  nil _ covered := by cases covered <;> rfl
  covered _ _ _ _ := rfl
  turn := by
    intro text c cs s rest h
    rw [lineString] at h
    split at h
    case isTrue hquote =>
      obtain ⟨rfl, rfl⟩ := Prod.mk.inj (Option.some.inj h)
      refine .ends [] rfl (Nat.le_refl 0) (by simp) fun rest' _ => ?_
      rw [List.nil_append, lineString, if_pos hquote]
    split at h
    case isTrue hquote hescape =>
      cases hescaped : escaped cs with
      | none => simp [hescaped] at h
      | some found =>
        simp only [hescaped] at h
        refine .more (by rw [List.length_cons]; omega) h fun taken rest' hcs hlength _ => ?_
        obtain ⟨after', hescaped', hcovered⟩ := escaped_within hescaped hcs hlength rest'
        rw [lineString, if_neg hquote, if_pos hescape, hescaped', ← hcovered]
    split at h
    case isTrue => cases h
    case isFalse hquote hescape hcontrol =>
      refine .more (by rw [List.length_cons]) h fun _ _ _ _ _ => ?_
      rw [lineString, if_neg hquote, if_neg hescape, if_neg hcontrol]

/-- One or two quotes belong to a string over several lines, and three to five end it, if no
other quote follows. -/
theorem turn_quotes (h : blockString quote escapes text 0 (quote :: cs) = some (s, rest)) :
    Turn (blockString quote escapes) 2 text quote cs s rest := by
  rw [blockString, if_pos rfl] at h
  simp only at h
  split at h
  case isTrue hrun =>
    refine .more (by simp; omega) h fun taken rest' hcs hlength _ => ?_
    have hsame := takeWhile_append_congr (p := (· = quote)) taken rest rest' (by rw [← hcs]; omega)
    rw [blockString, if_pos rfl]
    simp only [hsame, ← hcs, if_pos hrun]
  case isFalse hrun =>
    split at h
    case isFalse => cases h
    case isTrue hrun' =>
      obtain ⟨rfl, rfl⟩ := Prod.mk.inj (Option.some.inj h)
      have hcs := List.takeWhile_append_dropWhile (p := (· = quote)) (l := cs)
      have hdrop :
          cs.drop (1 + (cs.takeWhile (· = quote)).length - 1) = cs.dropWhile (· = quote) := by
        rw [Nat.add_sub_cancel_left]
        nth_rewrite 2 [← hcs]
        exact List.drop_left
      rw [hdrop]
      refine .ends _ hcs.symm (by omega) (by simp; omega) fun rest' hrest => ?_
      have hquotes := (takeWhile_local (· = quote) cs rest' fun d hd =>
        stops_dropWhile _ cs d (hrest ▸ hd)).1
      rw [blockString, if_pos rfl]
      simp only [hquotes, if_neg hrun, if_pos hrun', Nat.add_sub_cancel_left, List.drop_left]

theorem scans_blockString (quote : Char) (escapes : Bool) :
    Scans (blockString quote escapes) 2 where
  nil _ covered := by cases covered <;> rfl
  covered _ _ _ _ := rfl
  turn := by
    intro text c cs s rest h
    by_cases hquote : c = quote
    · subst hquote
      exact turn_quotes h
    rw [blockString, if_neg hquote] at h
    split at h
    case isTrue hescape =>
      cases hcontinued : continuedLine cs with
      | some after =>
        simp only [hcontinued] at h
        refine .more (by omega) h fun taken rest' hcs hlength _ => ?_
        obtain ⟨after', hcontinued', hcovered⟩ := continuedLine_within hcontinued hcs hlength rest'
        rw [blockString, if_neg hquote, if_pos hescape, hcontinued', ← hcovered]
      | none =>
        cases hescaped : escaped cs with
        | none => simp [hcontinued, hescaped] at h
        | some found =>
          simp only [hcontinued, hescaped] at h
          refine .more (by rw [List.length_cons]; omega) h fun taken rest' hcs hlength _ => ?_
          obtain ⟨after', hescaped', hcovered⟩ := escaped_within hescaped hcs hlength rest'
          rw [blockString, if_neg hquote, if_pos hescape, continuedLine_eq_none hescaped',
            hescaped', ← hcovered]
    split at h
    case isTrue hescape hreturn =>
      split at h
      case isFalse => cases h
      case isTrue hnewline =>
        refine .more (by rw [List.length_cons]) h fun taken rest' hcs hlength _ => ?_
        obtain ⟨d, taken, rfl⟩ := List.exists_cons_of_length_pos (l := taken) (by omega)
        rw [blockString, if_neg hquote, if_neg hescape, if_pos hreturn,
          if_pos (by simpa [hcs] using hnewline)]
    split at h
    case isTrue => cases h
    case isFalse hescape hreturn hcontrol =>
      refine .more (by rw [List.length_cons]) h fun _ _ _ _ _ => ?_
      rw [blockString, if_neg hquote, if_neg hescape, if_neg hreturn, if_neg hcontrol]

end

theorem lineBreak_eq_none {c d : Char} (h : lineBreak (c :: d :: cs) = none) (rest : List Char) :
    lineBreak (c :: d :: rest) = none := by
  unfold lineBreak at h ⊢
  split
  case h_1 heq =>
    cases heq
    cases h
  case h_2 heq =>
    cases heq
    cases h
  case h_3 => rfl

theorem local_blockStringBody (quote : Char) (escapes : Bool) :
    Local (blockStringBody quote escapes) := by
  intro cs s rest h
  rw [blockStringBody] at h
  cases hbreak : lineBreak cs with
  | none =>
    rw [hbreak] at h
    obtain ⟨taken, rfl, hlength, -, hread⟩ := (scans_blockString _ _).exists_taken h
    refine ⟨taken, rfl, fun rest' hrest => ?_⟩
    match taken with
    | c :: d :: taken =>
      rw [blockStringBody, show lineBreak (c :: d :: taken ++ rest') = none from
        lineBreak_eq_none hbreak _]
      exact hread rest' hrest.head
  | some line =>
    rw [hbreak] at h
    obtain ⟨taken, rfl, -, -, hread⟩ := (scans_blockString _ _).exists_taken h
    obtain ⟨c, signs, rfl, hline⟩ := exact_lineBreak hbreak
    refine ⟨c :: (signs ++ taken), by simp, fun rest' hrest => ?_⟩
    rw [blockStringBody, List.cons_append, List.append_assoc, hline]
    exact hread rest' hrest.head

/-! ## Keys -/

theorem head?_append_congr {rest' : List Char} (taken : List Char)
    (h : rest'.head? = rest.head?) : (taken ++ rest').head? = (taken ++ rest).head? := by
  rw [List.head?_append, List.head?_append, h]

theorem orFault_eq_ok {found : Option α} {a : α} : orFault found = .ok a ↔ found = some a := by
  cases found <;> simp [orFault]

theorem orFault_map_eq_ok {β : Type} {found : Option α} {f : α → β} {b : β}
    (h : (orFault found).map f = .ok b) : ∃ a, found = some a ∧ f a = b := by
  obtain ⟨a, ha, hb⟩ := map_eq_ok h
  exact ⟨a, orFault_eq_ok.mp ha, hb⟩

theorem simpleKey_local {k : Key} (h : simpleKey cs = .ok (k, rest)) :
    ∃ c taken, cs = c :: (taken ++ rest) ∧ isSpace c = false ∧ ∀ rest', rest'.head? = rest.head? →
      simpleKey (c :: (taken ++ rest'))
        = .ok (⟨k.name, ⟨c :: (taken ++ rest'), rest'⟩⟩, rest') := by
  unfold simpleKey at h
  split at h
  case h_1 | h_2 =>
    obtain ⟨⟨s, rest⟩, hstring, heq⟩ := orFault_map_eq_ok h
    obtain ⟨rfl, rfl⟩ := Prod.mk.inj heq
    obtain ⟨taken, rfl, -, -, hread⟩ := (scans_lineString _ _).exists_taken hstring
    refine ⟨_, taken, rfl, rfl, fun rest' hrest => ?_⟩
    simp [simpleKey, hread rest' hrest, orFault, Except.map]
  case h_3 hdouble hsingle =>
    simp only at h
    split at h
    case isTrue => cases h
    case isFalse hne =>
      split at h
      case isFalse => cases h
      case isTrue hall =>
        obtain ⟨rfl, rfl⟩ := Prod.mk.inj (Except.ok.inj h)
        have hcs := List.takeWhile_append_dropWhile (p := (!endsWord ·)) (l := cs)
        have hlocal (rest' : List Char) (h : rest'.head? = (cs.dropWhile (!endsWord ·)).head?) :=
          takeWhile_local (!endsWord ·) cs rest' (h ▸ stops_dropWhile _ cs)
        cases hword : cs.takeWhile (!endsWord ·) with
        | nil => simp [hword] at hne
        | cons c word =>
          have hc : (!endsWord c) = true :=
            List.mem_takeWhile_imp (p := (!endsWord ·)) (hword ▸ List.mem_cons_self)
          rw [hword, List.cons_append] at hcs
          have hfirst {q : Char} (h : ∀ rest, cs = q :: rest → False) : c ≠ q :=
            fun hq => h _ (hcs.symm.trans (congrArg (· :: _) hq))
          refine ⟨c, word, hcs.symm, ?_, fun rest' hrest => ?_⟩
          · exact Bool.eq_false_iff.mpr fun hspace => by simp [endsWord, hspace] at hc
          · obtain ⟨htake, hdrop⟩ := hlocal rest' hrest
            rw [hword, List.cons_append] at htake hdrop
            rw [hword] at hall
            unfold simpleKey
            split
            case h_1 heq => exact absurd (List.cons.inj heq).1 (hfirst hdouble)
            case h_2 heq => exact absurd (List.cons.inj heq).1 (hfirst hsingle)
            case h_3 =>
              simp only [htake, hdrop, if_pos hall]
              rfl

/-- Keys of the same parts, wherever they stand. -/
def SameKey (k k' : List Key × Key) : Prop :=
  k'.1.map (·.name) = k.1.map (·.name) ∧ k'.2.name = k.2.name

theorem key_dotted {limit : Nat} {first : Key} {behind : List Char} {k : List Key × Key}
    (hfirst : simpleKey (skipSpace cs) = .ok (first, behind)) {next : List Char}
    (hdot : skipSpace behind = '.' :: next) (hothers : key limit next = .ok (k, rest)) :
    key (limit + 1) cs = .ok ((first :: k.1, k.2), rest) := by
  rw [key, hfirst]
  simp only [bind, Except.bind, hdot, hothers]
  rfl

theorem key_last {limit : Nat} {first : Key} {behind : List Char}
    (hfirst : simpleKey (skipSpace cs) = .ok (first, behind)) (hend : skipSpace behind = rest)
    (hdot : rest.head? ≠ some '.') : key (limit + 1) cs = .ok (([], first), rest) := by
  rw [key, hfirst]
  simp only [bind, Except.bind, hend]
  split
  case h_1 => exact absurd rfl hdot
  case h_2 => rfl

/-- A key ends where no other part follows. -/
theorem key_local {limit : Nat} {k : List Key × Key} (h : key limit cs = .ok (k, rest)) :
    ∃ taken, cs = taken ++ rest ∧ ∀ rest', rest'.head? = rest.head? →
      ∃ k', key limit (taken ++ rest') = .ok (k', rest') ∧ SameKey k k' := by
  induction limit generalizing cs k with
  | zero => cases h
  | succ limit ih =>
    obtain ⟨⟨first, behind⟩, hfirst, h⟩ := bind_eq_ok h
    obtain ⟨spaces, hspaces, hskip⟩ := skipSpace_local cs
    obtain ⟨spaces', hspaces', hskip'⟩ := skipSpace_local behind
    have hstop := stops_dropWhile isSpace behind
    obtain ⟨c, word, hword, hc, hread⟩ := simpleKey_local hfirst
    have hcs : cs = spaces ++ c :: (word ++ (spaces' ++ skipSpace behind)) := by
      rw [← hspaces', ← hword, ← hspaces]
    -- whatever follows the first part, as long as it begins as it did
    have hstart (text : List Char) (htext : text.head? = (skipSpace behind).head?) :
        simpleKey (skipSpace (spaces ++ c :: (word ++ (spaces' ++ text)))) = .ok
          (⟨first.name, ⟨c :: (word ++ (spaces' ++ text)), spaces' ++ text⟩⟩, spaces' ++ text) ∧
        skipSpace (spaces' ++ text) = text := by
      refine ⟨?_, hskip' text (htext ▸ hstop)⟩
      rw [hskip (c :: _) fun d hd => Option.mem_some.mp hd ▸ hc]
      exact hread _ (by rw [hspaces']; exact head?_append_congr spaces' htext)
    simp only at h
    split at h
    case h_1 next hnext =>
      obtain ⟨⟨k, rest⟩, hothers, h⟩ := bind_eq_ok h
      obtain ⟨rfl, rfl⟩ := Prod.mk.inj (Except.ok.inj h)
      obtain ⟨taken, rfl, hread'⟩ := ih hothers
      refine ⟨spaces ++ c :: (word ++ (spaces' ++ '.' :: taken)), ?_, fun rest' hrest => ?_⟩
      · rw [hcs, hnext]
        simp
      · obtain ⟨hsimple, hskipped⟩ := hstart ('.' :: (taken ++ rest')) (by rw [hnext]; rfl)
        obtain ⟨k', hk', hpath, hlast⟩ := hread' rest' hrest
        simp only [List.append_assoc, List.cons_append]
        exact ⟨_, key_dotted hsimple hskipped hk', congrArg (first.name :: ·) hpath, hlast⟩
    case h_2 hnext =>
      obtain ⟨rfl, rfl⟩ := Prod.mk.inj (Except.ok.inj h)
      refine ⟨spaces ++ c :: (word ++ spaces'), by rw [hcs]; simp, fun rest' hrest => ?_⟩
      obtain ⟨hsimple, hskipped⟩ := hstart rest' hrest
      have hdot : rest'.head? ≠ some '.' := fun hhead => by
        obtain ⟨next, hcons⟩ := List.head?_eq_some_iff.mp (hrest ▸ hhead)
        exact hnext next hcons
      simp only [List.append_assoc, List.cons_append]
      exact ⟨_, key_last hsimple hskipped hdot, rfl, rfl⟩

/-! ## Lines -/

/-- White space, comments and line breaks end here, or one character is passed over, which may
have looked whether a line feed follows. -/
theorem skipLines_cases {inComment : Bool} {c d : Char}
    (h : skipLines inComment (c :: cs) = some (d :: rest)) :
    (isSolid d ∧ inComment = false ∧ c = d ∧ cs = rest) ∨
      ∃ inComment', skipLines inComment' cs = some (d :: rest) ∧
        ∀ cs', (cs.head? = some '\n' → cs'.head? = some '\n') →
          skipLines inComment (c :: cs') = skipLines inComment' cs' := by
  rw [skipLines] at h
  split at h
  case isTrue hbreak => exact Or.inr ⟨false, h, fun _ _ => by rw [skipLines, if_pos hbreak]⟩
  split at h
  case isTrue hbreak hreturn =>
    split at h
    case isFalse => cases h
    case isTrue hnewline =>
      refine Or.inr ⟨false, h, fun cs' hcs' => ?_⟩
      rw [skipLines, if_neg hbreak, if_pos hreturn, if_pos (hcs' hnewline)]
  split at h
  case isTrue hbreak hreturn hopen =>
    split at h
    case isTrue => cases h
    case isFalse hcontrol =>
      refine Or.inr ⟨true, h, fun _ _ => ?_⟩
      rw [skipLines, if_neg hbreak, if_neg hreturn, if_pos hopen, if_neg hcontrol]
  split at h
  case isTrue hbreak hreturn hopen hspace =>
    refine Or.inr ⟨false, h, fun _ _ => ?_⟩
    rw [skipLines, if_neg hbreak, if_neg hreturn, if_neg hopen, if_pos hspace]
  split at h
  case isTrue hbreak hreturn hopen hspace hcomment =>
    refine Or.inr ⟨true, h, fun _ _ => ?_⟩
    rw [skipLines, if_neg hbreak, if_neg hreturn, if_neg hopen, if_neg hspace, if_pos hcomment]
  case isFalse hbreak hreturn hopen hspace hcomment =>
    obtain ⟨rfl, rfl⟩ := List.cons.inj (Option.some.inj h)
    exact Or.inl ⟨by simp [isSolid, isGap, hbreak, hreturn, hspace, hcomment],
      Bool.eq_false_iff.mpr hopen, rfl, rfl⟩

/-- Where white space, comments and line breaks end, any other solid text may stand. -/
theorem skipLines_local {inComment : Bool} {c : Char}
    (h : skipLines inComment cs = some (c :: rest)) :
    isSolid c ∧ ∃ taken, cs = taken ++ c :: rest ∧
      ∀ d rest', isSolid d → skipLines inComment (taken ++ d :: rest') = some (d :: rest') := by
  induction cs generalizing inComment with
  | nil => cases h
  | cons e cs ih =>
    obtain ⟨hc, rfl, rfl, rfl⟩ | ⟨inComment', hrest, hstep⟩ := skipLines_cases h
    · exact ⟨hc, [], rfl, fun d rest' hd => skipLines_solid hd⟩
    · obtain ⟨hc, taken, rfl, hread⟩ := ih hrest
      refine ⟨hc, e :: taken, rfl, fun d rest' hd => ?_⟩
      rw [List.cons_append, hstep, hread d rest' hd]
      cases taken with
      | nil =>
        rintro ⟨⟩
        exact absurd hc (by decide)
      | cons => exact id

theorem skipComment_local (cs : List Char) : ∃ taken, cs = taken ++ skipComment cs ∧
    ∀ rest, rest.head? = (skipComment cs).head? → skipComment (taken ++ rest) = rest ∧
      (taken ++ rest).head? = cs.head? := by
  unfold skipComment
  split
  case h_1 cs =>
    refine ⟨'#' :: cs.takeWhile (!isControl ·), ?_, fun rest hrest => ⟨?_, rfl⟩⟩
    · rw [List.cons_append, List.takeWhile_append_dropWhile]
    · exact (takeWhile_local (!isControl ·) cs _ fun c hc => stops_dropWhile _ cs c (hrest ▸ hc)).2
  case h_2 hcs =>
    refine ⟨[], rfl, fun rest hrest => ⟨?_, hrest⟩⟩
    split
    case h_1 heq =>
      obtain ⟨rest, rfl⟩ := List.head?_eq_some_iff.mp (hrest ▸ congrArg List.head? heq)
      exact absurd rfl (hcs rest)
    case h_2 => rfl

/-- The end of a line is read by itself, unless the document ends with it. -/
theorem lineEnd_exact (h : lineEnd cs = some rest) (hne : rest ≠ []) :
    ∃ taken, cs = taken ++ rest ∧ ∀ rest', lineEnd (taken ++ rest') = some rest' := by
  obtain ⟨spaces, hspaces, hskip⟩ := skipSpace_local cs
  obtain ⟨comment, hcomment, hread⟩ := skipComment_local (skipSpace cs)
  rw [lineEnd] at h
  split at h
  case h_1 => exact absurd (Option.some.inj h).symm hne
  case h_2 =>
    obtain ⟨c, signs, heq, hbreak⟩ := exact_lineBreak h
    refine ⟨spaces ++ (comment ++ c :: signs), ?_, fun rest' => ?_⟩
    · rw [hspaces, hcomment, heq]
      simp
    · obtain ⟨hskipped, hhead⟩ := hread (c :: (signs ++ rest')) (by rw [heq]; rfl)
      have hspaces' := hskip (comment ++ c :: (signs ++ rest'))
        (hhead ▸ stops_dropWhile isSpace cs)
      simp only [List.append_assoc, List.cons_append]
      rw [lineEnd, hspaces', hskipped]
      exact hbreak rest'

theorem exact_after (c : Char) : ∀ {cs rest : List Char}, after c cs = some rest → cs = c :: rest
  | [], _, h => by cases h
  | d :: cs, rest, h => by
    rw [after] at h
    split at h
    case isTrue hd => rw [hd, Option.some.inj h]
    case isFalse => cases h

/-! ## Words -/

/-- A date with a time behind a space, and what follows the time. -/
def dated (word rest : List Char) : Option (List Char × List Char) :=
  match rest with
  | ' ' :: more =>
    if (date word = some []) ∧ more.head?.any Char.isDigit then
      some (word ++ ' ' :: more.takeWhile isAtomChar, more.dropWhile isAtomChar)
    else none
  | _ => none

theorem atomValue_eq (cs : List Char) : atomValue cs =
    match dated (cs.takeWhile isAtomChar) (cs.dropWhile isAtomChar) with
    | some (word, rest) => (moment word).map fun v => (v, rest)
    | none => (atom (cs.takeWhile isAtomChar)).map fun v => (v, cs.dropWhile isAtomChar) := rfl

theorem dated_eq_some {word behind whole : List Char} (h : dated word behind = some (whole, rest)) :
    ∃ time, behind = ' ' :: (time ++ rest) ∧ ∀ rest', rest'.head? = rest.head? →
      dated word (' ' :: (time ++ rest')) = some (whole, rest') := by
  unfold dated at h
  split at h
  case h_2 => cases h
  case h_1 more =>
    split at h
    case isFalse => cases h
    case isTrue hdate =>
      obtain ⟨rfl, rfl⟩ := Prod.mk.inj (Option.some.inj h)
      refine ⟨more.takeWhile isAtomChar, by rw [List.takeWhile_append_dropWhile],
        fun rest' hr => ?_⟩
      obtain ⟨htake, hdrop⟩ := takeWhile_local isAtomChar more rest'
        (hr ▸ stops_dropWhile isAtomChar more)
      have hhead := head?_append_congr (more.takeWhile isAtomChar) hr
      rw [List.takeWhile_append_dropWhile] at hhead
      rw [dated, hhead, if_pos hdate, htake, hdrop]

theorem dated_eq_none {word rest' : List Char} (h : dated word rest = none)
    (hkin : Kin rest rest') : dated word rest' = none := by
  unfold dated at h ⊢
  split
  case h_2 => rfl
  case h_1 more' =>
    obtain ⟨more, rfl⟩ := List.head?_eq_some_iff.mp hkin.head.symm
    have hless : more'.head?.any Char.isDigit → more.head?.any Char.isDigit := hkin.digit
    refine if_neg fun hdate => ?_
    simp only [if_pos (And.intro hdate.1 (hless hdate.2))] at h
    cases h

theorem local_atomValue : Local atomValue := by
  intro cs v rest h
  rw [atomValue_eq] at h
  have hcs := List.takeWhile_append_dropWhile (p := isAtomChar) (l := cs)
  have hstop := stops_dropWhile isAtomChar cs
  cases hdated : dated (cs.takeWhile isAtomChar) (cs.dropWhile isAtomChar) with
  | none =>
    rw [hdated] at h
    obtain ⟨v', hatom, heq⟩ := Option.map_eq_some_iff.mp h
    obtain ⟨rfl, rfl⟩ := Prod.mk.inj heq
    refine ⟨cs.takeWhile isAtomChar, hcs.symm, fun rest' hkin => ?_⟩
    obtain ⟨htake, hdrop⟩ := takeWhile_local isAtomChar cs rest' (hkin.head ▸ hstop)
    rw [atomValue_eq, htake, hdrop, dated_eq_none hdated hkin, hatom]
    rfl
  | some found =>
    obtain ⟨whole, behind⟩ := found
    rw [hdated] at h
    obtain ⟨v', hmoment, heq⟩ := Option.map_eq_some_iff.mp h
    obtain ⟨rfl, rfl⟩ := Prod.mk.inj heq
    obtain ⟨time, htime, hread⟩ := dated_eq_some hdated
    refine ⟨cs.takeWhile isAtomChar ++ ' ' :: time, ?_, fun rest' hkin => ?_⟩
    · rw [List.append_assoc, List.cons_append, ← htime, hcs]
    · obtain ⟨htake, hdrop⟩ := takeWhile_local isAtomChar cs (' ' :: (time ++ rest'))
        fun c hc => by cases hc; rfl
      rw [List.append_assoc, List.cons_append, atomValue_eq, htake, hdrop, hread rest' hkin.head]
      simp only [hmoment]
      rfl

end ModelScribe.Toml
