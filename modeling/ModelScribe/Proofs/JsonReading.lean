-- The steps of the JSON reader. Which fault a step reports is of no concern
-- here, so its result is taken without the failure. A reader that meets the
-- beginning of a value of another shape refuses it; between the items of a
-- list and the members of an object the next one is found, or the end.
import ModelScribe.Proofs.JsonText

namespace ModelScribe.Json

/-! ## Results without their failures -/

section

variable {α β : Type}

@[simp] theorem toOption_andThen (step : Step α) (next : α → List Char → Except Failure β) :
    (step.andThen next).toOption = step.toOption.bind fun p => (next p.1 p.2).toOption := by
  cases step <;> rfl

@[simp] theorem andThen_ok (a : α) (rest : List Char) (next : α → List Char → Except Failure β) :
    Step.andThen (.ok (a, rest)) next = next a rest := rfl

@[simp] theorem toOption_failHere (cause : Cause) (rest : List Char) :
    (failHere cause rest : Except Failure α).toOption = none := rfl

@[simp] theorem toOption_failAhead (cause : Cause) (rest : List Char) :
    (failAhead cause rest : Except Failure α).toOption = none := rfl

/-- What is left of a result when its container is left. -/
def left (close : List Char → List Char × Option Failure) (p : α × List Char) :
    Option (α × List Char) :=
  match close p.2 with
  | (rest, none) => some (p.1, rest)
  | (_, some _) => none

theorem toOption_enclosed (close : List Char → List Char × Option Failure) (body : Step α) :
    (enclosed close body).toOption = body.toOption.bind (left close) := by
  match body with
  | .ok (a, rest) =>
    rcases hclose : close rest with ⟨after, _ | f⟩ <;>
      simp [enclosed, left, hclose, Except.toOption]
  | .error (.loose cause rest) => rfl
  | .error (.placed cause rest bytes) => rfl

/-- A step that only ever fails may as well be left out. -/
theorem toOption_andThen_eq_none {step : Step α} {next : α → List Char → Except Failure β}
    (h : ∀ a rest, (next a rest).toOption = none) : (step.andThen next).toOption = none := by
  rw [toOption_andThen, Option.bind_eq_none_iff]
  exact fun p _ => h p.1 p.2

/-- What is made of a result does not touch how its container is left. -/
theorem bind_left_map {close : List Char → List Char × Option Failure} (f : α → β)
    (o : Option (α × List Char)) :
    (o.bind fun p => some (f p.1, p.2)).bind (left close)
      = (o.bind (left close)).map fun p => (f p.1, p.2) := by
  rcases o with _ | ⟨a, rest⟩
  · rfl
  · rcases hclose : close rest with ⟨after, _ | fault⟩ <;> simp [left, hclose]

theorem toOption_mismatch (expected : String) (cs : List Char) :
    (mismatch expected cs : Except Failure α).toOption = none := by
  unfold mismatch
  dsimp only
  split
  case h_5 => exact toOption_andThen_eq_none fun n _ => by cases n <;> rfl
  case h_8 =>
    split
    · exact toOption_andThen_eq_none fun n _ => by cases n <;> rfl
    · rfl
  all_goals simp

end

/-! ## Texts, flags, small numbers and scalars -/

section

variable {cs : List Char} {fuel levels : Nat}

/-- White space in front of a value does not count. -/
theorem anyValue_skipSpace (cs : List Char) :
    anyValue fuel levels (skipSpace cs) = anyValue fuel levels cs := by
  rw [anyValue.eq_def, anyValue.eq_def fuel levels cs, skipSpace_skipSpace]

theorem readKind_skipSpace (k : Kind) (cs : List Char) :
    readKind fuel levels k (skipSpace cs) = readKind fuel levels k cs := by
  cases k <;>
    simp only [readKind, textValue, flagValue, byteValue, scalarValue, anyValue_skipSpace,
      skipSpace_skipSpace]

section

variable {c : Char} (hc : isSpace c = false)

include hc

theorem textValue_refuses (h : c ≠ '"') : (textValue (c :: cs)).toOption = none := by
  rw [textValue, skipSpace_cons hc]
  split
  · rename_i heq
    exact absurd (List.cons.inj heq).1 h
  · exact toOption_mismatch ..

theorem flagValue_refuses (ht : c ≠ 't') (hf : c ≠ 'f') :
    (flagValue (c :: cs)).toOption = none := by
  rw [flagValue, skipSpace_cons hc]
  split
  · rename_i heq
    exact absurd (List.cons.inj heq).1 ht
  · rename_i heq
    exact absurd (List.cons.inj heq).1 hf
  · exact toOption_mismatch ..

theorem byteValue_refuses (hsign : c ≠ '-') (hdigit : isDigit c = false) :
    (byteValue (c :: cs)).toOption = none := by
  rw [byteValue, skipSpace_cons hc]
  split
  · rename_i heq
    exact absurd (List.cons.inj heq).1 hsign
  · rename_i heq
    obtain rfl := (List.cons.inj heq).1
    rw [hdigit]
    exact toOption_mismatch ..
  · rename_i heq
    cases heq

end

/-- Nothing is kept of a container, whatever it holds. -/
theorem scalarValue_container {α : Type} {close : List Char → List Char × Option Failure}
    {step : Step α} (h : anyValue fuel levels cs
      = enclosed close (step.andThen fun _ rest => .ok (none, rest))) :
    (scalarValue fuel levels cs).toOption = none := by
  rw [scalarValue, toOption_andThen, h, toOption_enclosed, toOption_andThen]
  rcases step.toOption with _ | ⟨a, rest⟩
  · rfl
  · rcases hclose : close rest with ⟨after, _ | f⟩ <;> simp [left, hclose, Except.toOption]

end

/-! ## Lists -/

section

variable {chunk body rest : List Char} {chunks : List (List Char)}

theorem nextItem_done {first : Bool} {gap : List Char} (hgap : ∀ c ∈ gap, isSpace c)
    (rest : List Char) : nextItem first (gap ++ ']' :: rest) = .ok (false, ']' :: rest) := by
  rw [nextItem, skipSpace_append hgap, skipSpace_cons rfl]
  rfl

theorem nextItem_comma {gap : List Char} (hgap : ∀ c ∈ gap, isSpace c) (cs : List Char) :
    nextItem false (gap ++ ',' :: cs) = match skipSpace cs with
      | [] => failAhead .endInValue []
      | ']' :: rest => failAhead .trailingComma (']' :: rest)
      | rest => .ok (true, rest) := by
  rw [nextItem, skipSpace_append hgap, skipSpace_cons rfl]
  rfl

/-- The next chunk is found behind the comma, if there is one to be, and the white space. -/
theorem nextItem_chunk {first : Bool} (h : Separated isSpace first (chunk :: chunks) body)
    (hchunk : ∃ c cs, chunk = c :: cs ∧ c ∉ delimiters) :
    ∃ tail, Separated isSpace false chunks tail ∧
      ∀ rest, nextItem first (body ++ rest) = .ok (true, chunk ++ (tail ++ rest)) := by
  obtain ⟨c, cs, rfl, hc⟩ := hchunk
  have hclose : c ≠ ']' := fun h => hc (h ▸ by decide)
  cases h with
  | @first gap _ tail _ hgap htail =>
    refine ⟨tail, htail, fun rest => ?_⟩
    rw [List.append_assoc, nextItem, skipSpace_append hgap, List.append_assoc, List.cons_append,
      skipSpace_cons (isSpace_eq_false hc)]
    simp
  | @next gap gap' _ tail _ hgap hgap' htail =>
    refine ⟨tail, htail, fun rest => ?_⟩
    have hstart :
        skipSpace (gap' ++ c :: (cs ++ (tail ++ rest))) = c :: (cs ++ (tail ++ rest)) := by
      rw [skipSpace_append hgap', skipSpace_cons (isSpace_eq_false hc)]
    simp only [List.append_assoc, List.cons_append, nextItem_comma hgap, hstart]
    split
    · rename_i heq
      cases heq
    · rename_i heq
      exact absurd (List.cons.inj heq).1 hclose
    · rfl

theorem left_closeList {α : Type} (a : α) {gap : List Char} (hgap : ∀ c ∈ gap, isSpace c)
    (rest : List Char) : left closeList (a, gap ++ ']' :: rest) = some (a, rest) := by
  rw [left, closeList, skipSpace_append hgap, skipSpace_cons rfl]
  rfl

/-- A list that does not end here is not left. -/
theorem left_closeList_chunk {α : Type} (a : α) {first : Bool}
    (h : Separated isSpace first (chunk :: chunks) body)
    (hchunk : ∃ c cs, chunk = c :: cs ∧ c ∉ delimiters) (rest : List Char) :
    left closeList (a, body ++ rest) = none := by
  obtain ⟨c, cs, rfl, hc⟩ := hchunk
  have hclose : c ≠ ']' := fun h => hc (h ▸ by decide)
  have hcomma : c ≠ ',' := fun h => hc (h ▸ by decide)
  cases h with
  | @first gap _ tail _ hgap htail =>
    rw [left, closeList, List.append_assoc, skipSpace_append hgap, List.append_assoc,
      List.cons_append, skipSpace_cons (isSpace_eq_false hc)]
    split
    · rename_i heq
      split at heq
      · simp at heq
      · rename_i h
        exact absurd (List.cons.inj h).1 hclose
      · rename_i h
        exact absurd (List.cons.inj h).1 hcomma
      · simp at heq
    · rfl
  | @next gap gap' _ tail _ hgap hgap' htail =>
    have hstart :
        skipSpace (gap' ++ c :: (cs ++ (tail ++ rest))) = c :: (cs ++ (tail ++ rest)) := by
      rw [skipSpace_append hgap', skipSpace_cons (isSpace_eq_false hc)]
    rw [left, closeList, List.append_assoc, skipSpace_append hgap, List.cons_append,
      skipSpace_cons rfl]
    simp only [List.append_assoc, List.cons_append, hstart]
    split
    · rename_i heq
      split at heq <;> simp at heq
    · rfl

end

/-! ## Objects -/

section

variable {body rest : List Char}

theorem nextKey_done {first : Bool} {gap : List Char} (hgap : ∀ c ∈ gap, isSpace c)
    (rest : List Char) : nextKey first (gap ++ '\x7d' :: rest) = .ok (false, '\x7d' :: rest) := by
  rw [nextKey, skipSpace_append hgap, skipSpace_cons rfl]
  rfl

theorem nextKey_chunk {first : Bool} {chunk : List Char} {chunks : List (List Char)}
    (h : Separated isSpace first (('"' :: chunk) :: chunks) body) :
    ∃ tail, Separated isSpace false chunks tail ∧
      ∀ rest, nextKey first (body ++ rest) = .ok (true, '"' :: (chunk ++ (tail ++ rest))) := by
  cases h with
  | @first gap _ tail _ hgap htail =>
    refine ⟨tail, htail, fun rest => ?_⟩
    rw [List.append_assoc, nextKey, skipSpace_append hgap, List.append_assoc, List.cons_append,
      skipSpace_cons rfl]
    rfl
  | @next gap gap' _ tail _ hgap hgap' htail =>
    refine ⟨tail, htail, fun rest => ?_⟩
    rw [List.append_assoc, nextKey, skipSpace_append hgap, List.cons_append, skipSpace_cons rfl]
    simp [skipSpace_append hgap', skipSpace_cons (c := '"') rfl]

end

/-! ## Kinds -/

section

variable {fuel levels : Nat} {cs : List Char}

theorem readKind_list (k : Kind) :
    readKind fuel (levels + 1) (.list k) ('[' :: cs)
      = enclosed closeList (items (fun cs => readKind fuel levels k cs) fuel true cs) := by
  rw [readKind, skipSpace_cons rfl]
  rfl

theorem readKind_places (name : String) (fs : Fields) :
    readKind fuel (levels + 1) (.record name fs) ('[' :: cs)
      = enclosed closeList (readPlaces fuel levels fs true cs) := by
  rw [readKind, skipSpace_cons rfl]
  rfl

/-- Reads what follows a key: the value of the field with this key, or any other. -/
def readMember (fuel levels : Nat) (fs : Fields) (key : String) (stated : fs.Values)
    (cs : List Char) : Step fs.Values :=
  match readField fuel levels fs key stated cs with
  | some step => step
  | none => skipMember stated cs

theorem readKind_members (name : String) (fs : Fields) :
    readKind fuel (levels + 1) (.record name fs) ('\x7b' :: cs)
      = enclosed closeObject (members (readMember fuel levels fs) fuel true fs.unstated cs) := by
  rw [readKind, skipSpace_cons rfl]
  rfl

theorem readKind_list_refuses (k : Kind) {c : Char} (hc : isSpace c = false) (h : c ≠ '[') :
    (readKind fuel levels (.list k) (c :: cs)).toOption = none := by
  rw [readKind, skipSpace_cons hc]
  split
  · rename_i heq
    exact absurd (List.cons.inj heq).1 h
  · exact toOption_mismatch ..

theorem readKind_record_refuses (name : String) (fs : Fields) {c : Char} (hc : isSpace c = false)
    (h : c ≠ '[') (h' : c ≠ '\x7b') :
    (readKind fuel levels (.record name fs) (c :: cs)).toOption = none := by
  rw [readKind, skipSpace_cons hc]
  split
  · rename_i heq
    exact absurd (List.cons.inj heq).1 h
  · rename_i heq
    exact absurd (List.cons.inj heq).1 h'
  · exact toOption_mismatch ..

end

end ModelScribe.Json
