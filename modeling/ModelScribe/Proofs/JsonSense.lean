-- What a node says at a place of a kind, if it can stand there. Fields may be
-- stated by position or member by member; a member whose key is that of no
-- field says nothing, whatever its value, and a field must not be stated
-- twice. The reader makes of the text of a node what the node says.
import ModelScribe.Proofs.JsonReading
import ModelScribe.Proofs.JsonSyntax

namespace ModelScribe.Json

/-! ## Sense -/

/-- A number from 0 to 255 that is written as an integer. -/
def Number.byte? (n : Number) : Option UInt8 := (byteOf n []).toOption.map (·.1)

/-- A string, a number or a flag, as text. -/
def Node.scalar : Node → Option String
  | .text body => denoted body
  | .flag b => some (if b then "true" else "false")
  | .number negative magnitude => (numeral negative magnitude).map (·.text)
  | _ => none

mutual

/-- What a node says at a place of the kind. -/
def sense (k : Kind) (n : Node) : Option k.Value :=
  match k with
  | .text =>
    match n with
    | .text body => denoted body
    | _ => none
  | .flag =>
    match n with
    | .flag b => some b
    | _ => none
  | .byte =>
    match n with
    | .number negative magnitude => (numeral negative magnitude).bind (·.byte?)
    | _ => none
  | .scalar => n.scalar
  | .optional k =>
    match n with
    | .null => some none
    | n => (sense k n).map some
  | .list k =>
    match n with
    | .list ns => ns.mapM fun n => sense k n
    | _ => none
  | .record _ fs =>
    match n with
    | .list ns => senseAt fs ns
    | .object ms =>
      ms.foldlM (fun stated m => (denoted m.1).bind fun key => note fs key m.2 stated) fs.unstated
    | _ => none

/-- What nodes say about the fields at their positions. -/
def senseAt (fs : Fields) (ns : List Node) : Option fs.Values :=
  match fs with
  | .nil => if ns.isEmpty then some () else none
  | .cons _ k rest =>
    match ns with
    | [] => some (none, rest.unstated)
    | n :: ns => (sense k n).bind fun a => (senseAt rest ns).map fun as => (some a, as)

/-- What is stated once a member says something about the field with its key, which must not
have been stated before. -/
def note (fs : Fields) (key : String) (n : Node) (stated : fs.Values) : Option fs.Values :=
  match fs with
  | .nil => some ()
  | .cons name k rest =>
    if key = name then
      if stated.1.isSome then none else (sense k n).map fun a => (some a, stated.2)
    else (note rest key n stated.2).map fun as => (stated.1, as)

end

/-- What is stated once a member is read. Its key has to denote a text. -/
def noteMember (fs : Fields) (stated : fs.Values) (m : List Char × Node) : Option fs.Values :=
  (denoted m.1).bind fun key => note fs key m.2 stated

theorem sense_object (name : String) (fs : Fields) (ms : List (List Char × Node)) :
    sense (.record name fs) (.object ms) = ms.foldlM (noteMember fs) fs.unstated := rfl

/-- A member whose key is that of no field says nothing. -/
theorem note_of_not_mem (fs : Fields) {key : String} (n : Node) (stated : fs.Values)
    (h : key ∉ fs.keys) : note fs key n stated = some stated := by
  match fs with
  | .nil => rfl
  | .cons name k rest =>
    obtain ⟨hname, hrest⟩ : key ≠ name ∧ key ∉ rest.keys := by simpa [Fields.keys] using h
    rw [note, if_neg hname, note_of_not_mem rest n stated.2 hrest]
    rfl

theorem sense_optional (k : Kind) {n : Node} (h : n ≠ .null) :
    sense (.optional k) n = (sense k n).map some := by
  cases n <;> simp [sense] at h ⊢

/-! ## Texts, flags, numbers and scalars -/

section

variable {n : Node} {cs rest : List Char} {fuel levels : Nat}

theorem skipSpace_written (h : n.Writes cs) (rest : List Char) :
    skipSpace (cs ++ rest) = cs ++ rest := by
  obtain ⟨c, tail, rfl, hc⟩ := h.exists_cons
  exact skipSpace_cons hc.isSpace

theorem textValue_written (h : n.Writes cs) (rest : List Char) :
    (textValue (cs ++ rest)).toOption = (sense .text n).map (·, rest) := by
  cases n with
  | text body =>
    rw [textValue, skipSpace_written h]
    cases h with
    | text h => simpa [sense] using string_body h rest
  | number negative magnitude =>
    obtain ⟨c, tail, rfl, hc⟩ := h.exists_cons
    exact textValue_refuses hc.isSpace (hc.ne (by simp [Node.BeginsWith, isDigit]))
  | _ =>
    obtain ⟨c, tail, rfl, hc⟩ := h.exists_cons
    exact textValue_refuses hc.isSpace (hc.ne (by simp [Node.BeginsWith]))

theorem flagValue_written (h : n.Writes cs) (rest : List Char) :
    (flagValue (cs ++ rest)).toOption = (sense .flag n).map (·, rest) := by
  cases n with
  | flag b => cases h <;> rfl
  | number negative magnitude =>
    obtain ⟨c, tail, rfl, hc⟩ := h.exists_cons
    exact flagValue_refuses hc.isSpace (hc.ne (by simp [Node.BeginsWith, isDigit]))
      (hc.ne (by simp [Node.BeginsWith, isDigit]))
  | _ =>
    obtain ⟨c, tail, rfl, hc⟩ := h.exists_cons
    exact flagValue_refuses hc.isSpace (hc.ne (by simp [Node.BeginsWith]))
      (hc.ne (by simp [Node.BeginsWith]))

theorem toOption_byteOf_eq (x : Number) (rest : List Char) :
    (byteOf x rest).toOption = x.byte?.map (·, rest) := by
  cases x with
  | real x => rfl
  | integer z =>
    simp only [Number.byte?, byteOf]
    split <;> rfl

theorem byteValue_written (h : n.Writes cs) (hrest : Delimited rest) :
    (byteValue (cs ++ rest)).toOption = (sense .byte n).map (·, rest) := by
  cases n with
  | number negative magnitude =>
    rw [byteValue, skipSpace_written h]
    cases h with
    | number _ h =>
      have hread (negative : Bool) : ((number negative (magnitude ++ rest)).andThen byteOf).toOption
          = ((numeral negative magnitude).bind (·.byte?)).map (·, rest) := by
        rw [toOption_andThen, number_magnitude negative h hrest]
        cases numeral negative magnitude with
        | none => rfl
        | some x => exact toOption_byteOf_eq x rest
      cases negative with
      | true => exact hread true
      | false =>
        obtain ⟨d, ds, rfl, hd⟩ := h.exists_cons
        have hread := hread false
        rw [Node.sign, if_neg (by decide), List.nil_append, List.cons_append]
        split
        case h_1 heq =>
          obtain rfl := (List.cons.inj heq).1
          cases hd
        case h_2 heq =>
          cases heq
          rw [if_pos hd]
          exact hread
        case h_3 heq => cases heq
  | _ =>
    obtain ⟨c, tail, rfl, hc⟩ := h.exists_cons
    exact byteValue_refuses hc.isSpace (hc.ne (by simp [Node.BeginsWith])) (hc.not_digit (by simp))

theorem anyValue_number (negative : Bool) (h : IsMagnitude cs) (hrest : Delimited rest) :
    (anyValue fuel levels (Node.sign negative ++ cs ++ rest)).toOption
      = (numeral negative cs).map fun x => (some x.text, rest) := by
  have hread :
      ((number negative (cs ++ rest)).andThen fun x rest => .ok (some x.text, rest)).toOption
        = (numeral negative cs).map fun x => (some x.text, rest) := by
    rw [toOption_andThen, number_magnitude negative h hrest]
    cases numeral negative cs <;> rfl
  cases negative with
  | true =>
    rw [Node.sign, if_pos rfl, List.singleton_append, List.cons_append, anyValue.eq_def,
      skipSpace_cons rfl]
    exact hread
  | false =>
    obtain ⟨d, ds, rfl, hd⟩ := h.exists_cons
    rw [Node.sign, if_neg (by decide), List.nil_append, List.cons_append, anyValue.eq_def,
      skipSpace_cons (isSpace_eq_false (not_mem_delimiters_of_isDigit hd))]
    -- a digit begins none of the other values
    split
    case h_8 heq =>
      cases heq
      rw [if_pos hd]
      exact hread
    case h_9 heq => cases heq
    all_goals
      rename_i heq
      obtain rfl := (List.cons.inj heq).1
      exact absurd hd (by decide)

theorem scalarValue_written (h : n.Writes cs) (hrest : Delimited rest) :
    (scalarValue fuel levels (cs ++ rest)).toOption = n.scalar.map (·, rest) := by
  cases h with
  | text h =>
    have hstring := string_body h rest
    rw [scalarValue, anyValue.eq_def, List.cons_append, skipSpace_cons rfl]
    simp only [toOption_andThen, List.append_assoc, List.singleton_append, hstring, Node.scalar]
    cases denoted _ <;> rfl
  | number negative h =>
    rw [scalarValue, toOption_andThen, anyValue_number negative h hrest, Node.scalar]
    cases numeral negative _ <;> rfl
  | yes => rw [scalarValue, anyValue.eq_def]; rfl
  | no => rw [scalarValue, anyValue.eq_def]; rfl
  | null => rw [scalarValue, anyValue.eq_def]; rfl
  | list =>
    cases levels with
    | zero => rw [scalarValue, anyValue.eq_def]; rfl
    | succ levels => exact scalarValue_container (by rw [anyValue.eq_def]; rfl)
  | object =>
    cases levels with
    | zero => rw [scalarValue, anyValue.eq_def]; rfl
    | succ levels => exact scalarValue_container (by rw [anyValue.eq_def]; rfl)

end

/-! ## Lists and objects -/

section

variable {α β : Type} {body rest : List Char} {fs : Fields} {es : List Entry} {fuel : Nat}

/-- Items are read one by one, up to the bracket that closes the list. -/
theorem items_written (item : List Char → Step α) (read : β → Option α) (text : β → List Char)
    {parts : List β} {first : Bool} (hhead : ∀ p ∈ parts, ∃ c cs, text p = c :: cs ∧ c ∉ delimiters)
    (hitem : ∀ p ∈ parts, ∀ rest, Delimited rest →
      (item (text p ++ rest)).toOption = (read p).map (·, rest))
    (hbody : Separated isSpace first (parts.map text) body) (fuel : Nat)
    (hfuel : parts.length < fuel) (rest : List Char) :
    (items item fuel first (body ++ ']' :: rest)).toOption
      = (parts.mapM read).map (·, ']' :: rest) := by
  induction parts generalizing first body fuel with
  | nil =>
    obtain ⟨fuel, rfl⟩ : ∃ f, fuel = f + 1 := ⟨fuel - 1, by omega⟩
    cases hbody with
    | done hgap =>
      rw [items, nextItem_done hgap]
      rfl
  | cons p parts ih =>
    obtain ⟨fuel, rfl⟩ : ∃ f, fuel = f + 1 := ⟨fuel - 1, by omega⟩
    obtain ⟨tail, htail, hnext⟩ := nextItem_chunk hbody (hhead p List.mem_cons_self)
    have hdelimited : Delimited (tail ++ ']' :: rest) :=
      htail.delimited (fun _ => mem_delimiters_of_isSpace) (by simp [delimiters])
    have hrest := ih (fun q hq => hhead q (List.mem_cons_of_mem _ hq))
      (fun q hq => hitem q (List.mem_cons_of_mem _ hq)) htail fuel
      (by simpa using hfuel)
    rw [items, hnext, andThen_ok, if_pos rfl, toOption_andThen,
      hitem p List.mem_cons_self _ hdelimited, List.mapM_cons]
    cases read p with
    | none => rfl
    | some a =>
      rw [Option.map_some, Option.bind_some, toOption_andThen, hrest]
      cases parts.mapM read <;> rfl

/-- Members are read one by one, up to the brace that closes the object. -/
theorem members_written (member : String → fs.Values → List Char → Step fs.Values)
    (hes : ∀ e ∈ es, e.Sound)
    (hmember : ∀ e ∈ es, ∀ key stated rest, Delimited rest →
      (member key stated (e.afterKey ++ rest)).toOption
        = (note fs key e.value stated).map (·, rest))
    {first : Bool} (hbody : Separated isSpace first (es.map (·.text)) body) (fuel : Nat)
    (hfuel : es.length < fuel) (stated : fs.Values) (rest : List Char) :
    (members member fuel first stated (body ++ '\x7d' :: rest)).toOption
      = ((es.map (·.member)).foldlM (noteMember fs) stated).map (·, '\x7d' :: rest) := by
  induction es generalizing first body fuel stated with
  | nil =>
    obtain ⟨fuel, rfl⟩ : ∃ f, fuel = f + 1 := ⟨fuel - 1, by omega⟩
    cases hbody with
    | done hgap =>
      rw [members, nextKey_done hgap]
      rfl
  | cons e es ih =>
    obtain ⟨fuel, rfl⟩ : ∃ f, fuel = f + 1 := ⟨fuel - 1, by omega⟩
    obtain ⟨tail, htail, hnext⟩ := nextKey_chunk hbody
    have hdelimited : Delimited (tail ++ '\x7d' :: rest) :=
      htail.delimited (fun _ => mem_delimiters_of_isSpace) (by simp [delimiters])
    have hrest := ih (fun f hf => hes f (List.mem_cons_of_mem _ hf))
      (fun f hf => hmember f (List.mem_cons_of_mem _ hf)) htail fuel (by simpa using hfuel)
    rw [members, hnext, andThen_ok, if_pos rfl, List.drop_one, List.tail_cons, List.append_assoc,
      List.cons_append, toOption_andThen, string_body (hes e List.mem_cons_self).key,
      List.map_cons, List.foldlM_cons, Entry.member, noteMember]
    cases denoted e.key with
    | none => rfl
    | some key =>
      rw [Option.map_some, Option.bind_some, toOption_andThen,
        hmember e List.mem_cons_self _ _ _ hdelimited, Option.bind_some]
      cases note fs key e.value stated with
      | none => rfl
      | some stated' => exact hrest stated'

end

/-! ## Kinds -/

section

variable {fuel : Nat}

/-- At a place of the kind, the text of a node is read as what the node says. -/
def ReadsWritten (fuel : Nat) (k : Kind) : Prop :=
  ∀ ⦃levels : Nat⦄ ⦃n : Node⦄ ⦃cs rest : List Char⦄, k.height ≤ levels → n.Writes cs →
    cs.length < fuel → Delimited rest →
    (readKind fuel levels k (cs ++ rest)).toOption = (sense k n).map (·, rest)

/-- Only the word for what is missing is read otherwise. -/
theorem ReadsWritten.optional {k : Kind} (hk : ReadsWritten fuel k) :
    ReadsWritten fuel (.optional k) := by
  intro levels n cs rest hlevels h hfuel hrest
  by_cases hn : n = .null
  · subst hn
    cases h
    rw [readKind]
    rfl
  · have hsome := hk hlevels h hfuel hrest
    rw [readKind, skipSpace_written h]
    split
    · rename_i heq
      obtain ⟨c, tail, rfl, hc⟩ := h.exists_cons
      refine absurd (List.cons.inj heq).1 (hc.ne ?_)
      cases n <;> simp [Node.BeginsWith, isDigit] at hn ⊢
    · rw [toOption_andThen, hsome, sense_optional k hn]
      cases sense k n <;> rfl

/-- A list is read item by item, each of them one level further in. -/
theorem ReadsWritten.list {k : Kind} (hk : ReadsWritten fuel k) : ReadsWritten fuel (.list k) := by
  intro levels n cs rest hlevels h hfuel _
  cases n with
  | list ns =>
    obtain ⟨levels, rfl⟩ := Nat.exists_eq_add_of_le' (Nat.le_of_add_left_le hlevels)
    cases h with
    | @list body parts hparts hbody =>
      simp only [List.length_cons, List.length_append] at hfuel
      obtain ⟨hcount, hlength⟩ :=
        bounds_of_total_le hbody.total_le fun p hp => (hparts p hp).length_pos
      have hitems := items_written (fun cs => readKind fuel levels k cs) (fun p => sense k p.1)
        (·.2)
        (fun p hp => by
          obtain ⟨c, tail, htail, hc⟩ := (hparts p hp).exists_cons
          exact ⟨c, tail, htail, hc.not_mem_delimiters⟩)
        (fun p hp rest hrest => hk (Nat.le_of_add_le_add_right hlevels) (hparts p hp)
          (by have := hlength p hp; omega) hrest)
        hbody fuel (by omega) rest
      rw [List.cons_append, List.append_assoc, List.singleton_append, readKind_list,
        toOption_enclosed, hitems, sense, List.mapM_map, Function.comp_def]
      cases parts.mapM fun p => sense k p.1 <;> rfl
  | _ =>
    obtain ⟨c, tail, rfl, hc⟩ := h.exists_cons
    exact readKind_list_refuses k hc.isSpace (hc.ne (by simp [Node.BeginsWith, isDigit]))

/-- The items of a list are read as what they say about the fields at their positions. -/
def PlacesWritten (fuel : Nat) (fs : Fields) : Prop :=
  ∀ ⦃levels : Nat⦄ ⦃parts : List (Node × List Char)⦄ ⦃first : Bool⦄ ⦃body : List Char⦄,
    fs.height ≤ levels → (∀ p ∈ parts, p.1.Writes p.2) → (∀ p ∈ parts, p.2.length < fuel) →
    Separated isSpace first (parts.map (·.2)) body → ∀ rest,
    (readPlaces fuel levels fs first (body ++ ']' :: rest)).toOption.bind (left closeList)
      = (senseAt fs (parts.map (·.1))).map (·, rest)

/-- A member is read as what it says about the field with its key. -/
def MemberWritten (fuel : Nat) (fs : Fields) : Prop :=
  ∀ ⦃levels : Nat⦄ ⦃e : Entry⦄ ⦃rest : List Char⦄ (key : String) (stated : fs.Values),
    fs.height ≤ levels → e.Sound → e.value.Writes e.valueText → e.valueText.length < fuel →
    Delimited rest →
    (readMember fuel levels fs key stated (e.afterKey ++ rest)).toOption
      = (note fs key e.value stated).map (·, rest)

/-- The fields of a record are read by position or member by member. -/
theorem ReadsWritten.record (name : String) {fs : Fields} (hplaces : PlacesWritten fuel fs)
    (hmember : MemberWritten fuel fs) : ReadsWritten fuel (.record name fs) := by
  intro levels n cs rest hlevels h hfuel _
  cases n with
  | list ns =>
    obtain ⟨levels, rfl⟩ := Nat.exists_eq_add_of_le' (Nat.le_of_add_left_le hlevels)
    cases h with
    | @list body parts hparts hbody =>
      simp only [List.length_cons, List.length_append] at hfuel
      obtain ⟨-, hlength⟩ :=
        bounds_of_total_le hbody.total_le fun p hp => (hparts p hp).length_pos
      rw [List.cons_append, List.append_assoc, List.singleton_append, readKind_places,
        toOption_enclosed, sense]
      exact hplaces (Nat.le_of_add_le_add_right hlevels) hparts
        (fun p hp => by have := hlength p hp; omega) hbody rest
  | object ms =>
    obtain ⟨levels, rfl⟩ := Nat.exists_eq_add_of_le' (Nat.le_of_add_left_le hlevels)
    cases h with
    | @object body es hes hvalues hbody =>
      simp only [List.length_cons, List.length_append] at hfuel
      obtain ⟨hcount, hlength⟩ := bounds_of_total_le hbody.total_le
        fun e _ => Nat.zero_lt_of_lt e.valueText_length_lt
      have hvalue (e) (he : e ∈ es) : e.valueText.length < fuel := by
        have := hlength e he
        have := e.valueText_length_lt
        omega
      have hmembers := members_written (readMember fuel levels fs) hes
        (fun e he key stated rest hrest => hmember key stated
          (Nat.le_of_add_le_add_right hlevels) (hes e he) (hvalues e he) (hvalue e he) hrest)
        hbody fuel (by omega) fs.unstated rest
      rw [List.cons_append, List.append_assoc, List.singleton_append, readKind_members,
        toOption_enclosed, hmembers, sense_object]
      cases (es.map (·.member)).foldlM (noteMember fs) fs.unstated <;> rfl
  | _ =>
    obtain ⟨c, tail, rfl, hc⟩ := h.exists_cons
    exact readKind_record_refuses name fs hc.isSpace
      (hc.ne (by simp [Node.BeginsWith, isDigit])) (hc.ne (by simp [Node.BeginsWith, isDigit]))

mutual

/-- The text of a node is read as what the node says. -/
theorem readKind_written (k : Kind) : ReadsWritten fuel k := by
  match k with
  | .text =>
    intro levels n cs rest _ h _ _
    rw [readKind]
    exact textValue_written h rest
  | .flag =>
    intro levels n cs rest _ h _ _
    rw [readKind]
    exact flagValue_written h rest
  | .byte =>
    intro levels n cs rest _ h _ hrest
    rw [readKind]
    exact byteValue_written h hrest
  | .scalar =>
    intro levels n cs rest _ h _ hrest
    rw [readKind]
    exact scalarValue_written h hrest
  | .optional k => exact (readKind_written k).optional
  | .list k => exact (readKind_written k).list
  | .record name fs => exact .record name (readPlaces_written fs) (readMember_written fs)

/-- A list is read as what its items say at their positions. -/
theorem readPlaces_written (fs : Fields) : PlacesWritten fuel fs := by
  intro levels parts first body hlevels hparts hfuel hbody rest
  match fs with
  | .nil =>
    rw [readPlaces]
    cases parts with
    | nil =>
      cases hbody with
      | done hgap => exact left_closeList () hgap rest
    | cons p parts =>
      obtain ⟨c, cs, hcs, hc⟩ := (hparts p List.mem_cons_self).exists_cons
      exact left_closeList_chunk () hbody ⟨c, cs, hcs, hc.not_mem_delimiters⟩ _
  | .cons key k fs =>
    obtain ⟨hheight, hlevels⟩ := Nat.max_le.mp (by simpa only [Fields.height] using hlevels)
    cases parts with
    | nil =>
      cases hbody with
      | done hgap =>
        rw [readPlaces, nextItem_done hgap]
        rfl
    | cons p parts =>
      obtain ⟨c, cs, hcs, hc⟩ := (hparts p List.mem_cons_self).exists_cons
      obtain ⟨tail, htail, hnext⟩ := nextItem_chunk hbody ⟨c, cs, hcs, hc.not_mem_delimiters⟩
      have hdelimited : Delimited (tail ++ ']' :: rest) :=
        htail.delimited (fun _ => mem_delimiters_of_isSpace) (by simp [delimiters])
      have hplaces := readPlaces_written fs hlevels
        (fun q hq => hparts q (List.mem_cons_of_mem _ hq))
        (fun q hq => hfuel q (List.mem_cons_of_mem _ hq)) htail rest
      rw [readPlaces, hnext, andThen_ok, if_pos rfl, toOption_andThen,
        readKind_written k hheight (hparts p List.mem_cons_self) (hfuel p List.mem_cons_self)
          hdelimited, List.map_cons, senseAt]
      cases sense k p.1 with
      | none => rfl
      | some a =>
        rw [Option.map_some, Option.bind_some, toOption_andThen]
        refine (bind_left_map (fun as => (some a, as)) _).trans ?_
        rw [hplaces]
        cases senseAt fs (parts.map (·.1)) <;> rfl

/-- The value behind a key is read as what it says about the field with this key. -/
theorem readField_written (fs : Fields) {levels : Nat} (hlevels : fs.height ≤ levels) {e : Entry}
    (he : e.Sound) (h : e.value.Writes e.valueText) (hfuel : e.valueText.length < fuel)
    (key : String) (stated : fs.Values) {rest : List Char} (hrest : Delimited rest) :
    match readField fuel levels fs key stated (e.afterKey ++ rest) with
    | some step => step.toOption = (note fs key e.value stated).map (·, rest)
    | none => key ∉ fs.keys := by
  match fs with
  | .nil => exact List.not_mem_nil
  | .cons name k fs =>
    obtain ⟨hheight, hlevels⟩ := Nat.max_le.mp (by simpa only [Fields.height] using hlevels)
    rw [readField, note]
    by_cases hname : key = name
    · have hvalue := readKind_written k hheight h hfuel hrest
      rw [if_pos hname, if_pos hname]
      cases hstated : stated.1.isSome with
      | true => rfl
      | false =>
        have hcolon : colon (e.afterKey ++ rest) = .ok (e.afterColon ++ (e.valueText ++ rest)) := by
          rw [Entry.afterKey, List.append_assoc, List.cons_append, List.append_assoc,
            colon_append he.before]
        simp only [hcolon, Bool.false_eq_true, if_false, Except.bind]
        rw [← readKind_skipSpace, skipSpace_append he.after, readKind_skipSpace, toOption_andThen,
          hvalue]
        cases sense k e.value <;> rfl
    · have hfield := readField_written fs hlevels he h hfuel key stated.2 hrest
      rw [if_neg hname, if_neg hname]
      cases hread : readField fuel levels fs key stated.2 (e.afterKey ++ rest) with
      | none =>
        rw [hread] at hfield
        simpa [Fields.keys, hname] using hfield
      | some step =>
        rw [hread] at hfield
        change step.toOption = (note fs key e.value stated.2).map (·, rest) at hfield
        change (step.andThen _).toOption = _
        rw [toOption_andThen, hfield]
        cases note fs key e.value stated.2 <;> rfl

/-- A member is read as what it says; one that has no field is passed over. -/
theorem readMember_written (fs : Fields) : MemberWritten fuel fs := by
  intro levels e rest key stated hlevels he h hfuel hrest
  have hfield := readField_written fs hlevels he h hfuel key stated hrest
  rw [readMember]
  cases hread : readField fuel levels fs key stated (e.afterKey ++ rest) with
  | some step =>
    rw [hread] at hfield
    exact hfield
  | none =>
    rw [hread] at hfield
    rw [skipMember_written stated he h hrest, note_of_not_mem fs _ _ hfield]
    rfl

end

end

/-! ## Documents -/

/-- The document is a text of the node, with white space around it. -/
inductive Document (n : Node) : String → Prop
  | intro {before cs after : List Char} (hbefore : ∀ c ∈ before, isSpace c) (h : n.Writes cs)
    (hafter : ∀ c ∈ after, isSpace c) : Document n (String.ofList (before ++ (cs ++ after)))

/-- A document is read as what its node says, and refused if that is nothing. -/
theorem read_of_document {k : Kind} (hheight : k.height ≤ maxLevels) {n : Node}
    {document : String} (h : Document n document) : (read k document).toOption = sense k n := by
  obtain @⟨before, cs, after, hbefore, h, hafter⟩ := h
  have hdelimited : Delimited (after ++ []) :=
    delimited_append (fun c hc => mem_delimiters_of_isSpace (hafter c hc)) delimited_nil
  rw [List.append_nil] at hdelimited
  have hend : skipSpace after = [] := by
    rw [← List.append_nil after, skipSpace_append hafter]
    rfl
  rw [read, toOption_mapError, String.toList_ofList, readAll, toOption_andThen,
    ← readKind_skipSpace, skipSpace_append hbefore, readKind_skipSpace,
    readKind_written k hheight h (by simp; omega) hdelimited]
  cases sense k n with
  | none => rfl
  | some a =>
    rw [Option.map_some, Option.bind_some, hend]
    rfl

end ModelScribe.Json
