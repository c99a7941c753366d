-- What the JSON reader accepts. Whatever the kind, a value that is read is
-- the text of a node, so a document that is accepted is well written through
-- and through, also where it is only passed over.
import ModelScribe.Proofs.JsonSense

namespace ModelScribe.Json

/-- A value stands up to the rest, with white space before it. -/
def HoldsValue (cs rest : List Char) : Prop :=
  ∃ gap value, (∀ c ∈ gap, isSpace c) ∧ IsValue value ∧ cs = gap ++ (value ++ rest)

/-- What the reader reads is a value. -/
def Accepts {α : Type} (read : List Char → Step α) : Prop :=
  ∀ ⦃cs a rest⦄, read cs = .ok (a, rest) → HoldsValue cs rest

/-- Nothing more is read after a step. -/
def Idles {α β : Type} (next : α → List Char → Step β) : Prop :=
  ∀ ⦃a cs b rest⦄, next a cs = .ok (b, rest) → cs = rest

section

variable {α β : Type} {cs rest tail : List Char} {a : α} {fuel levels : Nat}

theorem idles_ok (f : α → β) : Idles fun a rest => .ok (f a, rest) := by
  rintro a cs b rest ⟨⟩
  rfl

theorem Accepts.andThen {read : List Char → Step α} {next : α → List Char → Step β}
    (hread : Accepts read) (hnext : Idles next) : Accepts fun cs => (read cs).andThen next := by
  intro cs b rest h
  obtain ⟨a, mid, hfirst, hthen⟩ := andThen_eq_ok h
  obtain rfl := hnext hthen
  exact hread hfirst

/-- A value may be looked at behind the white space. -/
theorem holdsValue_of_skipSpace {value : List Char} (h : skipSpace cs = value ++ rest)
    (hvalue : IsValue value) : HoldsValue cs rest := by
  obtain ⟨gap, hgap, hcs⟩ := exists_gap cs
  exact ⟨gap, value, hgap, hvalue, h ▸ hcs⟩

theorem mismatch_ne_ok {expected : String} {p : α} : mismatch expected cs ≠ .ok p := fun h => by
  have hnone := toOption_mismatch (α := α) expected cs
  rw [h] at hnone
  cases hnone

/-! ## Lexemes -/

theorem holdsValue_word {c : Char} {letters : List Char} {f : List Char → α × List Char}
    (hf : ∀ rest, (f rest).2 = rest) (hcs : skipSpace cs = c :: tail)
    (h : (word letters tail).map f = .ok (a, rest)) (hvalue : IsValue (c :: letters)) :
    HoldsValue cs rest := by
  obtain ⟨rest', hword, hend⟩ := map_eq_ok h
  obtain rfl : rest' = rest := (hf rest').symm.trans (congrArg Prod.snd hend)
  exact holdsValue_of_skipSpace (by rw [hcs, word_eq_ok hword]; rfl) hvalue

theorem holdsValue_string {s : String} (hcs : skipSpace cs = '"' :: tail)
    (h : string tail = .ok (s, rest)) : HoldsValue cs rest := by
  obtain ⟨body, hbody, rfl, -⟩ := string_eq_ok h
  exact holdsValue_of_skipSpace (by rw [hcs]; simp) ⟨_, .text hbody⟩

theorem holdsValue_number {next : Number → List Char → Step α} (hnext : Idles next)
    (negative : Bool) (hcs : skipSpace cs = Node.sign negative ++ tail)
    (h : (number negative tail).andThen next = .ok (a, rest)) : HoldsValue cs rest := by
  obtain ⟨x, mid, hnumber, hthen⟩ := andThen_eq_ok h
  obtain rfl := hnext hthen
  obtain ⟨magnitude, hmagnitude, rfl⟩ := number_eq_ok hnumber
  exact holdsValue_of_skipSpace (hcs.trans (List.append_assoc ..).symm)
    ⟨_, .number negative hmagnitude⟩

theorem accepts_textValue : Accepts textValue := by
  intro cs s rest h
  rw [textValue.eq_def] at h
  split at h
  · rename_i hcs
    exact holdsValue_string hcs h
  · exact absurd h mismatch_ne_ok

theorem accepts_flagValue : Accepts flagValue := by
  intro cs b rest h
  rw [flagValue.eq_def] at h
  split at h
  · rename_i hcs
    exact holdsValue_word (fun _ => rfl) hcs h ⟨_, .yes⟩
  · rename_i hcs
    exact holdsValue_word (fun _ => rfl) hcs h ⟨_, .no⟩
  · exact absurd h mismatch_ne_ok

theorem idles_byteOf : Idles byteOf := by
  intro x cs b rest h
  cases x with
  | real x => cases h
  | integer n =>
    rw [byteOf] at h
    split at h
    · exact (Prod.mk.inj (Except.ok.inj h)).2
    · cases h

theorem accepts_byteValue : Accepts byteValue := by
  intro cs b rest h
  rw [byteValue.eq_def] at h
  split at h
  · rename_i hcs
    exact holdsValue_number idles_byteOf true hcs h
  · rename_i hcs
    split at h
    · exact holdsValue_number idles_byteOf false hcs h
    · exact absurd h mismatch_ne_ok
  · exact absurd h mismatch_ne_ok

/-! ## Containers -/

theorem nextItem_eq_ok {first more : Bool} (h : nextItem first cs = .ok (more, rest)) :
    if more then Leads first cs rest else ∃ gap, (∀ c ∈ gap, isSpace c) ∧ cs = gap ++ rest := by
  obtain ⟨gap, hgap, hcs⟩ := exists_gap cs
  rw [nextItem.eq_def] at h
  split at h
  · cases h
  · rename_i heq
    cases h
    exact ⟨gap, hgap, heq ▸ hcs⟩
  · rename_i c tail _ heq
    rw [heq] at hcs
    split_ifs at h with hfirst hcomma
    · cases h
      rw [hcs, hfirst]
      exact .first hgap
    · rw [hcs, hcomma, Bool.eq_false_iff.mpr hfirst]
      obtain ⟨gap', hgap', htail⟩ := exists_gap tail
      generalize skipSpace tail = after at h htail
      subst htail
      split at h
      · cases h
      · cases h
      · cases h
        exact .next hgap hgap'
    · cases h

theorem nextKey_eq_ok {first more : Bool} (h : nextKey first cs = .ok (more, rest)) :
    if more then ∃ tail, rest = '"' :: tail ∧ Leads first cs rest
    else ∃ gap, (∀ c ∈ gap, isSpace c) ∧ cs = gap ++ rest := by
  obtain ⟨gap, hgap, hcs⟩ := exists_gap cs
  rw [nextKey.eq_def] at h
  dsimp only at h
  split at h
  · cases h
  · rename_i heq
    cases h
    exact ⟨gap, hgap, heq ▸ hcs⟩
  · rename_i c tail _ heq
    rw [heq] at hcs
    split_ifs at h with hfirst hcomma
    · split at h
      · cases h
      · rename_i heq'
        cases heq'
        cases h
        rw [hcs, hfirst]
        exact ⟨_, rfl, .first hgap⟩
      · cases h
      · cases h
    · rw [hcs, hcomma, Bool.eq_false_iff.mpr hfirst]
      obtain ⟨gap', hgap', htail⟩ := exists_gap tail
      split at h
      · cases h
      · rename_i heq'
        cases h
        rw [htail, heq']
        exact ⟨_, rfl, .next hgap hgap'⟩
      · cases h
      · cases h
    · cases h

theorem closeList_eq_none (h : closeList cs = (rest, none)) :
    ∃ gap, (∀ c ∈ gap, isSpace c) ∧ cs = gap ++ ']' :: rest := by
  obtain ⟨gap, hgap, hcs⟩ := exists_gap cs
  rw [closeList.eq_def] at h
  split at h
  · cases h
  · rename_i heq
    cases h
    exact ⟨gap, hgap, heq ▸ hcs⟩
  · split at h <;> cases h
  · cases h

theorem closeObject_eq_none (h : closeObject cs = (rest, none)) :
    ∃ gap, (∀ c ∈ gap, isSpace c) ∧ cs = gap ++ '\x7d' :: rest := by
  obtain ⟨gap, hgap, hcs⟩ := exists_gap cs
  rw [closeObject.eq_def] at h
  split at h
  · cases h
  · rename_i heq
    cases h
    exact ⟨gap, hgap, heq ▸ hcs⟩
  · cases h
  · cases h

theorem enclosed_eq_ok {close : List Char → List Char × Option Failure} {body : Step α}
    (h : enclosed close body = .ok (a, rest)) :
    ∃ mid, body = .ok (a, mid) ∧ close mid = (rest, none) := by
  match body with
  | .ok (a', mid) =>
    rw [enclosed] at h
    split at h
    · rename_i hclose
      cases h
      exact ⟨mid, rfl, hclose⟩
    · cases h
  | .error (.loose cause mid) => cases h
  | .error (.placed cause mid bytes) => cases h

/-- A list is a value if what it holds is read as its items. -/
theorem holdsValue_list {tail : List Char} {body : Step α} (hcs : skipSpace cs = '[' :: tail)
    (h : enclosed closeList body = .ok (a, rest))
    (hbody : ∀ a mid, body = .ok (a, mid) → Inside .list true tail mid) : HoldsValue cs rest := by
  obtain ⟨mid, hread, hclose⟩ := enclosed_eq_ok h
  obtain ⟨gap, hgap, rfl⟩ := closeList_eq_none hclose
  obtain ⟨value, hvalue, hopen⟩ := ((hbody _ _ hread).append_gap hgap).exists_value
  exact holdsValue_of_skipSpace (hcs.trans hopen) hvalue

theorem holdsValue_object {tail : List Char} {body : Step α} (hcs : skipSpace cs = '\x7b' :: tail)
    (h : enclosed closeObject body = .ok (a, rest))
    (hbody : ∀ a mid, body = .ok (a, mid) → Inside .object true tail mid) : HoldsValue cs rest := by
  obtain ⟨mid, hread, hclose⟩ := enclosed_eq_ok h
  obtain ⟨gap, hgap, rfl⟩ := closeObject_eq_none hclose
  obtain ⟨value, hvalue, hopen⟩ := ((hbody _ _ hread).append_gap hgap).exists_value
  exact holdsValue_of_skipSpace (hcs.trans hopen) hvalue

theorem inside_of_item {item : List Char → Step α} (hitem : Accepts item) {first : Bool}
    {mid : List Char} (hnext : nextItem first cs = .ok (true, tail))
    (hfirst : item tail = .ok (a, mid)) (hrest : Inside .list false mid rest) :
    Inside .list first cs rest := by
  have hleads : Leads first cs tail := nextItem_eq_ok hnext
  obtain ⟨gap, value, hgap, hvalue, rfl⟩ := hitem hfirst
  exact .cons (hleads.append_gap hgap) hvalue hrest

theorem inside_of_end {first : Bool} (hnext : nextItem first cs = .ok (false, rest)) :
    Inside .list first cs rest := by
  obtain ⟨gap, hgap, rfl⟩ := nextItem_eq_ok hnext
  exact .done hgap

theorem items_eq_ok {item : List Char → Step α} (hitem : Accepts item) {first : Bool}
    {as : List α} (h : items item fuel first cs = .ok (as, rest)) : Inside .list first cs rest := by
  induction fuel generalizing first cs as with
  | zero =>
    rw [items] at h
    cases h
  | succ fuel ih =>
    rw [items] at h
    obtain ⟨more, tail, hnext, hthen⟩ := andThen_eq_ok h
    cases more with
    | false =>
      cases hthen
      exact inside_of_end hnext
    | true =>
      obtain ⟨a, mid, hfirst, hthen⟩ := andThen_eq_ok hthen
      obtain ⟨as, left, hrest, hall⟩ := andThen_eq_ok hthen
      cases hall
      exact inside_of_item hitem hnext hfirst (ih hrest)

/-- A value that is read behind a colon follows the key. -/
theorem followsKey_of_value {read : List Char → Step α} (hread : Accepts read)
    {next : α → List Char → Step β} (hnext : Idles next) {b : β}
    (h : ((colon cs).bind fun cs => (read cs).andThen next) = .ok (b, rest)) :
    FollowsKey cs rest := by
  obtain ⟨tail, hcolon, hthen⟩ := bind_eq_ok h
  obtain ⟨before, hbefore, rfl⟩ := colon_eq_ok hcolon
  obtain ⟨after, value, hafter, hvalue, rfl⟩ := hread.andThen hnext hthen
  exact ⟨before, after, value, hbefore, hafter, hvalue, rfl⟩

theorem members_eq_ok {member : String → α → List Char → Step α}
    (hmember : ∀ key state cs state' rest, member key state cs = .ok (state', rest) →
      FollowsKey cs rest)
    {first : Bool} {state state' : α}
    (h : members member fuel first state cs = .ok (state', rest)) :
    Inside .object first cs rest := by
  induction fuel generalizing first cs state with
  | zero =>
    rw [members] at h
    cases h
  | succ fuel ih =>
    rw [members] at h
    obtain ⟨more, tail, hnext, hthen⟩ := andThen_eq_ok h
    have hnext := nextKey_eq_ok hnext
    cases more with
    | false =>
      obtain ⟨gap, hgap, rfl⟩ := hnext
      cases hthen
      exact .done hgap
    | true =>
      obtain ⟨text, rfl, hlead⟩ := hnext
      obtain ⟨key, mid, hkey, hmore⟩ := andThen_eq_ok hthen
      obtain ⟨state, left, hone, hrest⟩ := andThen_eq_ok hmore
      obtain ⟨body, hbody, hkey, -⟩ := string_eq_ok hkey
      obtain ⟨before, after, value, hbefore, hafter, ⟨n, hn⟩, rfl⟩ := hmember _ _ _ _ _ hone
      let e : Entry := ⟨body, before, after, n, value⟩
      have hadmits : Bracket.object.Admits e.text := ⟨e, ⟨⟨hbody, hbefore, hafter⟩, hn⟩, rfl⟩
      rw [List.drop_one, List.tail_cons] at hkey
      refine .cons ?_ hadmits (ih hrest)
      simpa [e, Entry.text, Entry.afterKey, hkey] using hlead

end

/-! ## Kinds -/

section

variable {cs rest : List Char} {fuel : Nat}

theorem accepts_anyValue (levels : Nat) : Accepts (anyValue fuel levels) := by
  intro cs text rest h
  rw [anyValue.eq_def] at h
  dsimp only at h
  split at h
  case h_1 hcs => exact holdsValue_word (fun _ => rfl) hcs h ⟨_, .null⟩
  case h_2 hcs => exact holdsValue_word (fun _ => rfl) hcs h ⟨_, .yes⟩
  case h_3 hcs => exact holdsValue_word (fun _ => rfl) hcs h ⟨_, .no⟩
  case h_4 hcs =>
    obtain ⟨s, mid, hstring, hend⟩ := andThen_eq_ok h
    cases hend
    exact holdsValue_string hcs hstring
  case h_5 hcs => exact holdsValue_number (idles_ok _) true hcs h
  case h_6 hcs =>
    cases levels with
    | zero => cases h
    | succ levels =>
      refine holdsValue_list hcs h fun a mid hbody => ?_
      obtain ⟨as, tail, hitems, hend⟩ := andThen_eq_ok hbody
      cases hend
      exact items_eq_ok (accepts_anyValue levels) hitems
  case h_7 hcs =>
    cases levels with
    | zero => cases h
    | succ levels =>
      refine holdsValue_object hcs h fun a mid hbody => ?_
      obtain ⟨u, tail, hmembers, hend⟩ := andThen_eq_ok hbody
      cases hend
      exact members_eq_ok (fun key state cs state' rest =>
        followsKey_of_value (accepts_anyValue levels) (idles_ok _)) hmembers
  case h_8 hcs =>
    split at h
    · exact holdsValue_number (idles_ok _) false hcs h
    · cases h
  case h_9 => cases h
termination_by levels

theorem accepts_scalarValue (levels : Nat) : Accepts (scalarValue fuel levels) := by
  refine (accepts_anyValue levels).andThen fun text cs s rest h => ?_
  split at h <;> cases h
  rfl

theorem accepts_optional {k : Kind} {levels : Nat} (hk : Accepts (readKind fuel levels k)) :
    Accepts (readKind fuel levels (.optional k)) := by
  intro cs a rest h
  rw [readKind] at h
  split at h
  · rename_i hcs
    exact holdsValue_word (fun _ => rfl) hcs h ⟨_, .null⟩
  · rw [readKind_skipSpace] at h
    exact hk.andThen (idles_ok some) h

theorem accepts_list {k : Kind} (hk : ∀ levels, Accepts (readKind fuel levels k)) (levels : Nat) :
    Accepts (readKind fuel levels (.list k)) := by
  intro cs as rest h
  rw [readKind] at h
  split at h
  · rename_i hcs
    cases levels with
    | zero => cases h
    | succ levels =>
      exact holdsValue_list hcs h fun as mid hitems => items_eq_ok (hk levels) hitems
  · exact absurd h mismatch_ne_ok

theorem accepts_record (name : String) {fs : Fields}
    (hplaces : ∀ {levels first cs rest v}, readPlaces fuel levels fs first cs = .ok (v, rest) →
      Inside .list first cs rest)
    (hfield : ∀ {levels key stated v cs rest},
      readField fuel levels fs key stated cs = some (.ok (v, rest)) → FollowsKey cs rest)
    (levels : Nat) : Accepts (readKind fuel levels (.record name fs)) := by
  intro cs v rest h
  rw [readKind] at h
  split at h
  · rename_i hcs
    cases levels with
    | zero => cases h
    | succ levels => exact holdsValue_list hcs h fun as mid => hplaces
  · rename_i hcs
    cases levels with
    | zero => cases h
    | succ levels =>
      refine holdsValue_object hcs h fun as mid hmembers => members_eq_ok ?_ hmembers
      intro key state cs state' rest hmember
      cases hread : readField fuel levels fs key state cs with
      | some step =>
        rw [hread] at hmember
        exact hfield (hread.trans (congrArg some hmember))
      | none =>
        rw [hread] at hmember
        exact skipMember_eq_ok hmember
  · exact absurd h mismatch_ne_ok

mutual

/-- A value that is read is well written. -/
theorem accepts_readKind (k : Kind) (levels : Nat) : Accepts (readKind fuel levels k) := by
  match k with
  | .text =>
    intro cs s rest h
    rw [readKind] at h
    exact accepts_textValue h
  | .flag =>
    intro cs b rest h
    rw [readKind] at h
    exact accepts_flagValue h
  | .byte =>
    intro cs b rest h
    rw [readKind] at h
    exact accepts_byteValue h
  | .scalar =>
    intro cs s rest h
    rw [readKind] at h
    exact accepts_scalarValue levels h
  | .optional k => exact accepts_optional (accepts_readKind k levels)
  | .list k => exact accepts_list (accepts_readKind k) levels
  | .record name fs => exact accepts_record name (readPlaces_eq_ok fs) (readField_eq_ok fs) levels

theorem readPlaces_eq_ok (fs : Fields) {levels : Nat} {first : Bool} {cs rest : List Char}
    {v : fs.Values} (h : readPlaces fuel levels fs first cs = .ok (v, rest)) :
    Inside .list first cs rest := by
  match fs with
  | .nil =>
    rw [readPlaces] at h
    cases h
    exact .done (List.forall_mem_nil _)
  | .cons name k fs =>
    rw [readPlaces] at h
    obtain ⟨more, tail, hnext, hthen⟩ := andThen_eq_ok h
    cases more with
    | false =>
      cases hthen
      exact inside_of_end hnext
    | true =>
      obtain ⟨a, mid, hfirst, hthen⟩ := andThen_eq_ok hthen
      obtain ⟨as, left, hrest, hall⟩ := andThen_eq_ok hthen
      cases hall
      exact inside_of_item (accepts_readKind k levels) hnext hfirst (readPlaces_eq_ok fs hrest)

theorem readField_eq_ok (fs : Fields) {levels : Nat} {key : String} {stated v : fs.Values}
    {cs rest : List Char} (h : readField fuel levels fs key stated cs = some (.ok (v, rest))) :
    FollowsKey cs rest := by
  match fs with
  | .nil => cases h
  | .cons name k fs =>
    rw [readField] at h
    split at h
    · have h := Option.some.inj h
      split at h
      · cases h
      · exact followsKey_of_value (accepts_readKind k levels) (idles_ok _) h
    · obtain ⟨step, hread, hstep⟩ := Option.map_eq_some_iff.mp h
      obtain ⟨as, left, rfl, hend⟩ := andThen_eq_ok hstep
      cases hend
      exact readField_eq_ok fs hread

end

end

/-- A document that is accepted is a text of a node. -/
theorem document_of_read {k : Kind} {document : String} {v : k.Value}
    (h : read k document = .ok v) : ∃ n, Document n document := by
  rw [read] at h
  cases hall : readAll k document.toList with
  | error fault =>
    rw [hall] at h
    cases h
  | ok w =>
    obtain ⟨a, rest, hread, hend⟩ := andThen_eq_ok hall
    obtain ⟨before, value, hbefore, ⟨n, hn⟩, hdocument⟩ := accepts_readKind k _ hread
    obtain ⟨after, hafter, hrest⟩ := exists_gap rest
    split at hend
    · rename_i heq
      rw [heq, List.append_nil] at hrest
      have hintro := Document.intro hbefore hn hafter
      rw [← hrest, ← hdocument, String.ofList_toList] at hintro
      exact ⟨n, hintro⟩
    · cases hend

end ModelScribe.Json
