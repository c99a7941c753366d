-- Members of an object. Each record of a definition may be stated by an object,
-- and of such an object only the members with the keys of fields count, in
-- whatever order: any other member may stand among them, whatever its value,
-- as long as its key is a text. A second member for one field is refused.
import ModelScribe.Proofs.JsonAccepted
import ModelScribe.Proofs.JsonPlaces
import ModelScribe.Proofs.TwoFormats

namespace ModelScribe.Definition

open Json Schema

section

variable {n n' : Node} {document document' : String} {d : Definition}

/-- A document states what its node says. -/
theorem toOption_parse_document (h : Document n document) :
    (parse .json document).toOption = (sense Schema.definition n).map definitionOf :=
  (toOption_map ..).trans
    (congrArg _ ((toOption_mapError ..).trans (read_of_document height_definition h)))

theorem parse_congr (h : Document n document) (h' : Document n' document')
    (hsense : sense Schema.definition n = sense Schema.definition n') :
    (parse .json document).toOption = (parse .json document').toOption := by
  rw [toOption_parse_document h, toOption_parse_document h', hsense]

theorem refused_of_sense (h : Document n document) (hsense : sense Schema.definition n = none) :
    ∃ fault, parse .json document = .error (.json fault) :=
  json_refused (by rw [toOption_parse_document h, hsense]; rfl)

/-- A document that is accepted is a text of a node. -/
theorem document_of_parse (h : parse .json document = .ok d) : ∃ n, Document n document := by
  rw [parse] at h
  cases hread : Json.read Schema.definition document with
  | error fault =>
    rw [hread] at h
    cases h
  | ok v => exact document_of_read hread

end

/-! ## Objects in a document -/

/-- The member has a key, which is that of no field. -/
def Unknown (fs : Fields) (m : List Char × Node) : Prop :=
  ∃ key, denoted m.1 = some key ∧ key ∉ fs.keys

/-- The member has the key of a field that a member of the object has as well. -/
def Repeats (fs : Fields) (ms : List (List Char × Node)) (m : List Char × Node) : Prop :=
  ∃ key ∈ fs.keys, denoted m.1 = some key ∧ ∃ m' ∈ ms, denoted m'.1 = some key

section

variable {fs : Fields} {m : List Char × Node}
  {ms ms' extra : List (List Char × Node)}

theorem sense_object_unknown (name : String) (hextra : ∀ m ∈ extra, Unknown fs m)
    (h : ms'.Perm (ms ++ extra)) :
    sense (.record name fs) (.object ms') = sense (.record name fs) (.object ms) := by
  have hnothing (stated : fs.Values) : extra.foldlM (noteMember fs) stated = some stated :=
    foldlM_noteMember_unknown (fun m hm => (hextra m hm).imp fun _ h => h.symm) stated
  rw [sense_object, sense_object, foldlM_noteMember_perm h, List.foldlM_append]
  exact (Option.bind_congr fun stated _ => hnothing stated).trans (Option.bind_fun_some _)

theorem sense_object_repeats (name : String) (hm : Repeats fs ms m) (h : ms'.Perm (m :: ms)) :
    sense (.record name fs) (.object ms') = none := by
  obtain ⟨key, hkey, hdenoted, m', hm', hdenoted'⟩ := hm
  obtain ⟨before, after, rfl⟩ := List.append_of_mem hm'
  exact sense_object_twice name hkey hdenoted hdenoted' (h.trans (.cons _ List.perm_middle))

end

/-- In a document that is accepted the members of an object that states a record may be put in any
order, with any members among them that have other keys than its fields. A further member for a
field that is stated is refused, and so is one whose key is no text. -/
theorem members_count_in_any_order {document : String} {d : Definition}
    (h : parse .json document = .ok d) :
    (∃ n, Document n document) ∧
      ∀ (name : String) (fs : Fields) (p : Place Schema.definition (.record name fs))
        (ms : List (List Char × Node)), Document (p.put (.object ms)) document →
        (∀ extra ms' document', (∀ m ∈ extra, Unknown fs m) → ms'.Perm (ms ++ extra) →
          Document (p.put (.object ms')) document' → parse .json document' = .ok d) ∧
        (∀ m ms' document', Repeats fs ms m → ms'.Perm (m :: ms) →
          Document (p.put (.object ms')) document' →
            ∃ fault, parse .json document' = .error (.json fault)) ∧
        ∀ m ms' document', denoted m.1 = none → ms'.Perm (m :: ms) →
          Document (p.put (.object ms')) document' →
            ∃ fault, parse .json document' = .error (.json fault) := by
  refine ⟨document_of_parse h, fun name fs p ms hdocument => ⟨?_, ?_, ?_⟩⟩
  · intro extra ms' document' hextra hperm hdocument'
    have hsame := sense_put_congr p Node.noConfusion Node.noConfusion
      (sense_object_unknown name hextra hperm)
    exact eq_ok_of_toOption ((parse_congr hdocument' hdocument hsame).trans (by rw [h]; rfl))
  · intro m ms' document' hm hperm hdocument'
    exact refused_of_sense hdocument'
      (sense_put_none p Node.noConfusion (sense_object_repeats name hm hperm))
  · intro m ms' document' hm hperm hdocument'
    exact refused_of_sense hdocument' (sense_put_none p Node.noConfusion
      (sense_object_unreadable name (hperm.mem_iff.mpr List.mem_cons_self) hm))

/-! ## An enumeration as an object -/

theorem denoted_enums : denoted "enums".toList = some "enums" := rfl

/-- The place of the one enumeration in a definition. -/
def enumPlace : Place Schema.definition (.record "EnumDef" enumFields) :=
  .member [] "enums".toList (by rw [denoted_enums]; rfl) (.item [] .here []) []

theorem document_enumPlace {n : Node} {cs : List Char} (h : n.Writes cs) :
    Document (enumPlace.put n)
      (String.ofList ("\x7b\"enums\":[".toList ++ (cs ++ "]\x7d".toList))) := by
  have hkey : IsBody "enums".toList := isBody_plain (by decide)
  have hitems := Node.writes_list_tight (n, cs) [] (List.forall_mem_singleton.mpr h)
  have hroot := Node.writes_object_tight (.tight "enums".toList _ _) []
    (List.forall_mem_singleton.mpr ⟨Entry.sound_tight hkey .., hitems⟩)
  have hdocument := Document.intro (List.forall_mem_nil _) hroot (List.forall_mem_nil _)
  simpa [Entry.tight, Entry.text, Entry.afterKey, Entry.member, enumPlace, Place.put]
    using hdocument

/-- The name of the enumeration. -/
def nameEntry : Entry := .tight "name".toList (.text "Role".toList) "\"Role\"".toList

/-- A list that nothing could be read as. -/
def noteEntry : Entry :=
  .tight "note".toList (.list [.number false "1e999".toList, .text "\\ud800".toList])
    "[1e999,\"\\ud800\"]".toList

/-- A member whose key is half a surrogate pair. -/
def halfEntry : Entry := .tight "\\ud800".toList (.number false ['1']) ['1']

theorem sound_nameEntry : nameEntry.Sound ∧ nameEntry.value.Writes nameEntry.valueText :=
  ⟨Entry.sound_tight (isBody_plain (by decide)) .., .text (isBody_plain (by decide))⟩

theorem isBody_half : IsBody "\\ud800".toList :=
  have hescape : IsEscape ['u', 'd', '8', '0', '0'] :=
    .unit rfl (by decide : Text.digitsValue 16 ['d', '8', '0', '0'] = some 0xd800)
  .escape hescape .nil

theorem isDigits_one : IsDigits ['1'] := ⟨by decide, List.all_eq_true.mp (by decide)⟩

theorem sound_noteEntry : noteEntry.Sound ∧ noteEntry.value.Writes noteEntry.valueText := by
  have hexponent : IsExponent ('e' :: ([] ++ ['9', '9', '9'])) :=
    .some (Or.inl rfl) (by decide) ⟨by decide, List.all_eq_true.mp (by decide)⟩
  have hnumber : IsMagnitude "1e999".toList := .intro isDigits_one (by simp) .none hexponent
  exact ⟨Entry.sound_tight (isBody_plain (by decide)) ..,
    Node.writes_list_tight (_, _) [(_, _)] (List.forall_mem_cons.mpr
      ⟨.number false hnumber, List.forall_mem_singleton.mpr (.text isBody_half)⟩)⟩

theorem sound_halfEntry : halfEntry.Sound ∧ halfEntry.value.Writes halfEntry.valueText :=
  ⟨Entry.sound_tight isBody_half .., .number false (.intro isDigits_one (by simp) .none .none)⟩

theorem document_enumObject (e : Entry) (es : List Entry)
    (h : ∀ f ∈ e :: es, f.Sound ∧ f.value.Writes f.valueText) :
    Document (enumPlace.put (.object ((e :: es).map (·.member)))) (String.ofList
      ("\x7b\"enums\":[".toList ++ ('\x7b' :: (e.text ++ (es.map (·.text)).flatMap (',' :: ·)
        ++ ['\x7d']) ++ "]\x7d".toList))) :=
  document_enumPlace (Node.writes_object_tight e es h)

theorem a_note_stands_beside_a_name :
    parse .json "\x7b\"enums\":[\x7b\"name\":\"Role\"\x7d]\x7d"
        = .ok { enums := [{ name := "Role" }] } ∧
      parse .json
          "\x7b\"enums\":[\x7b\"note\":[1e999,\"\\ud800\"],\"name\":\"Role\"\x7d]\x7d"
        = .ok { enums := [{ name := "Role" }] } ∧
      (∃ fault, parse .json "\x7b\"enums\":[\x7b\"name\":\"Role\",\"name\":\"Role\"\x7d]\x7d"
        = .error (.json fault)) ∧
      ∃ fault, parse .json "\x7b\"enums\":[\x7b\"\\ud800\":1,\"name\":\"Role\"\x7d]\x7d"
        = .error (.json fault) := by
  have hname : denoted "name".toList = some "name" := rfl
  have hnote : denoted "note".toList = some "note" := rfl
  have hhalf : denoted "\\ud800".toList = none := rfl
  have hdocument := document_enumObject nameEntry [] (List.forall_mem_singleton.mpr sound_nameEntry)
  have hparse : parse .json "\x7b\"enums\":[\x7b\"name\":\"Role\"\x7d]\x7d"
      = .ok { enums := [{ name := "Role" }] } :=
    eq_ok_of_toOption (toOption_parse_document hdocument)
  obtain ⟨hunknown, htwice, hunreadable⟩ :=
    (members_count_in_any_order hparse).2 _ _ enumPlace [nameEntry.member] hdocument
  refine ⟨hparse, ?_, ?_, ?_⟩
  · exact hunknown [noteEntry.member] [noteEntry.member, nameEntry.member] _
      (List.forall_mem_singleton.mpr ⟨_, hnote, by decide⟩) (.swap ..)
      (document_enumObject noteEntry [nameEntry]
        (List.forall_mem_cons.mpr ⟨sound_noteEntry, List.forall_mem_singleton.mpr sound_nameEntry⟩))
  · exact htwice nameEntry.member [nameEntry.member, nameEntry.member] _
      ⟨_, by decide, hname, _, List.mem_singleton_self _, hname⟩ (.refl _)
      (document_enumObject nameEntry [nameEntry]
        (List.forall_mem_cons.mpr ⟨sound_nameEntry, List.forall_mem_singleton.mpr sound_nameEntry⟩))
  · exact hunreadable halfEntry.member [halfEntry.member, nameEntry.member] _ hhalf (.refl _)
      (document_enumObject halfEntry [nameEntry]
        (List.forall_mem_cons.mpr ⟨sound_halfEntry, List.forall_mem_singleton.mpr sound_nameEntry⟩))

/-- A member has a key that is that of no field, and the document is refused with it. -/
theorem half_a_pair_is_no_key :
    parse .json "\x7b\x7d" = .ok {} ∧ Document (.object []) "\x7b\x7d" ∧
      Document (.object [("\\ud800".toList, .number false ['1'])]) "\x7b\"\\ud800\":1\x7d" ∧
      (∀ key ∈ definitionFields.keys, denoted "\\ud800".toList ≠ some key) ∧
      ¬ parse .json "\x7b\"\\ud800\":1\x7d" = .ok {} := by
  have hempty : Document (.object []) "\x7b\x7d" :=
    .intro (List.forall_mem_nil _) (.object [] (List.forall_mem_nil _) (List.forall_mem_nil _)
      (.done (List.forall_mem_nil _))) (List.forall_mem_nil _)
  have hhalf : Document (.object [halfEntry.member]) "\x7b\"\\ud800\":1\x7d" :=
    .intro (List.forall_mem_nil _) (Node.writes_object_tight halfEntry []
      (List.forall_mem_singleton.mpr sound_halfEntry)) (List.forall_mem_nil _)
  have hkey : denoted "\\ud800".toList = none := rfl
  refine ⟨eq_ok_of_toOption (toOption_parse_document hempty), hempty, hhalf, ?_, ?_⟩
  · rw [hkey]
    exact fun key _ => Option.some_ne_none key |>.symm
  · obtain ⟨fault, hrefused⟩ := refused_of_sense hhalf
      (sense_object_unreadable _ (List.mem_singleton_self _) hkey)
    rw [hrefused]
    exact fun h => nomatch h

end ModelScribe.Definition
