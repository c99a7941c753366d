-- Numbers and flags as text. Where a document may state a string, a number or
-- a flag, an integer is carried digit for digit and a flag as its word, from
-- the lowest integer with a sign to the highest one without: the document says
-- what it says with the string in that place, in either format, and what it
-- says has the word there.
import ModelScribe.Proofs.JsonTrees
import ModelScribe.Proofs.Positions
import ModelScribe.Proofs.ScalarPlaces
import ModelScribe.Proofs.TomlExchanged

namespace ModelScribe

/-! ## Literals -/

/-- What both formats write as the same word. -/
inductive Literal
  /-- An integer that 64 bits hold, with a sign or without. -/
  | integer (n : Int) (lower : -2 ^ 63 ≤ n) (upper : n < 2 ^ 64)
  | flag (b : Bool)

namespace Literal

/-- The decimal digits, or `true` or `false`. -/
def word : Literal → String
  | .integer n .. => Int.repr n
  | .flag b => if b then "true" else "false"

/-- The literal in a JSON document. -/
def node : Literal → Json.Node
  | .integer n .. => .number (n < 0) (Nat.toDigits 10 n.natAbs)
  | .flag b => .flag b

/-- The literal in a TOML document. -/
def value : Literal → Toml.Value
  | .integer n .. => .integer n
  | .flag b => .flag b

variable (l : Literal)

theorem writes_node : l.node.Writes l.word.toList := by
  cases l with
  | integer n => exact Json.writes_repr n
  | flag b =>
    cases b with
    | true => exact .yes
    | false => exact .no

theorem sense_node : Json.sense .scalar l.node = some l.word := by
  cases l with
  | integer n lower upper =>
    rw [Json.sense, node, Json.Node.scalar, Json.numeral_repr lower upper]
    rfl
  | flag => rfl

theorem scalar_value (e : Toml.Extent) : Toml.scalar e l.value = .ok l.word := by
  cases l with
  | integer n lower upper =>
    have hfits : Toml.fits 64 n = true := by
      rw [Toml.fits, Bool.and_eq_true, decide_eq_true_eq, decide_eq_true_eq]
      exact ⟨lower, upper⟩
    have hignore : Toml.ignore 64 e (.integer n) = .ok () := by
      rw [Toml.ignore, Toml.outOfRange, if_pos hfits]
    change (Toml.ignore 64 e (.integer n)).bind _ = _
    rw [hignore]
    rfl
  | flag => rfl

theorem isAtom_value : l.value.isAtom := by
  cases l <;> rfl

theorem isAtomChar_of_mem {c : Char} (h : c ∈ l.word.toList) : Toml.isAtomChar c := by
  cases l with
  | integer => exact Toml.isAtomChar_of_mem_repr h
  | flag b =>
    have hwords : (Literal.flag b).word.toList.all Toml.isAtomChar := by cases b <;> rfl
    exact List.all_eq_true.mp hwords c h

theorem word_cons : ∃ c cs, l.word.toList = c :: cs ∧ Toml.isAtomChar c := by
  have hne : l.word.toList ≠ [] := by
    cases l with
    | integer n =>
      rw [word, digits_repr]
      simp [Nat.toDigits_ne_nil]
    | flag b => cases b <;> exact nofun
  obtain ⟨c, cs, hcs⟩ := List.exists_cons_of_ne_nil hne
  exact ⟨c, cs, hcs, l.isAtomChar_of_mem (hcs ▸ List.mem_cons_self)⟩

/-- The word can stand between quotes as it is. -/
theorem exists_quoted (behind : List Char) :
    ∃ string, Toml.quoted '"' (string ++ behind) = some (l.word, behind) := by
  obtain ⟨c, cs, hcs, hc⟩ := l.word_cons
  have hopen : (l.word.toList ++ '"' :: behind).take 2 ≠ ['"', '"'] := by
    rw [hcs]
    intro heq
    rw [(List.cons.inj heq).1] at hc
    cases hc
  have hread := Toml.lineString_pieces (l.word.toList.map fun c => (c, [c]))
    (List.forall_mem_map.mpr fun c hc => Toml.spellsChar_atomChar (l.isAtomChar_of_mem hc)) []
    behind
  refine ⟨l.word.toList ++ ['"'], ?_⟩
  rw [List.append_assoc, List.singleton_append, Toml.quoted, if_neg hopen]
  simpa [List.flatMap_map, List.map_map, Function.comp_def] using hread

/-- A literal in a TOML document gives way to a string of the same text. -/
def exchange {q : Char} {string behind : List Char} (hq : q = '"' ∨ q = '\'')
    (hstring : Toml.quoted q (string ++ behind) = some (l.word, behind)) : Toml.Exchange where
  old := l.word.toList ++ behind
  new := q :: (string ++ behind)
  behind := behind
  before := l.value
  after := .text l.word
  begins := by
    obtain ⟨c, cs, hcs, hc⟩ := l.word_cons
    exact ⟨c, by rw [hcs]; rfl, hc⟩
  quoted := ⟨q, rfl, hq⟩
  shorter := by
    obtain ⟨c, cs, hcs, -⟩ := l.word_cons
    rw [hcs, List.length_append, List.length_cons]
    omega
  longer := by
    have hlength := Toml.quoted_length hstring
    rw [List.length_append, String.length_toList, List.length_cons]
    omega
  before_isAtom := l.isAtom_value
  after_isAtom := rfl
  reads fuel levels := by
    rw [Toml.value_quoted hq, hstring]
    rfl

theorem sameScalar_exchange {q : Char} {string behind : List Char} (hq : q = '"' ∨ q = '\'')
    (hstring : Toml.quoted q (string ++ behind) = some (l.word, behind)) :
    Toml.SameScalar (l.exchange hq hstring) := by
  intro e e'
  change (Toml.scalar e' (.text l.word)).toOption = (Toml.scalar e l.value).toOption
  rw [l.scalar_value]
  rfl

end Literal

namespace Definition

open Schema

/-! ## Documents -/

/-- The literal stands in a TOML document between the two texts, where a scalar is read to which
the path leads. -/
def StatesLiteral (l : Literal) (path : List Kind.Step) (text behind : List Char) : Prop :=
  ∃ es, Toml.parse (text ++ (l.word.toList ++ behind)) = .ok es ∧
    Toml.HoldsAt (Toml.locate (l.word.toList ++ behind) behind l.value) path definition
      (⟨text ++ (l.word.toList ++ behind), []⟩, .table .header es)

variable {path : List Kind.Step} {d : Definition}

theorem toOption_parse_toml_eq (source : String) :
    (parse .toml source).toOption = (Toml.read definition source).toOption.map definitionOf :=
  (toOption_map ..).trans (congrArg _ (toOption_mapError ..))

/-- A TOML document says what it says with a string in place of a literal. -/
theorem toml_literal_as_string (l : Literal) {q : Char} {string text behind : List Char}
    (hq : q = '"' ∨ q = '\'') (hstring : Toml.quoted q (string ++ behind) = some (l.word, behind))
    (hstates : StatesLiteral l path text behind) :
    (parse .toml (String.ofList (text ++ (l.word.toList ++ behind)))).toOption
      = (parse .toml (String.ofList (text ++ q :: (string ++ behind)))).toOption := by
  obtain ⟨es, hes, hholds⟩ := hstates
  have hread := Toml.read_exchanged (l.sameScalar_exchange hq hstring) hes ⟨path, hholds⟩
  rw [toOption_parse_toml_eq, toOption_parse_toml_eq]
  exact congrArg (Option.map definitionOf) hread

/-- A JSON document says what it says with a string in place of a literal. -/
theorem json_literal_as_string (l : Literal) (p : Json.Place definition .scalar)
    {body : List Char} (hbody : Json.denoted body = some l.word) {source source' : String}
    (hsource : Json.Document (p.put l.node) source)
    (hsource' : Json.Document (p.put (.text body)) source') :
    (parse .json source).toOption = (parse .json source').toOption := by
  have hnode : l.node ≠ .null := by cases l <;> exact Json.Node.noConfusion
  refine parse_congr hsource hsource' (Json.sense_put_congr p hnode Json.Node.noConfusion ?_)
  rw [l.sense_node]
  exact hbody.symm

/-- What a TOML document says has the word of a literal where the literal stands. -/
theorem scalarAt_toml_literal (l : Literal) {text behind : List Char}
    (hstates : StatesLiteral l path text behind)
    (hparse : parse .toml (String.ofList (text ++ (l.word.toList ++ behind))) = .ok d) :
    d.scalarAt path = some l.word := by
  obtain ⟨es, hes, hholds⟩ := hstates
  obtain ⟨string, hstring⟩ := l.exists_quoted behind
  -- what the document states is alike to what it states with the string, so its keys are distinct
  obtain ⟨n, es', halike⟩ :
      ∃ n es', Toml.AlikeEntries (l.exchange (Or.inl rfl) hstring) n es es' := by
    obtain ⟨es', h⟩ | ⟨n, es', -, -, h⟩ :=
      Toml.parse_alike (x := l.exchange (Or.inl rfl) hstring) text hes
    · exact ⟨0, es', h⟩
    · exact ⟨n, es', h⟩
  have hread := toOption_parse_toml_eq (String.ofList (text ++ (l.word.toList ++ behind)))
  rw [hparse, Toml.read_of_parse hes] at hread
  obtain ⟨a, ha, rfl⟩ := Option.map_eq_some_iff.mp hread.symm
  exact scalarAt_definitionOf
    (hholds.scalarAt (.table _ ⟨[], []⟩ .header halike) distinct_definition
      (congrArg Except.toOption (l.scalar_value _)) ha)

/-- What a JSON document says has the word of a literal where the literal stands. -/
theorem scalarAt_json_literal (l : Literal) (p : Json.Place definition .scalar) {source : String}
    (hsource : Json.Document (p.put l.node) source) (hparse : parse .json source = .ok d) :
    d.scalarAt p.path = some l.word := by
  have hnode : l.node ≠ .null := by cases l <;> exact Json.Node.noConfusion
  have hread := toOption_parse_document hsource
  rw [hparse] at hread
  obtain ⟨v, hv, rfl⟩ := Option.map_eq_some_iff.mp hread.symm
  obtain ⟨a, ha, hpath⟩ := Json.scalarAt_put p distinct_definition hnode hv
  obtain rfl := Option.some.inj (ha.symm.trans l.sense_node)
  exact scalarAt_definitionOf (by simpa [Kind.scalarAt] using hpath [])

/-- An integer that 64 bits hold is carried digit for digit, and a flag as its word: the readers of
scalars make its word of it, and a document in which it stands where a scalar is read is read as, or
refused like, the document with a string of the same text in that place, however that string is
written. If it is read, the definition has the word in that place. -/
theorem literals_are_carried_word_for_word (l : Literal) :
    (∀ e, Toml.scalar e l.value = .ok l.word) ∧
      (∀ fuel levels rest, Delimited rest →
        (Json.scalarValue fuel levels (l.word.toList ++ rest)).toOption = some (l.word, rest)) ∧
      (∀ (p : Json.Place definition .scalar) body source source',
        Json.denoted body = some l.word → Json.Document (p.put l.node) source →
        Json.Document (p.put (.text body)) source' →
          (parse .json source).toOption = (parse .json source').toOption) ∧
      (∀ (p : Json.Place definition .scalar) source d, Json.Document (p.put l.node) source →
        parse .json source = .ok d → d.scalarAt p.path = some l.word) ∧
      (∀ q string path text behind, q = '"' ∨ q = '\'' →
        Toml.quoted q (string ++ behind) = some (l.word, behind) →
        StatesLiteral l path text behind →
          (parse .toml (String.ofList (text ++ (l.word.toList ++ behind)))).toOption
            = (parse .toml (String.ofList (text ++ q :: (string ++ behind)))).toOption) ∧
      ∀ path text behind d, StatesLiteral l path text behind →
        parse .toml (String.ofList (text ++ (l.word.toList ++ behind))) = .ok d →
          d.scalarAt path = some l.word := by
  refine ⟨l.scalar_value, fun fuel levels rest hrest => ?_,
    fun p body source source' hbody hsource hsource' => ?_,
    fun p source d hsource hparse => scalarAt_json_literal l p hsource hparse,
    fun q string path text behind hq hstring hstates => ?_,
    fun path text behind d hstates hparse => scalarAt_toml_literal l hstates hparse⟩
  · have hsense : l.node.scalar = some l.word := l.sense_node
    rw [Json.scalarValue_written l.writes_node hrest, hsense]
    rfl
  · exact json_literal_as_string l p hbody hsource hsource'
  · exact toml_literal_as_string l hq hstring hstates

/-! ## The highest integer -/

/-- The highest integer that 64 bits hold. -/
def highest : Literal := .integer 18446744073709551615 (by decide) (by decide)

theorem kindOf_enums : (Json.denoted "enums".toList).bind definitionFields.kindOf
    = some (.list (.record "EnumDef" enumFields)) := by
  rw [denoted_enums]
  rfl

theorem kindOf_values : (Json.denoted "values".toList).bind enumFields.kindOf
    = some (.list .scalar) := by
  rw [show Json.denoted "values".toList = some "values" from rfl]
  rfl

/-- The place of the one value of the one enumeration in a definition. -/
def valuePlace : Json.Place definition .scalar :=
  .member [] "enums".toList kindOf_enums
    (.item [] (.member [] "values".toList kindOf_values (.item [] .here []) []) []) []

theorem document_valuePlace {n : Json.Node} {cs : List Char} (h : n.Writes cs) :
    Json.Document (valuePlace.put n) (String.ofList ("\x7b\"enums\":[".toList
      ++ ("\x7b\"values\":[".toList ++ (cs ++ "]\x7d".toList) ++ "]\x7d".toList))) := by
  have hkey : Json.IsBody "values".toList := Json.isBody_plain (by decide)
  have hvalues := Json.Node.writes_list_tight (n, cs) [] (List.forall_mem_singleton.mpr h)
  have hobject := Json.Node.writes_object_tight (.tight "values".toList _ _) []
    (List.forall_mem_singleton.mpr ⟨Json.Entry.sound_tight hkey .., hvalues⟩)
  have hdocument := document_enumPlace hobject
  simpa [Json.Entry.tight, Json.Entry.text, Json.Entry.afterKey, Json.Entry.member, enumPlace,
    valuePlace, Json.Place.put] using hdocument

/-- The one value of the one enumeration in a table. -/
def oneValue (es : Toml.Entries) : Option (Toml.Extent × Int) :=
  match es with
  | [(name, _, .list _ [(_, .table _ [(key, _, .list _ [(e, .integer n)])])])] =>
    if name = "enums" ∧ key = "values" then some (e, n) else none
  | _ => none

/-- The steps to the one value. -/
def valuePath : List Kind.Step := [.field "enums", .item 0, .field "values", .item 0]

theorem path_valuePlace : valuePlace.path = valuePath := by
  simp only [valuePlace, Json.Place.path, denoted_enums, List.length_nil, Option.getD_some]
  rfl

theorem holds_oneValue {es : Toml.Entries} {hole : Toml.Extent} {n : Int}
    (h : oneValue es = some (hole, n)) (e : Toml.Extent) :
    Toml.HoldsAt (hole, .integer n) valuePath definition (e, .table .header es) := by
  unfold oneValue at h
  split at h
  · split at h
    · rename_i hkeys
      obtain ⟨rfl, rfl⟩ := hkeys
      obtain ⟨rfl, rfl⟩ := Prod.mk.inj (Option.some.inj h)
      exact .member _ _ rfl (.head _) (.item _ _ rfl (.member _ _ rfl (.head _)
        (.item _ _ rfl .here)))
    · cases h
  · cases h

theorem statesLiteral_oneValue {n : Int} {lower : -2 ^ 63 ≤ n} {upper : n < 2 ^ 64}
    {text behind : List Char}
    (h : (Toml.parse (text ++ ((Int.repr n).toList ++ behind))).toOption.bind oneValue
      = some (⟨(Int.repr n).toList ++ behind, behind⟩, n)) :
    StatesLiteral (.integer n lower upper) valuePath text behind := by
  obtain ⟨es, hes, hvalue⟩ := Option.bind_eq_some_iff.mp h
  exact ⟨es, eq_ok_of_toOption hes, holds_oneValue hvalue _⟩

theorem the_highest_integer_is_carried :
    (parse .json "\x7b\"enums\":[\x7b\"values\":[18446744073709551615]\x7d]\x7d").toOption
        = (parse .json
          "\x7b\"enums\":[\x7b\"values\":[\"18446744073709551615\"]\x7d]\x7d").toOption ∧
      (parse .toml "[[enums]]\nvalues = [18446744073709551615]\n").toOption
        = (parse .toml "[[enums]]\nvalues = [\"18446744073709551615\"]\n").toOption ∧
      (parse .toml "[[enums]]\nvalues = [18446744073709551615]\n").toOption
        = some { enums := [{ values := ["18446744073709551615"] }] } ∧
      (∃ d, parse .json "\x7b\"enums\":[\x7b\"values\":[18446744073709551615]\x7d]\x7d" = .ok d ∧
        d.scalarAt valuePath = some "18446744073709551615") ∧
      ∃ d, parse .toml "[[enums]]\nvalues = [18446744073709551615]\n" = .ok d ∧
        d.scalarAt valuePath = some "18446744073709551615" := by
  have hdigits : Json.denoted "18446744073709551615".toList = some highest.word := by
    decide +kernel
  have hbody : Json.IsBody "18446744073709551615".toList := Json.isBody_plain (by decide)
  have hstring : Toml.quoted '"' ("18446744073709551615\"".toList ++ "]\n".toList)
      = some (highest.word, "]\n".toList) := by decide +kernel
  have hstates : StatesLiteral highest valuePath "[[enums]]\nvalues = [".toList "]\n".toList :=
    statesLiteral_oneValue (by decide +kernel)
  have htoList : highest.word.toList = "18446744073709551615".toList := by decide +kernel
  have hword : highest.word = "18446744073709551615" := String.toList_inj.mp htoList
  have hnumber := document_valuePlace highest.writes_node
  obtain ⟨-, -, hjson, hjsonAt, htoml, htomlAt⟩ := literals_are_carried_word_for_word highest
  have hsame := htoml '"' _ _ _ _ (Or.inl rfl) hstring hstates
  have htold := htomlAt _ _ _ { enums := [{ values := ["18446744073709551615"] }] } hstates
  rw [htoList] at hnumber hsame htold
  have hread : (parse .json
      "\x7b\"enums\":[\x7b\"values\":[18446744073709551615]\x7d]\x7d").toOption
        = some { enums := [{ values := ["18446744073709551615"] }] } := by decide +kernel
  have hread' : (parse .toml "[[enums]]\nvalues = [18446744073709551615]\n").toOption
      = some { enums := [{ values := ["18446744073709551615"] }] } := by decide +kernel
  refine ⟨hjson valuePlace _ _ _ hdigits hnumber (document_valuePlace (.text hbody)), hsame, hread',
    ⟨_, eq_ok_of_toOption hread, ?_⟩, ⟨_, eq_ok_of_toOption hread', ?_⟩⟩
  · rw [← path_valuePlace, ← hword]
    exact hjsonAt valuePlace _ _ hnumber (eq_ok_of_toOption hread)
  · rw [← hword]
    exact htold (eq_ok_of_toOption hread')

end Definition

end ModelScribe
