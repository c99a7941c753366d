-- Records by position. A list may stand for a record and states its fields in
-- the order of their declaration. It is read as the object that states the
-- same fields under their keys, wherever the record stands and however the
-- rest is stated: fields for which there is no item have their defaults, and
-- a list with more items than fields is refused.
import Mathlib.Logic.Relation
import ModelScribe.Proofs.Members

namespace ModelScribe.Definition

open Json Schema

/-! ## Structs -/

/-- A record with the value that it is read as. -/
structure Struct where
  name : String
  fields : Fields
  Record : Type
  record : fields.Values → Record
  /-- The fields of a value, in declaration order. -/
  clauses : Record → List Clause

def Struct.kind (s : Struct) : Kind := .record s.name s.fields

/-- The records of a definition. -/
def structs : List Struct :=
  [⟨"Definition", definitionFields, Definition, definitionOf, (·.clauses)⟩,
    ⟨"Options", optionsFields, Options, optionsOf, (·.clauses)⟩,
    ⟨"EnumDef", enumFields, EnumDefinition, enumOf, (·.clauses)⟩,
    ⟨"ImportDef", importFields, ImportDefinition, importOf, (·.clauses)⟩,
    ⟨"InterfaceDef", interfaceFields, InterfaceDefinition, interfaceOf,
      (·.toOutlineDefinition.clauses)⟩,
    ⟨"ClassDef", classFields, ClassDefinition, classOf, (·.clauses)⟩,
    ⟨"PropertyDef", propertyFields, PropertyDefinition, propertyOf, (·.clauses)⟩,
    ⟨"MethodDef", methodFields, MethodDefinition, methodOf, (·.clauses)⟩,
    ⟨"DecoratorDef", decoratorFields, DecoratorDefinition, decoratorOf, (·.clauses)⟩,
    ⟨"DecoratorOptionDef", decoratorOptionFields, DecoratorOptionDefinition,
      decoratorOptionOf, (·.clauses)⟩]

/-- The clauses are those of the fields, and a field that is not stated has its default. -/
def Completes : (fs : Fields) → fs.Values → List Clause → Prop
  | .nil, _, cs => cs = []
  | .cons key _ rest, stated, c :: cs =>
    c.key = key ∧ (stated.1 = none → c.omissible) ∧ Completes rest stated.2 cs
  | .cons .., _, [] => False

theorem completes_of_mem_structs {s : Struct} (hs : s ∈ structs) (stated : s.fields.Values) :
    Completes s.fields stated (s.clauses (s.record stated)) := by
  simp only [structs, List.mem_cons, List.not_mem_nil, or_false] at hs
  rcases hs with rfl | rfl | rfl | rfl | rfl | rfl | rfl | rfl | rfl | rfl
  all_goals
    -- what is left behind the last field is a unit
    repeat obtain ⟨_, stated⟩ := stated
    repeat' constructor
    all_goals
      rintro rfl
      rfl

theorem omissible_of_unstated (fs : Fields) {cs : List Clause} (h : Completes fs fs.unstated cs) :
    ∀ c ∈ cs, c.omissible := by
  match fs, cs with
  | .nil, [] => exact List.forall_mem_nil _
  | .cons key k rest, c :: cs =>
    obtain ⟨-, hc, hcs⟩ := h
    exact List.forall_mem_cons.mpr ⟨hc rfl, omissible_of_unstated rest hcs⟩

/-- The fields behind the last value have their defaults. -/
theorem omissible_of_senseAt (fs : Fields) {ns : List Node} {stated : fs.Values} {cs : List Clause}
    (hsense : senseAt fs ns = some stated) (h : Completes fs stated cs) :
    ∀ c ∈ cs.drop ns.length, c.omissible := by
  match fs, ns, cs with
  | .nil, _, [] => simp
  | .cons key k rest, [], c :: cs =>
    obtain rfl := Option.some.inj hsense
    exact omissible_of_unstated (.cons key k rest) h
  | .cons key k rest, n :: ns, c :: cs =>
    rw [senseAt] at hsense
    obtain ⟨a, -, hothers⟩ := Option.bind_eq_some_iff.mp hsense
    obtain ⟨as, hrest, rfl⟩ := Option.map_eq_some_iff.mp hothers
    change ∀ c ∈ cs.drop ns.length, c.omissible
    exact omissible_of_senseAt rest hrest h.2.2

/-! ## Forms -/

/-- Both are the same definition, or both are refusals of the JSON reader. -/
def SameResult (x y : Except Refusal Definition) : Prop :=
  (∃ d, x = .ok d ∧ y = .ok d) ∨
    (∃ fault, x = .error (.json fault)) ∧ ∃ fault, y = .error (.json fault)

/-- At one place a list that states a record gives way to the object that states the same values
under the keys of the fields. -/
def Reforms (n n' : Node) : Prop :=
  ∃ (name : String) (fs : Fields) (p : Place Schema.definition (.record name fs))
    (ms : List (List Char × Node)),
    Leading fs ms ∧ n = p.put (.list (ms.map (·.2))) ∧ n' = p.put (.object ms)

theorem sense_of_reforms {n n' : Node} (h : Reforms n n') :
    sense Schema.definition n = sense Schema.definition n' := by
  obtain ⟨name, fs, p, ms, hms, rfl, rfl⟩ := h
  exact sense_put_congr p Node.noConfusion Node.noConfusion
    (senseAt_eq_members (p.distinct distinct_definition) hms)

/-- Any number of records may change their forms. -/
theorem sense_of_forms {n n' : Node} (h : Relation.EqvGen Reforms n n') :
    sense Schema.definition n = sense Schema.definition n' := by
  induction h with
  | rel n n' h => exact sense_of_reforms h
  | refl n => rfl
  | symm n n' _ ih => exact ih.symm
  | trans n n' n'' _ _ ih ih' => exact ih.trans ih'

theorem sameResult_of_sense {n n' : Node} {document document' : String}
    (h : Document n document) (h' : Document n' document')
    (hsense : sense Schema.definition n = sense Schema.definition n') :
    SameResult (parse .json document) (parse .json document') := by
  have hsame := parse_congr h h' hsense
  cases hresult : (parse .json document).toOption with
  | none => exact Or.inr ⟨json_refused hresult, json_refused (hsame.symm.trans hresult)⟩
  | some d =>
    exact Or.inl ⟨d, eq_ok_of_toOption hresult, eq_ok_of_toOption (hsame.symm.trans hresult)⟩

/-- A record that a list states, at any place in a document, is read as from the object that
states the values under the keys of the first fields, and it does not matter in which form any
other record stands. The fields that are left have their defaults, and a list with more values
than fields is refused. -/
theorem positions_and_keys_agree {s : Struct} (hs : s ∈ structs)
    (p : Place Schema.definition (.record s.name s.fields)) {vs : List Node} {listed : String}
    (hlisted : Document (p.put (.list vs)) listed) :
    (∀ ms n keyed, Leading s.fields ms → ms.map (·.2) = vs →
      Relation.EqvGen Reforms (p.put (.object ms)) n → Document n keyed →
        SameResult (parse .json listed) (parse .json keyed)) ∧
      (∀ stated, sense (.record s.name s.fields) (.list vs) = some stated →
        ∀ c ∈ (s.clauses (s.record stated)).drop vs.length, c.omissible) ∧
      (s.fields.keys.length < vs.length →
        ∃ fault, parse .json listed = .error (.json fault)) := by
  refine ⟨?_, ?_, fun hsurplus => ?_⟩
  · rintro ms n keyed hms rfl hforms hkeyed
    have hone := sense_of_reforms ⟨s.name, s.fields, p, ms, hms, rfl, rfl⟩
    exact sameResult_of_sense hlisted hkeyed (hone.trans (sense_of_forms hforms))
  · intro stated hstated
    exact omissible_of_senseAt s.fields hstated (completes_of_mem_structs hs stated)
  · exact refused_of_sense hlisted
      (sense_put_none p Node.noConfusion (senseAt_surplus s.fields hsurplus))

/-! ## An enumeration as a row -/

theorem document_enumRow (part : Node × List Char) (parts : List (Node × List Char))
    (h : ∀ p ∈ part :: parts, p.1.Writes p.2) :
    Document (enumPlace.put (.list ((part :: parts).map (·.1)))) (String.ofList
      ("\x7b\"enums\":[".toList ++ ('[' :: (part.2 ++ (parts.map (·.2)).flatMap (',' :: ·)
        ++ [']']) ++ "]\x7d".toList))) :=
  document_enumPlace (Node.writes_list_tight part parts h)

theorem a_row_is_read_by_its_columns :
    SameResult (parse .json "\x7b\"enums\":[[\"Role\"]]\x7d")
        (parse .json "\x7b\"enums\":[\x7b\"name\":\"Role\"\x7d]\x7d") ∧
      parse .json "\x7b\"enums\":[\x7b\"name\":\"Role\"\x7d]\x7d"
        = .ok { enums := [{ name := "Role" }] } ∧
      (∀ c ∈ (EnumDefinition.clauses { name := "Role" }).drop 1, c.omissible) ∧
      ∃ fault, parse .json "\x7b\"enums\":[[\"Role\",1,1,1]]\x7d" = .error (.json fault) := by
  have henum : (⟨"EnumDef", enumFields, EnumDefinition, enumOf, (·.clauses)⟩ : Struct) ∈ structs :=
    .tail _ (.tail _ (.head _))
  have hname : denoted "name".toList = some "name" := rfl
  have hrole : denoted "Role".toList = some "Role" := rfl
  have htext := sound_nameEntry.2
  have hone : (Node.number false ['1']).Writes ['1'] :=
    .number false (.intro isDigits_one (by simp) .none .none)
  have hkeyed := document_enumObject nameEntry [] (List.forall_mem_singleton.mpr sound_nameEntry)
  have hrow := document_enumRow (_, _) [] (List.forall_mem_singleton.mpr htext)
  have hsurplus := document_enumRow (_, _) [(_, _), (_, _), (_, _)]
    (List.forall_mem_cons.mpr ⟨htext, List.forall_mem_cons.mpr ⟨hone,
      List.forall_mem_cons.mpr ⟨hone, List.forall_mem_singleton.mpr hone⟩⟩⟩)
  obtain ⟨hsame, hdefaults, -⟩ := positions_and_keys_agree henum enumPlace hrow
  obtain ⟨-, -, hrefused⟩ := positions_and_keys_agree henum enumPlace hsurplus
  refine ⟨?_, eq_ok_of_toOption (toOption_parse_document hkeyed), ?_, hrefused (by decide)⟩
  · have hleading : Leading enumFields [nameEntry.member] := congrArg (fun s => [s]) hname
    exact hsame [nameEntry.member] _ _ hleading rfl (.refl _) hkeyed
  · have hsense : sense (.record "EnumDef" enumFields) (.list [.text "Role".toList])
        = some (some "Role", none, none, ()) := by
      rw [sense, show senseAt enumFields [.text "Role".toList]
        = (denoted "Role".toList).map fun s => (some s, none, none, ()) from rfl, hrole]
      rfl
    exact hdefaults _ hsense

end ModelScribe.Definition
