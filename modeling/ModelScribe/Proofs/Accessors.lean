-- Fields and accessors. Whether a property works through accessors decides
-- what its field is called and what is written beside it, and both sides
-- decide it on their own. A reader goes over the lines of the members and
-- notes what they declare. However the properties of a list are mixed, it
-- finds no identifier declared twice, and where an accessor names a field of
-- its own property, the field is there under this name.
import Mathlib.Data.List.Nodup
import ModelScribe.Proofs.ClassText

namespace ModelScribe

open Text

/-! ## Reading declarations -/

/-- A member as the lines of a class body declare it. A body is the list of its statements. -/
inductive Declared where
  | field (name : String)
  | getter (name : String) (body : List Doc)
  | setter (name : String) (body : List Doc)
  deriving DecidableEq, Repr

namespace Declared

/-- What a line declares, with the statements that follow it. -/
def ofLine (body : List Doc) : Doc → Option Declared
  | .tab :: .text _ :: .text _ :: .text "get " :: .text name :: .text "():" :: _ =>
    some (.getter name body)
  | .tab :: .text _ :: .text _ :: .text "set " :: .text name :: .text "(value:" :: _ =>
    some (.setter name body)
  | .tab :: .text _ :: .text _ :: .text name :: rest =>
    if rest.getLast? = some (.text ";") then some (.field name) else none
  | _ => none

/-- The members that the lines declare. The statements of a body stand two units deep. -/
def read : List Doc → List Declared
  | [] => []
  | l :: rest =>
    (ofLine ((rest.takeWhile isStatement).map (·.drop 2)) l).toList ++ read rest

def fieldName : Declared → Option String
  | .field name => some name
  | _ => none

def getterName : Declared → Option String
  | .getter name _ => some name
  | _ => none

def setterName : Declared → Option String
  | .setter name _ => some name
  | _ => none

/-- The identifiers that are declared as fields. -/
def fields (ds : List Declared) : List String := ds.filterMap fieldName

/-- The names that have a getter, each as often as it has one. -/
def getters (ds : List Declared) : List String := ds.filterMap getterName

/-- The names that have a setter, each as often as it has one. -/
def setters (ds : List Declared) : List String := ds.filterMap setterName

/-! ### Blocks -/

theorem read_statements (body : List Doc) (rest : List Doc) :
    read (body.map Doc.statement ++ Doc.closing :: rest) = read rest := by
  induction body with
  | nil => rfl
  | cons s body ih =>
    rw [List.map_cons, List.cons_append, read, ih]
    rfl

/-- An accessor is read with the statements between its first line and its last one. -/
theorem read_block {head : Doc} {d : List Doc → Declared}
    (h : ∀ body, ofLine body head = some (d body)) (body rest : List Doc) :
    read (head :: (body.map Doc.statement ++ [Doc.closing]) ++ rest) = d body :: read rest := by
  have hstatements : ∀ s ∈ body.map Doc.statement, isStatement s = true :=
    List.forall_mem_map.mpr fun s _ => rfl
  have hend : (Doc.closing :: rest).takeWhile isStatement = [] := rfl
  have hbody : ((body.map Doc.statement ++ Doc.closing :: rest).takeWhile isStatement).map
      (·.drop 2) = body := by
    rw [List.takeWhile_append_of_pos hstatements, hend, List.append_nil, List.map_map]
    simp [Function.comp_def, Doc.statement]
  rw [List.cons_append, List.append_assoc, List.singleton_append, read, hbody, h, read_statements]
  rfl

end Declared

/-! ## Members and properties -/

/-- What a reader takes from a member. -/
def PropertyMember.declared : PropertyMember → Declared
  | .field name _ _ _ => .field name
  | .getter name _ _ body => .getter name [body.doc]
  | .setter name _ _ body => .setter name (body.map (·.doc))

namespace Declared

/-- Each member is read as what it is. -/
theorem read_doc (isStatic : Bool) (m : PropertyMember) (rest : List Doc) :
    read ((m.doc isStatic).lines ++ rest) = m.declared :: read rest := by
  cases m with
  | field name access type value =>
    have hline : ((PropertyMember.field name access type value).doc isStatic).lines
        = [(PropertyMember.field name access type value).doc isStatic] :=
      Doc.lines_eq_singleton (by simp [PropertyMember.doc]) (by
        simp [PropertyMember.doc, (PropertyMember.inline_typeDoc type).line_not_mem,
          (Property.inline_initializer value).line_not_mem])
    have hread (body : List Doc) :
        ofLine body ((PropertyMember.field name access type value).doc isStatic)
          = some (.field name) := by
      cases type <;> cases value <;>
        simp [PropertyMember.doc, PropertyMember.typeDoc, Property.initializer, ofLine]
    rw [hline, List.singleton_append, read, hread]
    rfl
  | getter name access type body =>
    have hread (statements : List Doc) :
        ofLine statements (PropertyMember.getterLine isStatic name access type)
          = some (.getter name statements) := rfl
    rw [PropertyMember.lines_getter, read_block hread]
    rfl
  | setter name access type body =>
    have hread (statements : List Doc) :
        ofLine statements (PropertyMember.setterLine isStatic name access type)
          = some (.setter name statements) := rfl
    rw [PropertyMember.lines_setter, read_block hread]
    rfl

theorem read_members (isStatic : Bool) (members : List PropertyMember) (rest : List Doc) :
    read ((members.flatMap fun m => (m.doc isStatic).lines) ++ rest)
      = members.map (·.declared) ++ read rest := by
  induction members with
  | nil => rfl
  | cons m members ih =>
    rw [List.flatMap_cons, List.append_assoc, read_doc, ih]
    rfl

theorem read_classDoc (v : Conventions) (p : Property) (rest : List Doc) :
    read ((p.classDoc v).lines ++ rest) = (p.members v).map (·.declared) ++ read rest := by
  rw [Property.lines_classDoc, read_members]

end Declared

namespace Property

/-- What a reader finds declared in the text of a list of properties. -/
def declarations (v : Conventions) (ps : List Property) : List Declared :=
  Declared.read (Doc.join (ps.map (·.classDoc v))).lines

/-- The declarations of a list are those of its properties, one after the other. -/
theorem declarations_eq (v : Conventions) (ps : List Property) :
    declarations v ps = ps.flatMap fun p => (p.members v).map (·.declared) := by
  have hvisible : ∀ d ∈ ps.map (·.classDoc v), Doc.Visible d :=
    List.forall_mem_map.mpr fun p _ => Doc.visible_join _
  unfold declarations
  rw [Doc.lines_join hvisible, List.flatMap_map]
  induction ps with
  | nil => rfl
  | cons p ps ih =>
    rw [List.flatMap_cons, Declared.read_classDoc, List.flatMap_cons,
      ih fun d hd => hvisible d (List.mem_cons_of_mem _ hd)]

/-- The identifier of the field that a property declares. -/
def fieldName (p : Property) : String := if p.isPlain then p.name else p.backingField

/-- The field of a property is not plain where a getter is written. -/
theorem isPlain_of_reads {p : Property} (h : (p.usesAccessors && p.read) = true) :
    p.isPlain = false := by
  simp_all [isPlain]

theorem isPlain_of_writes {p : Property} (h : (p.usesAccessors && p.write) = true) :
    p.isPlain = false := by
  simp_all [isPlain]

/-- A named property declares a field, a getter and a setter, as far as it asks for them. -/
theorem map_declared_members {v : Conventions} {p : Property} (h : p.isNamed = true) :
    (p.members v).map (·.declared)
      = (if p.declare then [.field p.fieldName] else [])
        ++ (if p.usesAccessors && p.read then [p.getter.declared] else [])
        ++ (if p.usesAccessors && p.write then [(p.setter v).declared] else []) := by
  have hfield : (p.field v).declared = .field p.fieldName := by
    unfold field fieldName
    cases p.isPlain <;> rfl
  unfold members
  rw [if_pos h, List.map_append, List.map_append, ← hfield]
  cases p.declare <;> cases p.usesAccessors && p.read <;> cases p.usesAccessors && p.write <;> rfl

section Lists

variable {v : Conventions} {ps : List Property} (hnamed : ∀ p ∈ ps, p.isNamed = true)

include hnamed

/-- Where each property declares at most one identifier of a kind, a list declares those of the
properties that do. -/
theorem filterMap_declarations {kind : Declared → Option String} {declares : Property → Bool}
    {identifier : Property → String}
    (h : ∀ p : Property, p.isNamed = true → ((p.members v).map (·.declared)).filterMap kind
      = if declares p then [identifier p] else []) :
    (declarations v ps).filterMap kind = (ps.filter declares).map identifier := by
  rw [declarations_eq]
  induction ps with
  | nil => rfl
  | cons p ps ih =>
    obtain ⟨hp, hps⟩ := List.forall_mem_cons.mp hnamed
    rw [List.flatMap_cons, List.filterMap_append, ih hps, h p hp, List.filter_cons]
    cases declares p <;> rfl

theorem fields_declarations :
    Declared.fields (declarations v ps) = (ps.filter (·.declare)).map (·.fieldName) := by
  apply filterMap_declarations hnamed
  intro p hp
  rw [map_declared_members hp]
  cases p.declare <;> cases p.usesAccessors && p.read <;> cases p.usesAccessors && p.write <;> rfl

theorem getters_declarations : Declared.getters (declarations v ps)
    = (ps.filter fun p => p.usesAccessors && p.read).map (·.name) := by
  apply filterMap_declarations hnamed
  intro p hp
  rw [map_declared_members hp]
  cases p.declare <;> cases p.usesAccessors && p.read <;> cases p.usesAccessors && p.write <;> rfl

theorem setters_declarations : Declared.setters (declarations v ps)
    = (ps.filter fun p => p.usesAccessors && p.write).map (·.name) := by
  apply filterMap_declarations hnamed
  intro p hp
  rw [map_declared_members hp]
  cases p.declare <;> cases p.usesAccessors && p.read <;> cases p.usesAccessors && p.write <;> rfl

end Lists

/-! ## Identifiers -/

/-- A name that does not begin like the name of a private field is none. -/
theorem name_ne_backingField {p q : Property} (hq : q.name.toList.head? ≠ some '_') :
    p.backingField ≠ q.name := by
  intro h
  rw [← h, backingField, String.toList_append] at hq
  exact hq rfl

theorem backingField_inj {p q : Property} (h : p.backingField = q.backingField) :
    p.name = q.name := by
  have hchars := congrArg String.toList h
  rw [backingField, backingField, String.toList_append, String.toList_append] at hchars
  exact String.toList_injective (List.append_cancel_left hchars)

/-- Two fields have the same identifier only where two properties have the same name. -/
theorem name_eq_of_fieldName_eq {p q : Property} (hp : p.name.toList.head? ≠ some '_')
    (hq : q.name.toList.head? ≠ some '_') (h : p.fieldName = q.fieldName) : p.name = q.name := by
  unfold fieldName at h
  cases hplain : p.isPlain <;> cases hplain' : q.isPlain <;>
    simp only [hplain, hplain', if_true, Bool.false_eq_true, if_false] at h
  · exact backingField_inj h
  · exact absurd h (name_ne_backingField hq)
  · exact absurd h.symm (name_ne_backingField hp)
  · exact h

section Distinct

variable {ps : List Property} (hdistinct : (ps.map (·.name)).Nodup)
  (hpublic : ∀ p ∈ ps, p.name.toList.head? ≠ some '_')

include hdistinct

theorem nodup_map_name_filter (keep : Property → Bool) : ((ps.filter keep).map (·.name)).Nodup :=
  hdistinct.sublist (List.filter_sublist.map _)

include hpublic

theorem nodup_map_fieldName_filter (keep : Property → Bool) :
    ((ps.filter keep).map (·.fieldName)).Nodup := by
  have hnames := List.pairwise_map.mp (nodup_map_name_filter hdistinct keep)
  refine List.pairwise_map.mpr (hnames.imp_of_mem ?_)
  intro p q hp hq hne hfields
  exact hne (name_eq_of_fieldName_eq (hpublic p (List.mem_filter.mp hp).1)
    (hpublic q (List.mem_filter.mp hq).1) hfields)

/-- The identifier of a field is the name of no property with accessors. -/
theorem fieldName_not_mem {p : Property} (hp : p ∈ ps) {keep : Property → Bool}
    (hkeep : ∀ q, keep q = true → q.isPlain = false) :
    p.fieldName ∉ (ps.filter keep).map (·.name) := by
  intro hmem
  obtain ⟨q, hq, h⟩ := List.mem_map.mp hmem
  obtain ⟨hq, hkept⟩ := List.mem_filter.mp hq
  unfold fieldName at h
  split at h
  · rename_i hplain
    obtain rfl := List.inj_on_of_nodup_map hdistinct hq hp h
    rw [hkeep q hkept] at hplain
    cases hplain
  · exact name_ne_backingField (hpublic q hq) h.symm

end Distinct

/-! ## Bodies -/

end Property

namespace AccessorStep

theorem write_give (l : Layout) (field : String) :
    l.write (give field).doc = "return this." ++ field ++ ";" := by
  rw [← String.toList_inj]
  simp [doc, Layout.mark]

theorem write_assign (l : Layout) (field : String) :
    l.write (assign field).doc = "this." ++ field ++ l.space ++ "=" ++ l.space ++ "value;" := by
  rw [← String.toList_inj]
  simp [doc, Layout.mark]

theorem write_markDirty (l : Layout) (field : String) :
    l.write (markDirty field).doc = "this." ++ field ++ l.space ++ "=" ++ l.space ++ "true;" := by
  rw [← String.toList_inj]
  simp [doc, Layout.mark]

theorem write_stamp (l : Layout) (field : String) :
    l.write (stamp field).doc
      = "this." ++ field ++ l.space ++ "=" ++ l.space ++ "(new Date()).getTime();" := by
  rw [← String.toList_inj]
  simp [doc, Layout.mark]

end AccessorStep

namespace Property

section Bodies

variable {v : Conventions} {p : Property} {name : String} {body : List Doc}
  (hnamed : p.isNamed = true)

include hnamed

/-- A declared field behind accessors is private. -/
theorem fields_of_not_plain (hdeclare : p.declare = true) (hplain : p.isPlain = false) :
    Declared.fields (declarations v [p]) = ["_" ++ p.name] := by
  rw [fields_declarations (List.forall_mem_singleton.mpr hnamed)]
  simp [hdeclare, fieldName, hplain, backingField]

theorem mem_declarations_singleton {d : Declared} (h : d ∈ declarations v [p]) :
    d = .field p.fieldName ∨ ((p.usesAccessors && p.read) = true ∧ d = p.getter.declared)
      ∨ (p.usesAccessors && p.write) = true ∧ d = (p.setter v).declared := by
  rw [declarations_eq, List.flatMap_singleton, map_declared_members hnamed] at h
  simp only [List.mem_append, List.mem_ite_nil_right, List.mem_singleton] at h
  rcases h with (⟨-, h⟩ | h) | h
  · exact Or.inl h
  · exact Or.inr (Or.inl h)
  · exact Or.inr (Or.inr h)

/-- A getter without a body of its own hands out the private field. -/
theorem body_of_getter (h : .getter name body ∈ declarations v [p])
    (hown : nonBlank p.getterBody = none) :
    p.isPlain = false ∧ ∀ l : Layout, body.map l.write = ["return this._" ++ p.name ++ ";"] := by
  rcases mem_declarations_singleton hnamed h with h | ⟨hread, h⟩ | ⟨-, h⟩
  · cases h
  · simp only [getter, PropertyMember.declared, hown, Declared.getter.injEq] at h
    refine ⟨isPlain_of_reads hread, fun l => ?_⟩
    rw [h.2, List.map_singleton, AccessorStep.write_give, backingField, ← String.append_assoc]
    rfl
  · cases h

/-- A setter without a body of its own fills the private field first, and then notes that and when
the object changed, as far as tracking asks for it. -/
theorem body_of_setter (h : .setter name body ∈ declarations v [p])
    (hown : nonBlank p.setterBody = none) :
    p.isPlain = false ∧ ∀ l : Layout, body.map l.write
      = ["this._" ++ p.name ++ l.space ++ "=" ++ l.space ++ "value;"]
        ++ (if p.track && p.trackState
          then ["this." ++ v.dirtyField ++ l.space ++ "=" ++ l.space ++ "true;"] else [])
        ++ (if p.track && p.trackDate
          then ["this." ++ v.updatedField ++ l.space ++ "=" ++ l.space ++ "(new Date()).getTime();"]
          else []) := by
  rcases mem_declarations_singleton hnamed h with h | ⟨-, h⟩ | ⟨hwrite, h⟩
  · cases h
  · cases h
  · simp only [setter, PropertyMember.declared, setterSteps, hown, Declared.setter.injEq] at h
    refine ⟨isPlain_of_writes hwrite, fun l => ?_⟩
    have hassign : l.write (AccessorStep.assign p.backingField).doc
        = "this._" ++ p.name ++ l.space ++ "=" ++ l.space ++ "value;" := by
      rw [AccessorStep.write_assign, backingField, ← String.append_assoc]
      rfl
    rw [h.2]
    cases p.track && p.trackState <;> cases p.track && p.trackDate <;>
      simp [hassign, AccessorStep.write_markDirty, AccessorStep.write_stamp]

end Bodies

/-! ## The law of accessors -/

/-- However plain properties and properties with accessors are mixed, their text declares no
identifier twice. An accessor without a body of its own refers to the field that its property
declares: in every layout the text of a getter returns this field, and that of a setter assigns it
before it notes that, and when, the object changed. -/
theorem accessors_and_fields_never_clash (v : Conventions) (ps : List Property)
    (hdistinct : (ps.map (·.name)).Nodup)
    (hnames : ∀ p ∈ ps, isBlank p.name = false ∧ p.name.toList.head? ≠ some '_') :
    (Declared.fields (declarations v ps)
        = (ps.filter (·.declare)).map fun p => if p.isPlain then p.name else "_" ++ p.name)
    ∧ ((Declared.fields (declarations v ps)).Nodup
      ∧ (Declared.getters (declarations v ps)).Nodup ∧ (Declared.setters (declarations v ps)).Nodup
      ∧ ∀ f ∈ Declared.fields (declarations v ps),
        f ∉ Declared.getters (declarations v ps) ∧ f ∉ Declared.setters (declarations v ps))
    ∧ declarations v ps = ps.flatMap (declarations v [·])
    ∧ ∀ p ∈ ps,
      (∀ name body, .getter name body ∈ declarations v [p] → nonBlank p.getterBody = none →
        (p.declare = true → Declared.fields (declarations v [p]) = ["_" ++ p.name])
        ∧ ∀ l : Layout, body.map l.write = ["return this._" ++ p.name ++ ";"])
      ∧ ∀ name body, .setter name body ∈ declarations v [p] → nonBlank p.setterBody = none →
        (p.declare = true → Declared.fields (declarations v [p]) = ["_" ++ p.name])
        ∧ ∀ l : Layout, body.map l.write
          = ["this._" ++ p.name ++ l.space ++ "=" ++ l.space ++ "value;"]
            ++ (if p.track && p.trackState
              then ["this." ++ v.dirtyField ++ l.space ++ "=" ++ l.space ++ "true;"] else [])
            ++ (if p.track && p.trackDate
              then ["this." ++ v.updatedField ++ l.space ++ "=" ++ l.space
                ++ "(new Date()).getTime();"]
              else []) := by
  have hnamed : ∀ p ∈ ps, p.isNamed = true := fun p hp => by simp [isNamed, (hnames p hp).1]
  have hpublic : ∀ p ∈ ps, p.name.toList.head? ≠ some '_' := fun p hp => (hnames p hp).2
  have hfields := fields_declarations (v := v) hnamed
  rw [getters_declarations hnamed, setters_declarations hnamed]
  refine ⟨hfields, ?_, ?_, ?_⟩
  · rw [hfields]
    refine ⟨nodup_map_fieldName_filter hdistinct hpublic _, nodup_map_name_filter hdistinct _,
      nodup_map_name_filter hdistinct _, ?_⟩
    intro f hf
    obtain ⟨p, hp, rfl⟩ := List.mem_map.mp hf
    obtain ⟨hp, -⟩ := List.mem_filter.mp hp
    exact ⟨fieldName_not_mem hdistinct hpublic hp fun q hq => isPlain_of_reads hq,
      fieldName_not_mem hdistinct hpublic hp fun q hq => isPlain_of_writes hq⟩
  · have hsingle (p : Property) : declarations v [p] = (p.members v).map (·.declared) := by
      rw [declarations_eq, List.flatMap_singleton]
    simp only [hsingle, declarations_eq]
  · intro p hp
    constructor
    · intro name body hmem hown
      obtain ⟨hplain, hbody⟩ := body_of_getter (hnamed p hp) hmem hown
      exact ⟨fun hdeclare => fields_of_not_plain (hnamed p hp) hdeclare hplain, hbody⟩
    · intro name body hmem hown
      obtain ⟨hplain, hbody⟩ := body_of_setter (hnamed p hp) hmem hown
      exact ⟨fun hdeclare => fields_of_not_plain (hnamed p hp) hdeclare hplain, hbody⟩

/-- A plain property, a tracked one and a static one that has a getter and no field. The setter of
the tracked one leaves out the time, and its getter and setter speak of the field that it
declares. -/
theorem a_tracked_size_declares_its_own_field :
    let v := ({} : Options).conventions
    let size := (Property.named "size").tracked.trackingDate false
    let label := (((Property.named "label").withGetter "return 'n';").declared false).asStatic
    let ps := [.named "id", size, label.writable false]
    ((ps.map (·.name)).Nodup
      ∧ ∀ p ∈ ps, isBlank p.name = false ∧ p.name.toList.head? ≠ some '_')
    ∧ (size ∈ ps ∧ size.declare = true ∧ nonBlank size.getterBody = none
      ∧ nonBlank size.setterBody = none)
    ∧ Declared.fields (declarations v [size]) = ["_size"]
    ∧ (∃ body, .getter "size" body ∈ declarations v [size]
      ∧ body.map Layout.compact.write = ["return this._size;"])
    ∧ (∃ body, .setter "size" body ∈ declarations v [size]
      ∧ body.map Layout.compact.write = ["this._size=value;", "this._isDirty=true;"]
      ∧ body.map Layout.standard.write = ["this._size = value;", "this._isDirty = true;"])
    ∧ (Declared.fields (declarations v ps)).Nodup := by
  intro v size label ps
  have hdistinct : (ps.map (·.name)).Nodup := by decide
  have hnames : ∀ p ∈ ps, isBlank p.name = false ∧ p.name.toList.head? ≠ some '_' := by decide
  have hmem : size ∈ ps := by decide
  have hdeclarations : declarations v [size]
      = [.field "_size", size.getter.declared, (size.setter v).declared] := by
    rw [declarations_eq]
    decide
  obtain ⟨getting, hgetter⟩ : ∃ body, .getter "size" body ∈ declarations v [size] :=
    ⟨_, by rw [hdeclarations]; exact List.mem_cons_of_mem _ List.mem_cons_self⟩
  obtain ⟨setting, hsetter⟩ : ∃ body, .setter "size" body ∈ declarations v [size] :=
    ⟨_, by
      rw [hdeclarations]
      exact List.mem_cons_of_mem _ (List.mem_cons_of_mem _ List.mem_cons_self)⟩
  obtain ⟨-, ⟨hfields, -⟩, -, hbodies⟩ := accessors_and_fields_never_clash v ps hdistinct hnames
  obtain ⟨hfield, hgives⟩ := (hbodies size hmem).1 "size" getting hgetter rfl
  obtain ⟨-, hassigns⟩ := (hbodies size hmem).2 "size" setting hsetter rfl
  exact ⟨⟨hdistinct, hnames⟩, ⟨hmem, rfl, rfl, rfl⟩, hfield rfl,
    ⟨getting, hgetter, hgives .compact⟩,
    ⟨setting, hsetter, hassigns .compact, hassigns .standard⟩, hfields⟩

end Property

end ModelScribe
