-- The wording of a program: every text that its descriptors and its options
-- give. All of it may come out word for word, and everything else that comes
-- out is the generator's own. So a law about a whole output asks something of
-- each text of the wording, and of nothing else.
import ModelScribe.Proofs.Generation

namespace ModelScribe

open Text

/-! ## Members -/

def Property.wording (p : Property) : List String :=
  [p.name, p.type, p.modifier.text] ++ p.value.toList ++ p.getterBody.toList ++ p.setterBody.toList

def Method.wording (m : Method) : List String :=
  [m.name, m.type, m.body, m.modifier.text] ++ m.args.flatMap (·.wording)

/-! ## Declarations -/

def DecoratorOption.wording (o : DecoratorOption) : List String := [o.name, o.value]

def Decorator.wording (d : Decorator) : List String := d.type :: d.options.flatMap (·.wording)

def EnumMember.wording (m : EnumMember) : List String := m.name :: m.value.toList

def Enumeration.wording (e : Enumeration) : List String := e.name :: e.members.flatMap (·.wording)

def Import.wording (i : Import) : List String := [i.name, i.path]

def Outline.wording (o : Outline) : List String :=
  o.name :: o.parent.toList ++ o.imports.flatMap (·.wording) ++ o.properties.flatMap (·.wording)
    ++ o.methods.flatMap (·.wording)

def Class.wording (c : Class) : List String :=
  c.toOutline.wording ++ c.args.flatMap (·.wording) ++ c.superArgs ++ c.implements
    ++ c.decorator.toList.flatMap (·.wording) ++ c.constructorCode.toList

/-! ## Access modifiers -/

def Method.modifiers (m : Method) : List Modifier := m.modifier :: m.args.map (·.modifier)

def Outline.modifiers (o : Outline) : List Modifier :=
  o.properties.map (·.modifier) ++ o.methods.flatMap (·.modifiers)

/-! ## Programs -/

/-- The names of fields that the options give. -/
def Options.wording (o : Options) : List String :=
  o.classField.toList ++ [o.dirtyField, o.updatedField]

def Program.wording (p : Program) : List String :=
  p.options.wording ++ p.enums.flatMap (·.wording) ++ p.interfaces.flatMap (·.wording)
    ++ p.classes.flatMap (·.wording)

/-! ## A law for every text

Whatever holds of every text of a whole holds of every text of its parts. -/

section Parts

variable {P : String → Prop}

theorem Property.forall_mem_wording (p : Property) :
    (∀ s ∈ p.wording, P s)
      ↔ (P p.name ∧ P p.type ∧ P p.modifier.text) ∧ (∀ s, p.value = some s → P s)
        ∧ (∀ s, p.getterBody = some s → P s) ∧ ∀ s, p.setterBody = some s → P s := by
  simp [wording, or_imp, forall_and, and_assoc]

theorem Method.forall_mem_wording (m : Method) :
    (∀ s ∈ m.wording, P s)
      ↔ (P m.name ∧ P m.type ∧ P m.body ∧ P m.modifier.text)
        ∧ ∀ a ∈ m.args, ∀ s ∈ a.wording, P s := by
  simp only [wording, List.forall_mem_append, List.forall_mem_cons, List.forall_mem_flatMap]
  simp

theorem Decorator.forall_mem_wording (d : Decorator) :
    (∀ s ∈ d.wording, P s) ↔ P d.type ∧ ∀ o ∈ d.options, P o.name ∧ P o.value := by
  simp only [wording, DecoratorOption.wording, List.forall_mem_cons, List.forall_mem_flatMap]
  simp

theorem Enumeration.forall_mem_wording (e : Enumeration) :
    (∀ s ∈ e.wording, P s)
      ↔ P e.name ∧ ∀ m ∈ e.members, P m.name ∧ ∀ s, m.value = some s → P s := by
  simp only [wording, EnumMember.wording, List.forall_mem_cons, List.forall_mem_flatMap]
  simp

theorem Outline.forall_mem_wording (o : Outline) :
    (∀ s ∈ o.wording, P s)
      ↔ P o.name ∧ (∀ s, o.parent = some s → P s) ∧ (∀ i ∈ o.imports, P i.name ∧ P i.path)
        ∧ (∀ p ∈ o.properties, ∀ s ∈ p.wording, P s) ∧ ∀ m ∈ o.methods, ∀ s ∈ m.wording, P s := by
  simp only [wording, Import.wording, List.forall_mem_append, List.forall_mem_cons,
    List.forall_mem_flatMap]
  simp [and_assoc]

theorem Class.forall_mem_wording (c : Class) :
    (∀ s ∈ c.wording, P s)
      ↔ (∀ s ∈ c.toOutline.wording, P s) ∧ (∀ a ∈ c.args, ∀ s ∈ a.wording, P s)
        ∧ (∀ a ∈ c.superArgs, P a) ∧ (∀ n ∈ c.implements, P n)
        ∧ (∀ d, c.decorator = some d → ∀ s ∈ d.wording, P s)
        ∧ ∀ s, c.constructorCode = some s → P s := by
  simp only [wording, List.forall_mem_append, List.forall_mem_flatMap]
  simp [and_assoc]

end Parts

/-! ## The texts of members and constructors

A member of a class and a statement of a constructor say what the wording and the conventions say,
apart from a few names of the generator's own. -/

def AccessorStep.texts : AccessorStep → List String
  | .custom code => [code]
  | .give field => [field]
  | .assign field => [field]
  | .markDirty field => [field]
  | .stamp field => [field]

def PropertyMember.texts : PropertyMember → List String
  | .field name access type value => [name, access] ++ type.toList ++ value.toList
  | .getter name access type body => [name, access, type] ++ body.texts
  | .setter name access type body => [name, access, type] ++ body.flatMap (·.texts)

def ConstructorStep.texts : ConstructorStep → List String
  | .callSuper args => args
  | .tagClass field name => [field, name]
  | .enlist field names => field :: names
  | .custom code => [code]

def Conventions.texts (v : Conventions) : List String :=
  [v.dirtyField, v.updatedField] ++ v.discriminator.toList

/-- The law holds of the names that the generator adds. -/
structure HoldsOfOwnNames (P : String → Prop) : Prop where
  access : P "private"
  backingField : ∀ name, P name → P ("_" ++ name)
  roster : ∀ r : Roster, P r.field

theorem Conventions.forall_mem_texts {P : String → Prop} (v : Conventions) :
    (∀ s ∈ v.texts, P s)
      ↔ (P v.dirtyField ∧ P v.updatedField) ∧ ∀ f, v.discriminator = some f → P f := by
  simp [texts, or_imp, forall_and, and_assoc]

theorem Options.forall_mem_texts {P : String → Prop} {o : Options} (h : ∀ s ∈ o.wording, P s) :
    ∀ s ∈ o.conventions.texts, P s := by
  simp only [wording, List.forall_mem_append, List.forall_mem_cons] at h
  obtain ⟨hclass, hdirty, hupdated, -⟩ := h
  rw [Conventions.forall_mem_texts]
  refine ⟨⟨hdirty, hupdated⟩, ?_⟩
  intro f hf
  exact hclass f (Option.mem_toList.mpr (nonBlank_eq_some.mp hf).1)

namespace Property

variable {P : String → Prop} {v : Conventions} {p : Property}

theorem forall_mem_texts_field (hown : HoldsOfOwnNames P) (v : Conventions)
    (h : ∀ s ∈ p.wording, P s) : ∀ t ∈ (p.field v).texts, P t := by
  obtain ⟨⟨hname, htype, hmodifier⟩, hvalue, -⟩ := p.forall_mem_wording.mp h
  have htypes : ∀ t ∈ (if p.defaultValue.isSome && v.inferType then none
      else some p.type : Option String).toList, P t := by
    split
    · simp
    · simpa using htype
  have hvalues : ∀ t ∈ p.defaultValue.toList, P t := fun t ht =>
    hvalue t (nonBlank_eq_some.mp (Option.mem_toList.mp ht)).1
  unfold field
  cases p.isPlain with
  | true =>
    simp only [if_true, PropertyMember.texts, List.forall_mem_append, List.forall_mem_cons]
    exact ⟨⟨⟨hname, hmodifier, by simp⟩, htypes⟩, hvalues⟩
  | false =>
    simp only [Bool.false_eq_true, if_false, PropertyMember.texts, List.forall_mem_append,
      List.forall_mem_cons]
    exact ⟨⟨⟨hown.backingField _ hname, hown.access, by simp⟩, htypes⟩, hvalues⟩

theorem forall_mem_texts_getter (hown : HoldsOfOwnNames P) (h : ∀ s ∈ p.wording, P s) :
    ∀ t ∈ p.getter.texts, P t := by
  obtain ⟨⟨hname, htype, hmodifier⟩, -, hgetter, -⟩ := p.forall_mem_wording.mp h
  simp only [getter, PropertyMember.texts, List.forall_mem_append, List.forall_mem_cons]
  refine ⟨⟨hname, hmodifier, htype, by simp⟩, ?_⟩
  cases hcode : nonBlank p.getterBody with
  | none => exact List.forall_mem_singleton.mpr (hown.backingField _ hname)
  | some code =>
    exact List.forall_mem_singleton.mpr (hgetter code (nonBlank_eq_some.mp hcode).1)

theorem forall_mem_texts_setterSteps (hown : HoldsOfOwnNames P) (hv : ∀ s ∈ v.texts, P s)
    (h : ∀ s ∈ p.wording, P s) : ∀ s ∈ p.setterSteps v, ∀ t ∈ s.texts, P t := by
  obtain ⟨⟨hname, -⟩, -, -, hsetter⟩ := p.forall_mem_wording.mp h
  obtain ⟨⟨hdirty, hupdated⟩, -⟩ := v.forall_mem_texts.mp hv
  unfold setterSteps
  cases hcode : nonBlank p.setterBody with
  | some code =>
    simpa [AccessorStep.texts] using hsetter code (nonBlank_eq_some.mp hcode).1
  | none =>
    simp only [List.cons_append, List.forall_mem_cons, List.forall_mem_append]
    refine ⟨by simpa [AccessorStep.texts, backingField] using hown.backingField _ hname, ?_, ?_⟩
    · split <;> simp [AccessorStep.texts, hdirty]
    · split <;> simp [AccessorStep.texts, hupdated]

theorem forall_mem_texts_setter (hown : HoldsOfOwnNames P) (hv : ∀ s ∈ v.texts, P s)
    (h : ∀ s ∈ p.wording, P s) : ∀ t ∈ (p.setter v).texts, P t := by
  obtain ⟨⟨hname, htype, hmodifier⟩, -⟩ := p.forall_mem_wording.mp h
  simp only [setter, PropertyMember.texts, List.forall_mem_append, List.forall_mem_cons,
    List.forall_mem_flatMap]
  exact ⟨⟨hname, hmodifier, htype, by simp⟩, forall_mem_texts_setterSteps hown hv h⟩

/-- Whatever holds of the texts of a property holds of the texts of its members. -/
theorem forall_mem_texts (hown : HoldsOfOwnNames P) (hv : ∀ s ∈ v.texts, P s)
    (h : ∀ s ∈ p.wording, P s) : ∀ m ∈ p.members v, ∀ t ∈ m.texts, P t :=
  forall_mem_members (fun _ => forall_mem_texts_field hown v h)
    (fun _ _ => forall_mem_texts_getter hown h) fun _ _ => forall_mem_texts_setter hown hv h

end Property

namespace Class

variable {P : String → Prop} {v : Conventions} {c : Class}

/-- The names in a roster are names of properties. -/
theorem forall_mem_names (h : ∀ s ∈ c.wording, P s) (r : Roster) : ∀ n ∈ r.names c, P n := by
  obtain ⟨houtline, -⟩ := c.forall_mem_wording.mp h
  obtain ⟨-, -, -, hproperties, -⟩ := c.toOutline.forall_mem_wording.mp houtline
  unfold Roster.names
  split
  · refine List.forall_mem_map.mpr fun p hp => ?_
    exact (p.forall_mem_wording.mp (hproperties p (List.mem_filter.mp hp).1)).1.1
  · simp

/-- Whatever holds of the texts of a class holds of the texts of its constructor. -/
theorem forall_mem_texts (hown : HoldsOfOwnNames P) (hv : ∀ s ∈ v.texts, P s)
    (h : ∀ s ∈ c.wording, P s) : ∀ s ∈ c.constructorSteps v, ∀ t ∈ s.texts, P t := by
  obtain ⟨houtline, -, hsuper, -, -, hcode⟩ := c.forall_mem_wording.mp h
  obtain ⟨hname, -⟩ := c.toOutline.forall_mem_wording.mp houtline
  obtain ⟨-, hdiscriminator⟩ := v.forall_mem_texts.mp hv
  unfold constructorSteps
  simp only [List.forall_mem_append, List.forall_mem_map]
  refine ⟨⟨?_, ?_⟩, ?_⟩
  · split
    · refine List.forall_mem_cons.mpr ⟨hsuper, List.forall_mem_map.mpr fun f hf => ?_⟩
      simpa [ConstructorStep.texts] using ⟨hdiscriminator f (Option.mem_toList.mp hf), hname⟩
    · simp
  · exact fun r _ => List.forall_mem_cons.mpr ⟨hown.roster r, forall_mem_names h r⟩
  · intro code hmem
    have hsome := (nonBlank_eq_some.mp (Option.mem_toList.mp hmem)).1
    exact List.forall_mem_singleton.mpr (hcode code hsome)

end Class

namespace ImportGroups

variable {P Q : String → Prop}

theorem forall_mem_add {path symbol : String} {groups : ImportGroups} (hpath : P path)
    (hsymbol : Q symbol) (h : ∀ g ∈ groups, P g.1 ∧ ∀ s ∈ g.2, Q s) :
    ∀ g ∈ add path symbol groups, P g.1 ∧ ∀ s ∈ g.2, Q s := by
  induction groups with
  | nil => simpa [add] using ⟨hpath, hsymbol⟩
  | cons g rest ih =>
    obtain ⟨hg, hrest⟩ := List.forall_mem_cons.mp h
    unfold add
    split
    · refine List.forall_mem_cons.mpr ⟨⟨hg.1, ?_⟩, hrest⟩
      exact List.forall_mem_append.mpr ⟨hg.2, List.forall_mem_singleton.mpr hsymbol⟩
    · exact List.forall_mem_cons.mpr ⟨hg, ih hrest⟩

/-- Groups hold no other texts than the imports that they come from. -/
theorem forall_mem_addAll {imports : List Import} (himports : ∀ i ∈ imports, Q i.name ∧ P i.path)
    {groups : ImportGroups} (h : ∀ g ∈ groups, P g.1 ∧ ∀ s ∈ g.2, Q s) :
    ∀ g ∈ groups.addAll imports, P g.1 ∧ ∀ s ∈ g.2, Q s := by
  induction imports generalizing groups with
  | nil => exact h
  | cons i rest ih =>
    obtain ⟨hi, hrest⟩ := List.forall_mem_cons.mp himports
    exact ih hrest (forall_mem_add hi.2 hi.1 h)

end ImportGroups

namespace Program

variable {P : String → Prop} {p : Program}

theorem forall_mem_wording (p : Program) :
    (∀ s ∈ p.wording, P s)
      ↔ (∀ s ∈ p.options.wording, P s) ∧ (∀ e ∈ p.enums, ∀ s ∈ e.wording, P s)
        ∧ (∀ i ∈ p.interfaces, ∀ s ∈ i.wording, P s)
        ∧ ∀ c ∈ p.classes, ∀ s ∈ c.wording, P s := by
  simp only [wording, List.forall_mem_append, List.forall_mem_flatMap, and_assoc]

/-- The preamble says what the imports of the program say. -/
theorem forall_mem_imports (p : Program) (h : ∀ s ∈ p.wording, P s) :
    ∀ g ∈ p.assembly.imports, P g.1 ∧ ∀ s ∈ g.2, P s := by
  obtain ⟨-, -, hinterfaces, hclasses⟩ := p.forall_mem_wording.mp h
  rw [assembly_eq]
  apply ImportGroups.forall_mem_addAll
  · simp only [List.forall_mem_append, List.forall_mem_flatMap]
    exact ⟨fun i hi => (i.toOutline.forall_mem_wording.mp (hinterfaces i hi)).2.2.1,
      fun c hc => (c.toOutline.forall_mem_wording.mp
        (c.forall_mem_wording.mp (hclasses c hc)).1).2.2.1⟩
  · simp

/-- What forced flags leave alone holds of the classes as they are written. -/
theorem forall_mem_written {Q : Class → Prop} (hforced : ∀ force c, Q c → Q (c.forced force))
    (h : ∀ c ∈ p.classes, Q c) : ∀ c ∈ p.written, Q c := by
  intro c hc
  obtain ⟨i, hi, rfl⟩ := List.mem_mapIdx.mp hc
  exact hforced _ _ (h p.classes[i] (List.getElem_mem hi))

end Program

/-! ## The texts of base models

Every base model carries methods that no descriptor states. Their bodies are long, so they stand
apart from the other texts. -/

namespace BaseModel

def bodies : List String :=
  [registerPropertyBody, registerPropertiesBody, cloneBody, toObjectBody, parseObjectBody false,
    parseObjectBody true, commitBody, revertBody]

/-- Names, types, values and modifiers. -/
def words : List String :=
  ["registerProperty", "registerProperties", "clone", "toObject", "parseObject", "commit", "revert",
    "name", "canClone", "canExport", "canUndo", "properties", "obj", "data", "void", "any", "any[]",
    "string", "boolean", "true", "public"]

/-- A base model carries no other methods than these. -/
theorem mem_methods {c : Class} {m : Method} (hm : m ∈ methods c) :
    m ∈ [registerProperty, registerProperties, clone, toObject, parseObject c.canUndo, commit,
      revert] := by
  unfold methods at hm
  simp only [List.mem_append, List.mem_cons, List.not_mem_nil, or_false] at hm ⊢
  grind

/-- The bodies of these methods stand in one list, their other texts in another. -/
theorem mem_bodies {c : Class} {m : Method} (hm : m ∈ methods c) : m.body ∈ bodies := by
  have hbodies : ∀ canUndo : Bool, [registerProperty, registerProperties, clone, toObject,
      parseObject canUndo, commit, revert].map Method.body ⊆ bodies := by
    intro canUndo
    cases canUndo <;>
      simp [bodies, registerProperty, registerProperties, clone, toObject, parseObject, commit,
        revert]
  exact hbodies c.canUndo (List.mem_map_of_mem (mem_methods hm))

theorem mem_words {c : Class} {m : Method} (hm : m ∈ methods c) :
    (m.name ∈ words ∧ m.type ∈ words ∧ m.modifier.text ∈ words)
      ∧ ∀ a ∈ m.args, ∀ s ∈ a.wording, s ∈ words := by
  have hall : ∀ canUndo : Bool, ∀ m ∈ [registerProperty, registerProperties, clone, toObject,
      parseObject canUndo, commit, revert],
        (m.name ∈ words ∧ m.type ∈ words ∧ m.modifier.text ∈ words)
          ∧ ∀ a ∈ m.args, ∀ s ∈ a.wording, s ∈ words := by
    decide +kernel
  exact hall c.canUndo m (mem_methods hm)

/-- Whatever holds of the bodies and of the other texts holds of every text of a method that a
base model carries. -/
theorem forall_mem_wording {P : String → Prop} (hbodies : ∀ s ∈ bodies, P s)
    (hwords : ∀ s ∈ words, P s) {c : Class} {m : Method} (hm : m ∈ methods c) :
    ∀ s ∈ m.wording, P s := by
  obtain ⟨⟨hname, htype, hmodifier⟩, hargs⟩ := mem_words hm
  rw [Method.forall_mem_wording]
  exact ⟨⟨hwords _ hname, hwords _ htype, hbodies _ (mem_bodies hm), hwords _ hmodifier⟩,
    fun a ha s hs => hwords s (hargs a ha s hs)⟩

end BaseModel

end ModelScribe
