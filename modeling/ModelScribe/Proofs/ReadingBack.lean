-- Reading back. A document says a record field by field: each under its key, in
-- any order, and none need be said that has its default value. Here stands
-- for every record how it may be said, and that a JSON document that says a
-- definition so is read as this definition.
import ModelScribe.Proofs.JsonTrees
import ModelScribe.Proofs.Wording
import ModelScribe.Source

namespace ModelScribe

/-! ## Fields -/

/-- A field as a document may say it. -/
structure Clause where
  key : String
  /-- The trees that say its value. -/
  writes : Tree → Prop
  /-- The field may be left out. -/
  omissible : Prop

namespace Clause

/-- A field that may be left out if its value is the default. -/
def of {α : Type} (key : String) (writes : α → Tree → Prop) (value default : α) : Clause where
  key := key
  writes := writes value
  omissible := value = default

/-- The entries say the field, or leave it out where they may. -/
def HoldsIn (s : Clause) (es : List (String × Tree)) : Prop :=
  match es.lookup s.key with
  | none => s.omissible
  | some t => s.writes t

end Clause

/-- The tree says a record with these fields, in any order. -/
def Writes (fields : List Clause) (t : Tree) : Prop :=
  ∃ es, t = .table es ∧ ∀ s ∈ fields, s.HoldsIn es

/-! ## Values -/

namespace Clause

def IsText (s : String) (t : Tree) : Prop := t = .text s

def IsFlag (b : Bool) (t : Tree) : Prop := t = .flag b

def IsByte (n : UInt8) (t : Tree) : Prop := t = .integer n.toNat

def IsModifier (m : Modifier) (t : Tree) : Prop := t = .text m.text

/-- `null` says that there is no value. -/
def IsOptional {α : Type} (writes : α → Tree → Prop) : Option α → Tree → Prop
  | none, t => t = .null
  | some a, t => writes a t

def IsList {α : Type} (writes : α → Tree → Prop) (as : List α) (t : Tree) : Prop :=
  ∃ ts, t = .list ts ∧ List.Forall₂ writes as ts

end Clause

/-! ## Records -/

open Clause

def Options.clauses (o : Options) : List Clause :=
  let d : Options := {}
  [of "prettify" IsFlag o.prettify d.prettify, of "tabSize" IsByte o.tabSize d.tabSize,
    of "className" (IsOptional IsText) o.classField d.classField,
    of "isDirty" IsText o.dirtyField d.dirtyField,
    of "lastUpdated" IsText o.updatedField d.updatedField,
    of "inferType" IsFlag o.inferType d.inferType]

def PropertyDefinition.clauses (p : PropertyDefinition) : List Clause :=
  let d : PropertyDefinition := {}
  [of "name" IsText p.name d.name, of "type" IsText p.type d.type,
    of "value" (IsOptional IsText) p.value d.value, of "optional" IsFlag p.optional d.optional,
    of "static" IsFlag p.isStatic d.isStatic, of "read" IsFlag p.read d.read,
    of "write" IsFlag p.write d.write, of "declare" IsFlag p.declare d.declare,
    of "modifier" IsModifier p.modifier d.modifier, of "canClone" IsFlag p.canClone d.canClone,
    of "canExport" IsFlag p.canExport d.canExport, of "canUndo" IsFlag p.canUndo d.canUndo,
    of "track" IsFlag p.track d.track, of "trackState" IsFlag p.trackState d.trackState,
    of "trackDate" IsFlag p.trackDate d.trackDate,
    of "getterBody" (IsOptional IsText) p.getterBody d.getterBody,
    of "setterBody" (IsOptional IsText) p.setterBody d.setterBody]

def MethodDefinition.clauses (m : MethodDefinition) : List Clause :=
  let d : MethodDefinition := {}
  [of "name" IsText m.name d.name, of "type" IsText m.type d.type,
    of "args" (IsList (Writes ·.clauses)) m.args d.args, of "body" IsText m.body d.body,
    of "static" IsFlag m.isStatic d.isStatic, of "isAbstract" IsFlag m.isAbstract d.isAbstract,
    of "modifier" IsModifier m.modifier d.modifier]

def DecoratorOptionDefinition.clauses (o : DecoratorOptionDefinition) : List Clause :=
  let d : DecoratorOptionDefinition := {}
  [of "name" IsText o.name d.name, of "value" IsText o.value d.value]

def DecoratorDefinition.clauses (c : DecoratorDefinition) : List Clause :=
  let d : DecoratorDefinition := {}
  [of "type" IsText c.type d.type, of "options" (IsList (Writes ·.clauses)) c.options d.options]

def EnumDefinition.clauses (e : EnumDefinition) : List Clause :=
  let d : EnumDefinition := {}
  [of "name" IsText e.name d.name, of "names" (IsList IsText) e.names d.names,
    of "values" (IsList IsText) e.values d.values]

def ImportDefinition.clauses (i : ImportDefinition) : List Clause :=
  let d : ImportDefinition := {}
  [of "name" IsText i.name d.name, of "path" IsText i.path d.path]

/-- The fields that interfaces and classes share. -/
def OutlineDefinition.clauses (o : OutlineDefinition) : List Clause :=
  let d : OutlineDefinition := {}
  [of "name" IsText o.name d.name, of "extends" (IsOptional IsText) o.parent d.parent,
    of "import" (IsList (Writes ·.clauses)) o.imports d.imports,
    of "properties" (IsList (Writes ·.clauses)) o.properties d.properties,
    of "methods" (IsList (Writes ·.clauses)) o.methods d.methods]

def ClassDefinition.clauses (c : ClassDefinition) : List Clause :=
  let d : ClassDefinition := {}
  c.toOutlineDefinition.clauses ++
    [of "args" (IsList (Writes ·.clauses)) c.args d.args,
      of "superArgs" (IsList (Writes ·.clauses)) c.superArgs d.superArgs,
      of "implements" (IsList IsText) c.implements d.implements,
      of "isAbstract" IsFlag c.isAbstract d.isAbstract,
      of "isBaseClass" IsFlag c.isBaseClass d.isBaseClass,
      of "isBaseModel" IsFlag c.isBaseModel d.isBaseModel,
      of "canClone" IsFlag c.canClone d.canClone, of "canExport" IsFlag c.canExport d.canExport,
      of "canUndo" IsFlag c.canUndo d.canUndo,
      of "constructorCode" (IsOptional IsText) c.constructorCode d.constructorCode,
      of "decorator" (IsOptional (Writes ·.clauses)) c.decorator d.decorator]

def Definition.clauses (d : Definition) : List Clause :=
  let e : Definition := {}
  [of "options" (Writes ·.clauses) d.options e.options,
    of "enums" (IsList (Writes ·.clauses)) d.enums e.enums,
    of "interfaces" (IsList (Writes ·.toOutlineDefinition.clauses)) d.interfaces e.interfaces,
    of "classes" (IsList (Writes ·.clauses)) d.classes e.classes]

/-! ## Reading fields back -/

/-- The field takes the default if nothing is stated, and a tree that writes its value states
this value. -/
structure Recovers {α : Type} (k : Kind) (field : Option k.Value → α) (writes : α → Tree → Prop)
    (value default : α) : Prop where
  absent : field none = default
  present : ∀ t, writes value t → ∃ v, k.meaning t = some v ∧ field (some v) = value

section

variable {α : Type} {k : Kind} {field : Option k.Value → α} {writes : α → Tree → Prop}
  {value default : α} {es : List (String × Tree)} {key : String}

/-- The fields of a record are read one by one. -/
theorem exists_named_cons {rest : Fields} {Q : rest.Values → Prop}
    (h : (of key writes value default).HoldsIn es) (hk : Recovers k field writes value default)
    (hrest : ∃ vs, rest.named es rest.unstated = some vs ∧ Q vs) :
    ∃ vs, (Fields.cons key k rest).named es (Fields.cons key k rest).unstated = some vs ∧
      field vs.1 = value ∧ Q vs.2 := by
  obtain ⟨vs, hvs, hQ⟩ := hrest
  simp only [HoldsIn, of] at h
  cases hlookup : es.lookup key with
  | none =>
    rw [hlookup] at h
    refine ⟨(none, vs), ?_, hk.absent.trans h.symm, hQ⟩
    simp [Fields.named, Fields.unstated, hlookup, restated, hvs]
  | some t =>
    rw [hlookup] at h
    obtain ⟨v, hv, hfield⟩ := hk.present t h
    refine ⟨(some v, vs), ?_, hfield, hQ⟩
    simp [Fields.named, Fields.unstated, hlookup, restated, hv, hvs]

theorem exists_named_nil : ∃ vs, Fields.nil.named es Fields.nil.unstated = some vs ∧ True :=
  ⟨(), rfl, trivial⟩

end

open Schema

theorem recovers_text (s d : String) : Recovers .text (·.getD d) IsText s d where
  absent := rfl
  present := by
    rintro _ rfl
    exact ⟨s, rfl, rfl⟩

theorem recovers_scalar (s d : String) : Recovers .scalar (·.getD d) IsText s d where
  absent := rfl
  present := by
    rintro _ rfl
    exact ⟨s, rfl, rfl⟩

theorem recovers_flagOff (b : Bool) : Recovers .flag flagOff IsFlag b false where
  absent := rfl
  present := by
    rintro _ rfl
    exact ⟨b, rfl, rfl⟩

theorem recovers_flagOn (b : Bool) : Recovers .flag flagOn IsFlag b true where
  absent := rfl
  present := by
    rintro _ rfl
    exact ⟨b, rfl, rfl⟩

theorem recovers_byte (n d : UInt8) : Recovers .byte (·.getD d) IsByte n d where
  absent := rfl
  present := by
    rintro _ rfl
    have hlt : n.toNat < 256 := n.toNat_lt
    refine ⟨n, ?_, rfl⟩
    rw [Kind.meaning]
    simp [show ((n.toNat : Int) < 256) by omega]

/-- A modifier that a text stands for is the one that its own text stands for. -/
theorem Modifier.ofText_text {m : Modifier} (h : ∃ s, ofText s = m) : ofText m.text = m := by
  obtain ⟨s, rfl⟩ := h
  have hwords : ∀ m ∈ [pub, prot, priv], ofText m.text = m := by decide +kernel
  by_cases hs : ofText s ∈ [pub, prot, priv]
  · exact hwords _ hs
  · have hcustom : ofText s = .custom s := by
      unfold ofText at hs ⊢
      repeat' split at hs
      all_goals simp_all
    rw [hcustom, text, hcustom]

theorem recovers_modifier {m : Modifier} (h : ∃ s, Modifier.ofText s = m) :
    Recovers .text modifierOf IsModifier m .pub where
  absent := rfl
  present := by
    rintro _ rfl
    refine ⟨m.text, rfl, ?_⟩
    rw [modifierOf, Option.map_some, Option.getD_some, Modifier.ofText_text h]

section

variable {α : Type} {k : Kind} {record : k.Value → α} {writes : α → Tree → Prop}

/-- Each tree that writes the value states it. -/
def Reads (k : Kind) (record : k.Value → α) (writes : α → Tree → Prop) (a : α) : Prop :=
  ∀ t, writes a t → ∃ v, k.meaning t = some v ∧ record v = a

theorem reads_text (s : String) : Reads .text id IsText s := by
  rintro _ rfl
  exact ⟨s, rfl, rfl⟩

theorem reads_scalar (s : String) : Reads .scalar id IsText s := by
  rintro _ rfl
  exact ⟨s, rfl, rfl⟩

theorem recovers_optional (hnull : k.meaning .null = none) {o : Option α}
    (h : ∀ a, o = some a → Reads k record writes a) :
    Recovers (.optional k) (fun v => v.join.map record) (IsOptional writes) o none where
  absent := rfl
  present := by
    intro t ht
    cases o with
    | none =>
      obtain rfl : t = .null := ht
      exact ⟨none, rfl, rfl⟩
    | some a =>
      obtain ⟨v, hv, ha⟩ := h a rfl t ht
      have hne : t ≠ .null := by
        rintro rfl
        rw [hnull] at hv
        cases hv
      refine ⟨some v, ?_, congrArg some ha⟩
      cases t <;> simp [Kind.meaning, hv] at hne ⊢

theorem mapM_meaning {as : List α} {ts : List Tree} (hts : List.Forall₂ writes as ts)
    (h : ∀ a ∈ as, Reads k record writes a) :
    ∃ vs, ts.mapM (fun t => k.meaning t) = some vs ∧ vs.map record = as := by
  induction hts with
  | nil => exact ⟨[], rfl, rfl⟩
  | cons ht _ ih =>
    obtain ⟨v, hv, ha⟩ := h _ List.mem_cons_self _ ht
    obtain ⟨vs, hvs, has⟩ := ih fun b hb => h b (List.mem_cons_of_mem _ hb)
    exact ⟨v :: vs, by simp [List.mapM_cons, hv, hvs], by rw [List.map_cons, ha, has]⟩

theorem recovers_list {as : List α} (h : ∀ a ∈ as, Reads k record writes a) :
    Recovers (.list k) (itemsOf record) (IsList writes) as [] where
  absent := rfl
  present := by
    rintro _ ⟨ts, rfl, hts⟩
    exact mapM_meaning hts h

end

theorem Recovers.congr {α : Type} {k : Kind} {field field' : Option k.Value → α}
    {writes : α → Tree → Prop} {value default : α} (h : Recovers k field writes value default)
    (hfield : ∀ o, field' o = field o) : Recovers k field' writes value default where
  absent := (hfield none).trans h.absent
  present t ht := by
    obtain ⟨v, hv, hvalue⟩ := h.present t ht
    exact ⟨v, hv, (hfield (some v)).trans hvalue⟩

theorem recovers_optionalText (o : Option String) :
    Recovers (.optional .text) (·.join) (IsOptional IsText) o none :=
  (recovers_optional rfl fun s _ => reads_text s).congr fun _ => by simp

theorem recovers_optionalScalar (o : Option String) :
    Recovers (.optional .scalar) (·.join) (IsOptional IsText) o none :=
  (recovers_optional rfl fun s _ => reads_scalar s).congr fun _ => by simp

theorem recovers_texts (as : List String) :
    Recovers (.list .text) (·.getD []) (IsList IsText) as [] :=
  (recovers_list fun s _ => reads_text s).congr fun _ => by simp [itemsOf]

theorem recovers_scalars (as : List String) :
    Recovers (.list .scalar) (·.getD []) (IsList IsText) as [] :=
  (recovers_list fun s _ => reads_scalar s).congr fun _ => by simp [itemsOf]

/-! ## Access modifiers -/

def MethodDefinition.modifiers (m : MethodDefinition) : List Modifier :=
  m.modifier :: m.args.map (·.modifier)

def OutlineDefinition.modifiers (o : OutlineDefinition) : List Modifier :=
  o.properties.map (·.modifier) ++ o.methods.flatMap (·.modifiers)

/-- The access modifiers of all members and arguments. -/
def ClassDefinition.modifiers (c : ClassDefinition) : List Modifier :=
  c.toOutlineDefinition.modifiers ++ c.args.map (·.modifier) ++ c.superArgs.map (·.modifier)

/-! ## Reading records back -/

theorem Options.reads (o : Options) :
    Reads (.record "Options" optionsFields) optionsOf (Writes ·.clauses) o := by
  rintro _ ⟨es, rfl, hs⟩
  simp only [clauses, List.forall_mem_cons] at hs
  obtain ⟨prettify, tabSize, classField, dirtyField, updatedField, inferType⟩ := o
  obtain ⟨h₁, h₂, h₃, h₄, h₅, h₆, -⟩ := hs
  obtain ⟨vs, hvs, rfl, rfl, rfl, rfl, rfl, rfl, -⟩ :=
    exists_named_cons h₁ (recovers_flagOn ..) <|
    exists_named_cons h₂ (recovers_byte ..) <|
    exists_named_cons h₃ (recovers_optionalText ..) <|
    exists_named_cons h₄ (recovers_text ..) <|
    exists_named_cons h₅ (recovers_text ..) <|
    exists_named_cons h₆ (recovers_flagOff ..) exists_named_nil
  exact ⟨vs, hvs, rfl⟩

theorem PropertyDefinition.reads (p : PropertyDefinition)
    (hp : ∃ s, Modifier.ofText s = p.modifier) :
    Reads Schema.property propertyOf (Writes ·.clauses) p := by
  rintro _ ⟨es, rfl, hs⟩
  simp only [clauses, List.forall_mem_cons] at hs
  obtain ⟨name, type, value, optional, isStatic, read, write, declare, modifier, canClone,
    canExport, canUndo, track, trackState, trackDate, getterBody, setterBody⟩ := p
  obtain ⟨h₁, h₂, h₃, h₄, h₅, h₆, h₇, h₈, h₉, h₁₀, h₁₁, h₁₂, h₁₃, h₁₄, h₁₅, h₁₆, h₁₇, -⟩ := hs
  obtain ⟨vs, hvs, rfl, rfl, rfl, rfl, rfl, rfl, rfl, rfl, rfl, rfl, rfl, rfl, rfl, rfl, rfl, rfl,
      rfl, -⟩ :=
    exists_named_cons h₁ (recovers_text ..) <|
    exists_named_cons h₂ (recovers_text ..) <|
    exists_named_cons h₃ (recovers_optionalScalar ..) <|
    exists_named_cons h₄ (recovers_flagOff ..) <|
    exists_named_cons h₅ (recovers_flagOff ..) <|
    exists_named_cons h₆ (recovers_flagOn ..) <|
    exists_named_cons h₇ (recovers_flagOn ..) <|
    exists_named_cons h₈ (recovers_flagOn ..) <|
    exists_named_cons h₉ (recovers_modifier hp) <|
    exists_named_cons h₁₀ (recovers_flagOn ..) <|
    exists_named_cons h₁₁ (recovers_flagOn ..) <|
    exists_named_cons h₁₂ (recovers_flagOn ..) <|
    exists_named_cons h₁₃ (recovers_flagOff ..) <|
    exists_named_cons h₁₄ (recovers_flagOn ..) <|
    exists_named_cons h₁₅ (recovers_flagOn ..) <|
    exists_named_cons h₁₆ (recovers_optionalText ..) <|
    exists_named_cons h₁₇ (recovers_optionalText ..) exists_named_nil
  exact ⟨vs, hvs, rfl⟩

theorem MethodDefinition.reads (m : MethodDefinition)
    (hm : ∀ a ∈ m.modifiers, ∃ s, Modifier.ofText s = a) :
    Reads Schema.method methodOf (Writes ·.clauses) m := by
  rintro _ ⟨es, rfl, hs⟩
  simp only [clauses, List.forall_mem_cons] at hs
  simp only [modifiers, List.forall_mem_cons, List.forall_mem_map] at hm
  obtain ⟨name, type, args, body, isStatic, isAbstract, modifier⟩ := m
  obtain ⟨h₁, h₂, h₃, h₄, h₅, h₆, h₇, -⟩ := hs
  obtain ⟨vs, hvs, rfl, rfl, rfl, rfl, rfl, rfl, rfl, -⟩ :=
    exists_named_cons h₁ (recovers_text ..) <|
    exists_named_cons h₂ (recovers_text ..) <|
    exists_named_cons h₃ (recovers_list fun a ha => a.reads (hm.2 a ha)) <|
    exists_named_cons h₄ (recovers_text ..) <|
    exists_named_cons h₅ (recovers_flagOff ..) <|
    exists_named_cons h₆ (recovers_flagOff ..) <|
    exists_named_cons h₇ (recovers_modifier hm.1) exists_named_nil
  exact ⟨vs, hvs, rfl⟩

theorem DecoratorOptionDefinition.reads (o : DecoratorOptionDefinition) :
    Reads (.record "DecoratorOptionDef" decoratorOptionFields) decoratorOptionOf
      (Writes ·.clauses) o := by
  rintro _ ⟨es, rfl, hs⟩
  simp only [clauses, List.forall_mem_cons] at hs
  obtain ⟨name, value⟩ := o
  obtain ⟨h₁, h₂, -⟩ := hs
  obtain ⟨vs, hvs, rfl, rfl, -⟩ :=
    exists_named_cons h₁ (recovers_text ..) <|
    exists_named_cons h₂ (recovers_scalar ..) exists_named_nil
  exact ⟨vs, hvs, rfl⟩

theorem DecoratorDefinition.reads (c : DecoratorDefinition) :
    Reads (.record "DecoratorDef" decoratorFields) decoratorOf (Writes ·.clauses) c := by
  rintro _ ⟨es, rfl, hs⟩
  simp only [clauses, List.forall_mem_cons] at hs
  obtain ⟨type, options⟩ := c
  obtain ⟨h₁, h₂, -⟩ := hs
  obtain ⟨vs, hvs, rfl, rfl, -⟩ :=
    exists_named_cons h₁ (recovers_text ..) <|
    exists_named_cons h₂ (recovers_list fun o _ => o.reads) exists_named_nil
  exact ⟨vs, hvs, rfl⟩

theorem EnumDefinition.reads (e : EnumDefinition) :
    Reads (.record "EnumDef" enumFields) enumOf (Writes ·.clauses) e := by
  rintro _ ⟨es, rfl, hs⟩
  simp only [clauses, List.forall_mem_cons] at hs
  obtain ⟨name, names, values⟩ := e
  obtain ⟨h₁, h₂, h₃, -⟩ := hs
  obtain ⟨vs, hvs, rfl, rfl, rfl, -⟩ :=
    exists_named_cons h₁ (recovers_text ..) <|
    exists_named_cons h₂ (recovers_texts ..) <|
    exists_named_cons h₃ (recovers_scalars ..) exists_named_nil
  exact ⟨vs, hvs, rfl⟩

theorem ImportDefinition.reads (i : ImportDefinition) :
    Reads importing importOf (Writes ·.clauses) i := by
  rintro _ ⟨es, rfl, hs⟩
  simp only [clauses, List.forall_mem_cons] at hs
  obtain ⟨name, path⟩ := i
  obtain ⟨h₁, h₂, -⟩ := hs
  obtain ⟨vs, hvs, rfl, rfl, -⟩ :=
    exists_named_cons h₁ (recovers_text ..) <|
    exists_named_cons h₂ (recovers_text ..) exists_named_nil
  exact ⟨vs, hvs, rfl⟩

/-- What interfaces and classes share is read alike, whatever fields follow. -/
theorem OutlineDefinition.exists_named {o : OutlineDefinition}
    (ho : ∀ m ∈ o.modifiers, ∃ s, Modifier.ofText s = m) {es : List (String × Tree)}
    (hs : ∀ c ∈ o.clauses, c.HoldsIn es) {rest : Fields} {Q : rest.Values → Prop}
    (hrest : ∃ vs, rest.named es rest.unstated = some vs ∧ Q vs) :
    let fields : Fields := .cons "name" .text <| .cons "extends" (.optional .text) <|
      .cons "import" (.list importing) <| .cons "properties" (.list property) <|
      .cons "methods" (.list method) rest
    ∃ vs, fields.named es fields.unstated = some vs ∧ vs.1.getD "" = o.name ∧
      vs.2.1.join = o.parent ∧ itemsOf importOf vs.2.2.1 = o.imports ∧
      itemsOf propertyOf vs.2.2.2.1 = o.properties ∧ itemsOf methodOf vs.2.2.2.2.1 = o.methods ∧
      Q vs.2.2.2.2.2 := by
  simp only [clauses, List.forall_mem_cons] at hs
  obtain ⟨h₁, h₂, h₃, h₄, h₅, -⟩ := hs
  simp only [modifiers, List.forall_mem_append, List.forall_mem_map, List.forall_mem_flatMap] at ho
  obtain ⟨vs, hvs, hall⟩ :=
    exists_named_cons h₁ (recovers_text ..) <|
    exists_named_cons h₂ (recovers_optionalText ..) <|
    exists_named_cons h₃ (recovers_list fun i _ => i.reads) <|
    exists_named_cons h₄ (recovers_list fun p hp => p.reads (ho.1 p hp)) <|
    exists_named_cons h₅ (recovers_list fun m hm => m.reads (ho.2 m hm)) hrest
  exact ⟨vs, hvs, hall⟩

theorem InterfaceDefinition.reads (i : InterfaceDefinition)
    (hi : ∀ m ∈ i.modifiers, ∃ s, Modifier.ofText s = m) :
    Reads (.record "InterfaceDef" interfaceFields) interfaceOf
      (Writes ·.toOutlineDefinition.clauses) i := by
  rintro _ ⟨es, rfl, hs⟩
  obtain ⟨name, parent, imports, properties, methods⟩ := i
  obtain ⟨vs, hvs, rfl, rfl, rfl, rfl, rfl, -⟩ :=
    OutlineDefinition.exists_named hi hs exists_named_nil
  exact ⟨vs, hvs, rfl⟩

theorem ClassDefinition.reads (c : ClassDefinition)
    (hc : ∀ m ∈ c.modifiers, ∃ s, Modifier.ofText s = m) :
    Reads (.record "ClassDef" classFields) classOf (Writes ·.clauses) c := by
  rintro _ ⟨es, rfl, hs⟩
  rw [clauses, List.forall_mem_append] at hs
  obtain ⟨houtline, hs⟩ := hs
  simp only [List.forall_mem_cons] at hs
  simp only [modifiers, List.forall_mem_append, List.forall_mem_map] at hc
  obtain ⟨⟨ho, hargs⟩, hsuper⟩ := hc
  obtain ⟨⟨name, parent, imports, properties, methods⟩, args, superArgs, implements, isAbstract,
    isBaseClass, isBaseModel, canClone, canExport, canUndo, constructorCode, decorator⟩ := c
  obtain ⟨h₁, h₂, h₃, h₄, h₅, h₆, h₇, h₈, h₉, h₁₀, h₁₁, -⟩ := hs
  obtain ⟨vs, hvs, rfl, rfl, rfl, rfl, rfl, rfl, rfl, rfl, rfl, rfl, rfl, rfl, rfl, rfl, rfl, rfl,
      -⟩ :=
    OutlineDefinition.exists_named ho houtline <|
    exists_named_cons h₁ (recovers_list fun a ha => a.reads (hargs a ha)) <|
    exists_named_cons h₂ (recovers_list fun a ha => a.reads (hsuper a ha)) <|
    exists_named_cons h₃ (recovers_texts ..) <|
    exists_named_cons h₄ (recovers_flagOff ..) <|
    exists_named_cons h₅ (recovers_flagOff ..) <|
    exists_named_cons h₆ (recovers_flagOff ..) <|
    exists_named_cons h₇ (recovers_flagOff ..) <|
    exists_named_cons h₈ (recovers_flagOff ..) <|
    exists_named_cons h₉ (recovers_flagOff ..) <|
    exists_named_cons h₁₀ (recovers_optionalText ..) <|
    exists_named_cons h₁₁ (recovers_optional rfl fun d _ => d.reads) exists_named_nil
  exact ⟨vs, hvs, rfl⟩

/-! ## Reading a definition back -/

namespace Definition

/-- The access modifiers of all members and arguments. -/
def modifiers (d : Definition) : List Modifier :=
  d.interfaces.flatMap (·.modifiers) ++ d.classes.flatMap (·.modifiers)

theorem recovers_options (o : Options) :
    Recovers (.record "Options" optionsFields) (fun v => (v.map optionsOf).getD {})
      (Writes ·.clauses) o {} where
  absent := rfl
  present := o.reads

theorem reads (d : Definition) (hd : ∀ m ∈ d.modifiers, ∃ s, Modifier.ofText s = m) :
    Reads definition definitionOf (Writes ·.clauses) d := by
  rintro _ ⟨es, rfl, hs⟩
  simp only [clauses, List.forall_mem_cons] at hs
  simp only [modifiers, List.forall_mem_append, List.forall_mem_flatMap] at hd
  obtain ⟨options, enums, interfaces, classes⟩ := d
  obtain ⟨h₁, h₂, h₃, h₄, -⟩ := hs
  obtain ⟨vs, hvs, rfl, rfl, rfl, rfl, -⟩ :=
    exists_named_cons h₁ (recovers_options ..) <|
    exists_named_cons h₂ (recovers_list fun e _ => e.reads) <|
    exists_named_cons h₃ (recovers_list fun i hi => i.reads (hd.1 i hi)) <|
    exists_named_cons h₄ (recovers_list fun c hc => c.reads (hd.2 c hc)) exists_named_nil
  exact ⟨vs, hvs, rfl⟩

theorem distinct_property : property.Distinct := by
  simp [property, propertyFields, Kind.Distinct, Fields.Distinct, Fields.keys]

theorem distinct_method : method.Distinct := by
  simp [method, methodFields, Kind.Distinct, Fields.Distinct, Fields.keys, distinct_property]

theorem distinct_importing : importing.Distinct := by
  simp [importing, importFields, Kind.Distinct, Fields.Distinct, Fields.keys]

theorem distinct_interfaceFields : interfaceFields.Distinct := by
  simp [interfaceFields, Kind.Distinct, Fields.Distinct, Fields.keys, distinct_importing,
    distinct_property, distinct_method]

theorem distinct_classFields : classFields.Distinct := by
  simp [classFields, decoratorFields, decoratorOptionFields, Kind.Distinct, Fields.Distinct,
    Fields.keys, distinct_importing, distinct_property, distinct_method]

theorem distinct_definition : Schema.definition.Distinct := by
  simp [Schema.definition, definitionFields, optionsFields, enumFields, Kind.Distinct,
    Fields.Distinct, Fields.keys, distinct_interfaceFields, distinct_classFields]

theorem height_definition : Schema.definition.height ≤ Json.maxLevels := by decide

/-- A document in JSON that writes a definition is read as this definition. -/
theorem a_written_definition_is_read_back (d : Definition)
    (hmodifiers : ∀ m ∈ d.modifiers, ∃ s, Modifier.ofText s = m) {t : Tree} {document : String}
    (ht : Writes d.clauses t) (hdocument : Json.States t document) :
    parse .json document = .ok d := by
  obtain ⟨v, hv, hd⟩ := d.reads hmodifiers t ht
  have hread := Json.read_of_states distinct_definition height_definition hdocument
  rw [hv] at hread
  cases hresult : Json.read Schema.definition document with
  | error fault =>
    rw [hresult] at hread
    cases hread
  | ok w =>
    rw [hresult] at hread
    obtain rfl : w = v := Option.some.inj hread
    rw [parse, hresult, ← hd]
    rfl

/-- An interface with one property. -/
def row : Definition where
  interfaces :=
    [{ name := "Row", properties := [{ name := "id", modifier := .custom "readonly" }] }]

/-- What the interface is written as, its fields from the last to the first. -/
def rowTree : Tree :=
  .table [("interfaces", .list [.table [
    ("properties", .list [.table [("modifier", .text "readonly"), ("name", .text "id")]]),
    ("extends", .null), ("name", .text "Row")]])]

theorem writes_rowTree : Writes row.clauses rowTree := by
  refine ⟨_, rfl, ?_⟩
  simp [row, clauses, OutlineDefinition.clauses, PropertyDefinition.clauses, Clause.HoldsIn, of,
    List.lookup_cons, Writes, IsList, IsText, IsOptional, IsModifier, Modifier.text]

theorem states_rowTree :
    Json.States rowTree (" \x7b\"interfaces\":[\x7b\"properties\":[\x7b\"modifier\":\"readonly\","
      ++ "\"name\":\"\\u0069d\"\x7d],\"extends\":null,\"name\":\"Row\"\x7d]\x7d") := by
  have hplain (s : String) (h : s.toList.all Char.isAlphanum) :
      ∀ c ∈ s.toList, Json.grammar.spellsChar c [c] :=
    fun c hc => Json.spellsChar_alphanum (List.all_eq_true.mp h c hc)
  have hnames (key : String) (value : Tree) (text : List Char)
      (h : key.toList.all Char.isAlphanum) :
      Json.grammar.Names (.tight key value text) := Grammar.names_tight (hplain key h) value text
  have hid : Json.grammar.Spells (.text "id") ['"', '\\', 'u', '0', '0', '6', '9', 'd', '"'] :=
    .text (.intro [('i', ['\\', 'u', '0', '0', '6', '9']), ('d', ['d'])] (by
      simp only [List.forall_mem_cons]
      exact ⟨.escape (.unit rfl (by decide)), Json.spellsChar_alphanum (by decide), by simp⟩))
  have hreadonly : Json.grammar.Spells (.text "readonly") _ :=
    .text (Grammar.quotes_tight (hplain _ (by decide)))
  have hname : Json.grammar.Spells (.text "Row") _ :=
    .text (Grammar.quotes_tight (hplain _ (by decide)))
  have hproperty := Grammar.Spells.table (g := Json.grammar)
    [.tight "modifier" _ _, .tight "name" _ _] (by simp [Member.tight]) (by simp [hnames])
    (List.forall_mem_cons.mpr ⟨hreadonly, List.forall_mem_singleton.mpr hid⟩) (separated_tight ..)
  have hproperties := Grammar.Spells.list (g := Json.grammar) [(_, _)]
    (List.forall_mem_singleton.mpr hproperty) (separated_tight ..)
  have hinterface := Grammar.Spells.table (g := Json.grammar)
    [.tight "properties" _ _, .tight "extends" _ _, .tight "name" _ _]
    (by simp [Member.tight]) (by simp [hnames])
    (List.forall_mem_cons.mpr ⟨hproperties,
      List.forall_mem_cons.mpr ⟨.null rfl, List.forall_mem_singleton.mpr hname⟩⟩)
    (separated_tight ..)
  have hinterfaces := Grammar.Spells.list (g := Json.grammar) [(_, _)]
    (List.forall_mem_singleton.mpr hinterface) (separated_tight ..)
  have hroot := Grammar.Spells.table (g := Json.grammar) [.tight "interfaces" _ _]
    (by simp) (by simp [hnames]) (List.forall_mem_singleton.mpr hinterfaces) (separated_tight ..)
  refine (congrArg (Json.States rowTree) ?_).mp
    (.intro (by simp [Json.isSpace] : ∀ c ∈ [' '], Json.isSpace c) hroot (List.forall_mem_nil _))
  decide +kernel

theorem a_row_is_read_back :
    (∀ m ∈ row.modifiers, ∃ s, Modifier.ofText s = m) ∧
      parse .json (" \x7b\"interfaces\":[\x7b\"properties\":[\x7b\"modifier\":\"readonly\","
        ++ "\"name\":\"\\u0069d\"\x7d],\"extends\":null,\"name\":\"Row\"\x7d]\x7d") = .ok row := by
  have hmodifiers : ∀ m ∈ row.modifiers, ∃ s, Modifier.ofText s = m := by
    rw [show row.modifiers = [.custom "readonly"] from rfl, List.forall_mem_singleton]
    exact ⟨"readonly", by decide +kernel⟩
  exact ⟨hmodifiers, a_written_definition_is_read_back row hmodifiers writes_rowTree states_rowTree⟩

end Definition

end ModelScribe
