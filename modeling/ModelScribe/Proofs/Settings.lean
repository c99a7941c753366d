-- The law of the options. Every node is written under the same conventions, but
-- few nodes look at them: the setter that tracking asks for, a field with a
-- value, the constructor of a class with a supertype. So an option that no
-- node looks at may as well have another value.
import ModelScribe.Proofs.Generation

namespace ModelScribe

open Text

/-- One of the options. -/
inductive Setting where
  | prettify
  | tabSize
  | classField
  | dirtyField
  | updatedField
  | inferType
  deriving DecidableEq, Repr

/-! ## Who looks at a setting -/

/-- The property looks at the two fields of tracking in a setter that is not its own, and at the
rule for types where its field has a value. -/
def Property.Consults (p : Property) : Setting → Prop
  | .dirtyField =>
    p.isNamed ∧ p.track ∧ p.trackState ∧ p.write ∧ nonBlank p.setterBody = none
  | .updatedField =>
    p.isNamed ∧ p.track ∧ p.trackDate ∧ p.write ∧ nonBlank p.setterBody = none
  | .inferType => p.isNamed ∧ p.declare ∧ p.defaultValue.isSome
  | _ => False

/-- A class with a supertype looks at the field that its name is noted in; the rest is up to its
properties. -/
def Class.Consults (c : Class) : Setting → Prop
  | .classField => c.supertype.isSome
  | s => ∃ p ∈ c.properties, p.Consults s

/-- The layout looks at the width of an indent unit where there are lines to indent. A class
without a name is not written, so it looks at nothing. -/
def Program.Consults (p : Program) : Setting → Prop
  | .prettify => True
  | .tabSize => p.options.prettify
  | s => ∃ c ∈ p.classes, isBlank c.name = false ∧ c.Consults s

/-- The options give the setting the same value. -/
def Options.SameAt (o o' : Options) : Setting → Prop
  | .prettify => o.prettify = o'.prettify
  | .tabSize => o.tabSize = o'.tabSize
  | .classField => o.classField = o'.classField
  | .dirtyField => o.dirtyField = o'.dirtyField
  | .updatedField => o.updatedField = o'.updatedField
  | .inferType => o.inferType = o'.inferType

/-- The conventions give the setting the same value. Those of the layout are none of theirs. -/
def Conventions.SameAt (v w : Conventions) : Setting → Prop
  | .classField => v.discriminator = w.discriminator
  | .dirtyField => v.dirtyField = w.dirtyField
  | .updatedField => v.updatedField = w.updatedField
  | .inferType => v.inferType = w.inferType
  | _ => True

theorem Options.SameAt.conventions {o o' : Options} {s : Setting} (h : o.SameAt o' s) :
    o.conventions.SameAt o'.conventions s := by
  cases s with
  | prettify => trivial
  | tabSize => trivial
  | classField => exact congrArg nonBlank h
  | dirtyField => exact h
  | updatedField => exact h
  | inferType => exact h

/-! ## Members -/

variable {v w : Conventions}

namespace Property

variable {p : Property}

theorem field_congr (h : p.defaultValue.isSome → v.inferType = w.inferType) :
    p.field v = p.field w := by
  unfold field
  cases hvalue : p.defaultValue.isSome with
  | false => simp
  | true => rw [h hvalue]

theorem setterSteps_congr
    (hdirty : p.track → p.trackState → nonBlank p.setterBody = none → v.dirtyField = w.dirtyField)
    (hupdated : p.track → p.trackDate → nonBlank p.setterBody = none →
      v.updatedField = w.updatedField) :
    p.setterSteps v = p.setterSteps w := by
  unfold setterSteps
  cases hbody : nonBlank p.setterBody with
  | some code => rfl
  | none =>
    have hmark : (if p.track && p.trackState then [AccessorStep.markDirty v.dirtyField] else [])
        = if p.track && p.trackState then [AccessorStep.markDirty w.dirtyField] else [] :=
      ite_congr rfl (fun hboth => by
        obtain ⟨htrack, hstate⟩ := Bool.and_eq_true_iff.mp hboth
        rw [hdirty htrack hstate hbody]) fun _ => rfl
    have hstamp : (if p.track && p.trackDate then [AccessorStep.stamp v.updatedField] else [])
        = if p.track && p.trackDate then [AccessorStep.stamp w.updatedField] else [] :=
      ite_congr rfl (fun hboth => by
        obtain ⟨htrack, hdate⟩ := Bool.and_eq_true_iff.mp hboth
        rw [hupdated htrack hdate hbody]) fun _ => rfl
    dsimp only
    rw [hmark, hstamp]

/-- A property is written alike under conventions that agree on what it looks at. -/
theorem classDoc_congr (h : ∀ s, p.Consults s → v.SameAt w s) : p.classDoc v = p.classDoc w := by
  have hmembers : p.members v = p.members w := by
    unfold members
    refine ite_congr rfl (fun hnamed => ?_) fun _ => rfl
    have hfield : (if p.declare then [p.field v] else []) = if p.declare then [p.field w] else [] :=
      ite_congr rfl (fun hdeclare => by
        rw [field_congr fun hvalue => h .inferType ⟨hnamed, hdeclare, hvalue⟩]) fun _ => rfl
    have hsetter : (if p.usesAccessors && p.write then [p.setter v] else [])
        = if p.usesAccessors && p.write then [p.setter w] else [] :=
      ite_congr rfl (fun hboth => by
        have hwrite : p.write = true := (Bool.and_eq_true_iff.mp hboth).2
        unfold setter
        rw [setterSteps_congr
          (fun htrack hstate hbody => h .dirtyField ⟨hnamed, htrack, hstate, hwrite, hbody⟩)
          (fun htrack hdate hbody => h .updatedField ⟨hnamed, htrack, hdate, hwrite, hbody⟩)])
        fun _ => rfl
    rw [hfield, hsetter]
  unfold classDoc
  rw [hmembers]

end Property

/-! ## Classes -/

namespace Class

variable {c : Class}

theorem propertiesDoc_congr (h : ∀ p ∈ c.properties, ∀ s, p.Consults s → v.SameAt w s)
    (isStatic : Bool) : c.propertiesDoc v isStatic = c.propertiesDoc w isStatic := by
  have hdocs : (c.properties.filter (·.isStatic == isStatic)).map (·.classDoc v)
      = (c.properties.filter (·.isStatic == isStatic)).map (·.classDoc w) :=
    List.map_congr_left fun p hp => Property.classDoc_congr (h p (List.mem_filter.mp hp).1)
  unfold propertiesDoc
  rw [hdocs]

theorem constructorDoc_congr (h : c.supertype.isSome → v.discriminator = w.discriminator) :
    c.constructorDoc v = c.constructorDoc w := by
  have hsteps : c.constructorSteps v = c.constructorSteps w := by
    unfold constructorSteps
    cases hsupertype : c.supertype.isSome with
    | false => rfl
    | true => rw [h hsupertype]
  unfold constructorDoc
  rw [hsteps]

/-- A class is written alike under conventions that agree on what it looks at, and one without a
name under all conventions. -/
theorem doc_congr (h : isBlank c.name = false → ∀ s, c.Consults s → v.SameAt w s) :
    c.doc v = c.doc w := by
  unfold doc
  cases hname : isBlank c.name with
  | true => rfl
  | false =>
    -- the class field is the one setting that no property looks at
    have hproperties : ∀ p ∈ c.properties, ∀ s, p.Consults s → v.SameAt w s := by
      intro p hp s hs
      cases s with
      | classField => exact hs.elim
      | prettify => trivial
      | tabSize => trivial
      | dirtyField => exact h hname .dirtyField ⟨p, hp, hs⟩
      | updatedField => exact h hname .updatedField ⟨p, hp, hs⟩
      | inferType => exact h hname .inferType ⟨p, hp, hs⟩
    have hparts : c.parts v = c.parts w := by
      unfold parts
      rw [propertiesDoc_congr hproperties, propertiesDoc_congr hproperties,
        constructorDoc_congr fun hsupertype => h hname .classField hsupertype]
    rw [hparts]

end Class

/-! ## Programs -/

namespace Program

theorem assembly_congr {p : Program} {o : Options}
    (h : ∀ s, p.Consults s → p.options.SameAt o s) :
    ({ p with options := o } : Program).assembly = p.assembly := by
  have hclasses : ∀ c ∈ p.written, c.doc o.conventions = c.doc p.options.conventions := by
    intro c hc
    obtain ⟨i, hi, rfl⟩ := List.mem_mapIdx.mp hc
    -- the flags that are forced on are nothing that a setting depends on
    refine (Class.doc_congr fun hname s hs => (h s ?_).conventions).symm
    cases s with
    | prettify => trivial
    | tabSize => exact hs.elim fun q hq => hq.2.elim
    | classField => exact ⟨_, List.getElem_mem hi, hname, hs⟩
    | dirtyField => exact ⟨_, List.getElem_mem hi, hname, hs⟩
    | updatedField => exact ⟨_, List.getElem_mem hi, hname, hs⟩
    | inferType => exact ⟨_, List.getElem_mem hi, hname, hs⟩
  have hdocs : p.written.map (·.doc o.conventions) = p.written.map (·.doc p.options.conventions) :=
    List.map_congr_left hclasses
  rw [assembly_eq, assembly_eq, ← hdocs]
  rfl

/-- Options matter only where they can. Two runs of one program whose options agree on every
setting that the program looks at export the same names and write the same text; so an option that
differs alone, and that nothing looks at, changes nothing. -/
theorem unread_options_change_nothing (p : Program) (o : Options)
    (h : ∀ s, p.Consults s → p.options.SameAt o s) :
    ({ p with options := o } : Program).generate = p.generate := by
  have hlayout : o.layout = p.options.layout := by
    have hprettify : p.options.prettify = o.prettify := h .prettify trivial
    unfold Options.layout Layout.ofSettings
    rw [← hprettify]
    cases hpretty : p.options.prettify with
    | false => rfl
    | true =>
      have htabSize : p.options.tabSize = o.tabSize := h .tabSize hpretty
      rw [htabSize]
  unfold generate manifest doc
  rw [assembly_congr h, hlayout]

/-- Five options at once that a compact program does not look at: its one supertype belongs to a
class without a name, its tracked property has a setter of its own, and no field has a value. -/
theorem five_options_change_nothing :
    let p : Program := {
      options := .compact
      classes := [
        { parent := some "Root", properties := [{ name := "a", value := some "1" }] },
        { name := "Leaf"
          properties := [
            { name := "b", track := true, setterBody := some "this._b = value;" },
            { name := "c", value := some " ", track := true, write := false }] }] }
    let o : Options := {
      prettify := false, tabSize := 2, classField := some "_type", dirtyField := "d"
      updatedField := "u", inferType := true }
    (∀ s, p.Consults s → p.options.SameAt o s) ∧
    ({ p with options := o } : Program).generate = p.generate := by
  intro p o
  have hblank : isBlank "" = true := by decide
  have hcode : (nonBlank (some "this._b = value;")).isSome = true := by decide
  have hvalue : nonBlank (some " ") = none := by decide
  have hnone : nonBlank none = none := rfl
  have hunread : ∀ s, p.Consults s → p.options.SameAt o s := by
    intro s hs
    cases s with
    | prettify => rfl
    | tabSize => cases hs
    | _ =>
      exfalso
      revert hs
      simp [Consults, Class.Consults, Property.Consults, Outline.supertype, Property.defaultValue,
        Option.ne_none_iff_isSome, p, hblank, hcode, hvalue, hnone]
  exact ⟨hunread, unread_options_change_nothing p o hunread⟩

end Program

end ModelScribe
