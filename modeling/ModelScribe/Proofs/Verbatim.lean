-- What is carried word for word. Bodies, code, values and imports pass through
-- members, blocks and lists that drop whatever is blank. A text that is not
-- blank keeps alive every part that it stands in, so it is never dropped with
-- one, and a layout writes each text as it is.
import ModelScribe.Proofs.Preamble
import ModelScribe.Proofs.Wording

namespace ModelScribe

open Text

/-! ## What is carried -/

/-- The default value of an argument that has a name. -/
def Property.argTexts (p : Property) : List String := if p.isNamed then p.value.toList else []

/-- The value of a field that is declared, and the bodies of the accessors that are asked for. -/
def Property.carried (p : Property) : List String :=
  if p.isNamed then
    (if p.declare then p.value.toList else [])
      ++ (if p.read then p.getterBody.toList else [])
      ++ (if p.write then p.setterBody.toList else [])
  else []

/-- The body and the default values of the arguments, unless the method is abstract. -/
def Method.carried (m : Method) : List String :=
  if m.isNamed && !m.isAbstract then m.body :: m.args.flatMap (·.argTexts) else []

def EnumMember.carried (m : EnumMember) : List String :=
  if isBlank m.name then [] else m.value.toList

def Enumeration.carried (e : Enumeration) : List String :=
  if isBlank e.name then [] else e.members.flatMap (·.carried)

def Decorator.carried (d : Decorator) : List String :=
  if isBlank d.type then [] else d.options.flatMap (·.wording)

/-- What a class with a name carries, apart from its imports. -/
def Class.carried (c : Class) : List String :=
  if isBlank c.name then []
  else c.decorator.toList.flatMap (·.carried) ++ c.properties.flatMap (·.carried)
    ++ c.args.flatMap (·.argTexts) ++ c.constructorCode.toList ++ c.methods.flatMap (·.carried)

/-- The texts of a program that come out word for word, as far as they are not blank. Imports
count for nameless declarations too. -/
def Program.carried (p : Program) : List String :=
  p.interfaces.flatMap (·.imports.flatMap (·.wording))
    ++ p.classes.flatMap (·.imports.flatMap (·.wording))
    ++ p.enums.flatMap (·.carried) ++ p.classes.flatMap (·.carried)

/-! ## Texts in documents -/

/-- A layout writes the texts of a document as they are. -/
theorem Layout.isInfix_chars {s : String} {d : Doc} (l : Layout) (h : Mark.text s ∈ d) :
    s.toList <:+: l.chars d := by
  obtain ⟨before, behind, rfl⟩ := List.append_of_mem h
  rw [chars_append, chars_cons]
  exact ⟨l.chars before, l.chars behind, by simp [mark]⟩

namespace Doc

theorem mem_intercalate_of_mem {x : Mark} {d : Doc} {ds : List Doc} (sep : Doc) (hd : d ∈ ds)
    (hx : x ∈ d) : x ∈ sep.intercalate ds := by
  induction ds with
  | nil => cases hd
  | cons e rest ih =>
    cases rest with
    | nil =>
      rw [List.mem_singleton.mp hd] at hx
      simpa using hx
    | cons f rest =>
      rw [List.intercalate_cons_cons, List.mem_append]
      rcases List.mem_cons.mp hd with rfl | hd
      · exact Or.inl (List.mem_append_left _ hx)
      · exact Or.inr (ih hd)

section Kept

variable {s : String} (hs : Text.isBlank s = false)

include hs

theorem isBlank_of_text_mem {d : Doc} (h : Mark.text s ∈ d) : d.isBlank = false :=
  List.all_eq_false.mpr ⟨_, h, by simp [Mark.isBlank, hs]⟩

/-- A part with a text that is not blank is kept. -/
theorem text_mem_filter {d : Doc} {ds : List Doc} (hd : d ∈ ds) (h : Mark.text s ∈ d) :
    d ∈ ds.filter (!isBlank ·) :=
  List.mem_filter.mpr ⟨hd, by simp [isBlank_of_text_mem hs h]⟩

theorem text_mem_join {d : Doc} {ds : List Doc} (hd : d ∈ ds) (h : Mark.text s ∈ d) :
    Mark.text s ∈ join ds :=
  mem_intercalate_of_mem _ (text_mem_filter hs hd h) h

theorem text_mem_commaList {d : Doc} {ds : List Doc} (hd : d ∈ ds) (h : Mark.text s ∈ d) :
    Mark.text s ∈ commaList ds :=
  mem_intercalate_of_mem _ (text_mem_filter hs hd h) h

end Kept

end Doc

/-! ## Texts in declarations -/

section Texts

variable {s : String} (hs : isBlank s = false)

include hs

theorem Text.nonBlank_of_mem {o : Option String} (h : s ∈ o.toList) : nonBlank o = some s :=
  nonBlank_eq_some.mpr ⟨Option.mem_toList.mp h, hs⟩

namespace Property

theorem text_mem_initializer {o : Option String} (h : s ∈ o.toList) :
    Mark.text s ∈ initializer (nonBlank o) := by
  rw [nonBlank_of_mem hs h]
  simp [initializer]

theorem text_mem_argDoc {p : Property} (h : s ∈ p.argTexts) : Mark.text s ∈ p.argDoc := by
  unfold argTexts at h
  unfold argDoc
  split at h
  case isTrue hnamed =>
    rw [if_pos hnamed]
    exact List.mem_append_right _ (text_mem_initializer hs h)
  case isFalse => cases h

theorem text_mem_args {args : List Property} (h : s ∈ args.flatMap (·.argTexts)) :
    Mark.text s ∈ Doc.commaList (args.map (·.argDoc)) := by
  obtain ⟨p, hp, hsp⟩ := List.mem_flatMap.mp h
  exact Doc.text_mem_commaList hs (List.mem_map_of_mem hp) (text_mem_argDoc hs hsp)

theorem text_mem_field {p : Property} (v : Conventions) (h : s ∈ p.value.toList) :
    Mark.text s ∈ (p.field v).doc p.isStatic := by
  have hvalue := text_mem_initializer hs h
  unfold field defaultValue
  cases p.isPlain <;> simp [PropertyMember.doc, hvalue]

theorem text_mem_getter {p : Property} (h : s ∈ p.getterBody.toList) :
    Mark.text s ∈ p.getter.doc p.isStatic := by
  simp [getter, PropertyMember.doc, nonBlank_of_mem hs h, AccessorStep.lineDoc, AccessorStep.doc]

theorem text_mem_setter {p : Property} (v : Conventions) (h : s ∈ p.setterBody.toList) :
    Mark.text s ∈ (p.setter v).doc p.isStatic := by
  simp [setter, setterSteps, PropertyMember.doc, nonBlank_of_mem hs h, AccessorStep.lineDoc,
    AccessorStep.doc]

/-- A body of its own is what makes a property work through accessors. -/
theorem usesAccessors_of_mem {p : Property}
    (h : s ∈ p.getterBody.toList ∨ s ∈ p.setterBody.toList) : p.usesAccessors = true := by
  unfold usesAccessors
  rcases h with h | h <;> simp [nonBlank_of_mem hs h]

theorem text_mem_classDoc {p : Property} (v : Conventions) (h : s ∈ p.carried) :
    Mark.text s ∈ p.classDoc v := by
  have hmember : ∃ m ∈ p.members v, Mark.text s ∈ m.doc p.isStatic := by
    unfold carried at h
    unfold members
    split at h
    case isTrue hnamed =>
      rw [if_pos hnamed]
      simp only [List.mem_append] at h ⊢
      rcases h with (h | h) | h
      · split at h
        case isTrue hdeclare => exact ⟨_, by simp [hdeclare], text_mem_field hs v h⟩
        case isFalse => cases h
      · split at h
        case isTrue hread =>
          exact ⟨_, by simp [usesAccessors_of_mem hs (.inl h), hread], text_mem_getter hs h⟩
        case isFalse => cases h
      · split at h
        case isTrue hwrite =>
          exact ⟨_, by simp [usesAccessors_of_mem hs (.inr h), hwrite], text_mem_setter hs v h⟩
        case isFalse => cases h
    case isFalse => cases h
  obtain ⟨m, hm, hsm⟩ := hmember
  exact Doc.text_mem_join hs (List.mem_map_of_mem hm) hsm

end Property

theorem Method.text_mem_classDoc {m : Method} (h : s ∈ m.carried) :
    Mark.text s ∈ m.classDoc := by
  unfold carried at h
  split at h
  case isTrue hkind =>
    obtain ⟨hnamed, habstract⟩ : m.isNamed = true ∧ m.isAbstract = false := by simpa using hkind
    simp only [classDoc, hnamed, habstract, if_true, Bool.false_eq_true, if_false]
    rcases List.mem_cons.mp h with rfl | h
    · exact Doc.text_mem_join hs (d := [.tab, .tab, .text m.body]) (by simp) (by simp)
    · have hargs := Property.text_mem_args hs h
      exact Doc.text_mem_join hs List.mem_cons_self (by simp [header, hargs])
  case isFalse => cases h

theorem EnumMember.text_mem_doc {m : EnumMember} (h : s ∈ m.carried) : Mark.text s ∈ m.doc := by
  unfold carried at h
  unfold doc
  split at h
  case isTrue => cases h
  case isFalse hname => simp [hname, nonBlank_of_mem hs h]

theorem Enumeration.text_mem_doc {e : Enumeration} (h : s ∈ e.carried) : Mark.text s ∈ e.doc := by
  unfold carried at h
  unfold doc
  split at h
  case isTrue => cases h
  case isFalse hname =>
    obtain ⟨m, hm, hsm⟩ := List.mem_flatMap.mp h
    have hmember := EnumMember.text_mem_doc hs hsm
    have hkept := Doc.text_mem_filter hs (List.mem_map_of_mem hm) hmember
    rw [if_neg hname]
    refine Doc.text_mem_join hs (d := e.membersDoc) (by simp) ?_
    exact Doc.mem_intercalate_of_mem _ (List.mem_map_of_mem hkept) (List.mem_cons_of_mem _ hmember)

theorem Decorator.text_mem_doc {d : Decorator} (h : s ∈ d.carried) : Mark.text s ∈ d.doc := by
  unfold carried at h
  unfold doc
  split at h
  case isTrue => cases h
  case isFalse htype =>
    obtain ⟨o, ho, hso⟩ := List.mem_flatMap.mp h
    have hentry : Mark.text s ∈ o.doc := by
      rcases List.mem_pair.mp hso with rfl | rfl <;> simp [DecoratorOption.doc]
    rw [if_neg htype]
    refine Doc.text_mem_join hs (d := d.optionsDoc) (by simp) ?_
    exact Doc.mem_intercalate_of_mem _ (List.mem_map_of_mem ho) hentry

namespace Class

variable {c : Class} (v : Conventions)

theorem text_mem_propertiesDoc {p : Property} (hp : p ∈ c.properties) (h : s ∈ p.carried) :
    Mark.text s ∈ c.propertiesDoc v p.isStatic := by
  have hmem : p ∈ c.properties.filter (·.isStatic == p.isStatic) :=
    List.mem_filter.mpr ⟨hp, by simp⟩
  exact Doc.text_mem_join hs (List.mem_map_of_mem hmem) (Property.text_mem_classDoc hs v h)

theorem text_mem_methodsDoc {m : Method} (hm : m ∈ c.methods) (h : s ∈ m.carried) :
    Mark.text s ∈ c.methodsDoc m.isStatic := by
  have hmem : m ∈ c.methods.filter (·.isStatic == m.isStatic) :=
    List.mem_filter.mpr ⟨hm, by simp⟩
  exact Doc.text_mem_join hs (List.mem_map_of_mem hmem) (Method.text_mem_classDoc hs h)

/-- What the arguments or the code of a constructor say is reason enough to have one. -/
theorem text_mem_constructorDoc
    (h : s ∈ c.args.flatMap (·.argTexts) ∨ s ∈ c.constructorCode.toList) :
    Mark.text s ∈ c.constructorDoc v := by
  rcases h with h | h
  · have hargs : Mark.text s ∈ c.argsDoc := Property.text_mem_args hs h
    have hconstructor : c.hasConstructor = true := by
      simp [hasConstructor, List.ne_nil_of_mem hargs]
    simp [constructorDoc, hconstructor, hargs]
  · have hcode := nonBlank_of_mem hs h
    have hconstructor : c.hasConstructor = true := by simp [hasConstructor, hcode]
    have hstep : ConstructorStep.custom s ∈ c.constructorSteps v := by
      simp [constructorSteps, hcode]
    have hline : Mark.text s ∈ (c.constructorSteps v).flatMap ConstructorStep.lineDoc :=
      List.mem_flatMap.mpr ⟨_, hstep, by simp [ConstructorStep.lineDoc, ConstructorStep.doc]⟩
    simp [constructorDoc, hconstructor, hline]

/-- Each text that a class carries stands in one of its parts. -/
theorem text_mem_doc (h : s ∈ c.carried) : Mark.text s ∈ c.doc v := by
  unfold carried at h
  unfold doc
  split at h
  case isTrue => cases h
  case isFalse hname =>
    rw [if_neg hname]
    have hpart : ∃ d ∈ c.parts v, Mark.text s ∈ d := by
      simp only [List.mem_append] at h
      rcases h with (((h | h) | h) | h) | h
      · obtain ⟨d, hd, hsd⟩ := List.mem_flatMap.mp h
        refine ⟨d.doc, ?_, d.text_mem_doc hs hsd⟩
        simp [parts, Option.mem_toList.mp hd]
      · obtain ⟨p, hp, hsp⟩ := List.mem_flatMap.mp h
        refine ⟨_, ?_, text_mem_propertiesDoc hs v hp hsp⟩
        cases p.isStatic <;> simp [parts]
      · exact ⟨_, by simp [parts], text_mem_constructorDoc hs v (.inl h)⟩
      · exact ⟨_, by simp [parts], text_mem_constructorDoc hs v (.inr h)⟩
      · obtain ⟨m, hm, hsm⟩ := List.mem_flatMap.mp h
        refine ⟨_, ?_, text_mem_methodsDoc hs hm hsm⟩
        cases m.isStatic <;> simp [parts]
    obtain ⟨d, hd, hsd⟩ := hpart
    exact Doc.text_mem_join hs hd hsd

end Class

/-- The symbol and the module of each import stand in one statement. -/
theorem ImportGroups.text_mem_doc {imports : List Import}
    (h : s ∈ imports.flatMap (·.wording)) :
    Mark.text s ∈ ImportGroups.doc (.ofImports imports) := by
  obtain ⟨i, hi, hsi⟩ := List.mem_flatMap.mp h
  have hgroup : (i.path, symbolsFrom imports i.path) ∈ grouping imports :=
    List.mem_map_of_mem (mem_paths.mpr ⟨i, hi, rfl⟩)
  have hname : i.name ∈ symbolsFrom imports i.path :=
    List.mem_map_of_mem (List.mem_filter.mpr ⟨hi, by simp⟩)
  rw [ofImports_eq]
  refine Doc.text_mem_join hs (List.mem_map_of_mem hgroup) ?_
  rcases List.mem_pair.mp hsi with rfl | rfl
  · have hlist : Mark.text i.name ∈ [Mark.text ",", Mark.space].intercalate
        ((symbolsFrom imports i.path).map fun s => [Mark.text s]) :=
      Doc.mem_intercalate_of_mem _ (List.mem_map_of_mem hname) (by simp)
    simp [statement, hlist]
  · simp [statement]

/-! ## The whole text -/

namespace Program

omit hs in
theorem carried_of_mem_written {p : Program} {c : Class} (hc : c ∈ p.classes)
    (h : s ∈ c.carried) : ∃ w ∈ p.written, s ∈ w.carried := by
  obtain ⟨i, hi, rfl⟩ := List.mem_iff_getElem.mp hc
  exact ⟨_, List.mem_mapIdx.mpr ⟨i, hi, rfl⟩, h⟩

theorem text_mem_doc {p : Program} (h : s ∈ p.carried) : Mark.text s ∈ p.doc := by
  simp only [carried, List.mem_append] at h
  have hpart : Mark.text s ∈ ImportGroups.doc p.assembly.imports
      ∨ Mark.text s ∈ Doc.join p.assembly.blocks := by
    rw [assembly_eq]
    rcases h with (h | h) | h
    · left
      apply ImportGroups.text_mem_doc hs
      simpa only [List.flatMap_append, List.mem_append, List.flatMap_assoc] using h
    · right
      obtain ⟨e, he, hse⟩ := List.mem_flatMap.mp h
      exact Doc.text_mem_join hs (by simp [List.mem_map_of_mem he]) (e.text_mem_doc hs hse)
    · right
      obtain ⟨c, hc, hsc⟩ := List.mem_flatMap.mp h
      obtain ⟨w, hw, hsw⟩ := carried_of_mem_written hc hsc
      refine Doc.text_mem_join hs ?_ (w.text_mem_doc hs p.options.conventions hsw)
      simp [List.mem_map_of_mem hw]
  rcases hpart with h | h
  · exact Doc.text_mem_join hs (by simp) h
  · exact Doc.text_mem_join hs (by simp) h

end Program

end Texts

namespace Program

/-- What a program says is carried word for word. In every layout, the text of each import, the
body of each method that is not abstract, the code of each constructor, the bodies of accessors,
the values of fields, arguments and enumeration members and the options of decorators stand in the
output as they are, unless they are blank or belong to a part without a name. -/
theorem texts_are_carried_verbatim (p : Program) :
    ∀ s ∈ p.carried, isBlank s = false → s.toList <:+: p.generate.output.toList := by
  intro s hcarried hs
  unfold generate
  rw [Layout.toList_write]
  exact p.options.layout.isInfix_chars (text_mem_doc hs hcarried)

/-- A body of two lines behind a getter of an undeclared static property, in a class with a blank
import. -/
theorem a_getter_of_two_lines_is_carried :
    let body := "const n = 1;\n  return n;"
    let p : Program := {
      options := .compact
      classes := [{
        name := "Node", imports := [{ name := " ", path := "" }]
        properties := [{
          name := "size", isStatic := true, declare := false, write := false
          getterBody := some body }] }] }
    body ∈ p.carried ∧ isBlank body = false ∧ body.toList <:+: p.generate.output.toList := by
  intro body p
  have hcarried : body ∈ p.carried := by decide
  have hs : isBlank body = false := by decide
  exact ⟨hcarried, hs, texts_are_carried_verbatim p body hcarried hs⟩

end Program

end ModelScribe
