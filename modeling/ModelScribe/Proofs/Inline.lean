-- What stands within a line. Names, types, values, arguments and statements
-- are written with texts and spaces alone: they neither break a line nor
-- indent one, in any layout. The line structure of a declaration is therefore
-- settled by its members, whatever their texts are.
import ModelScribe.Model.Class
import ModelScribe.Model.Enumeration
import ModelScribe.Proofs.Joining

namespace ModelScribe

open Text

/-! ## Inline documents -/

/-- A text or a space. -/
def Mark.isInline : Mark → Bool
  | .text _ => true
  | .space => true
  | _ => false

@[simp] theorem Mark.isInline_text (s : String) : (Mark.text s).isInline = true := rfl

@[simp] theorem Mark.isInline_space : Mark.space.isInline = true := rfl

namespace Doc

/-- A document of texts and spaces. -/
def Inline (d : Doc) : Prop := ∀ m ∈ d, m.isInline = true

@[simp] theorem inline_nil : Inline [] := by
  intro m hm
  cases hm

@[simp] theorem inline_cons (m : Mark) (d : Doc) :
    Inline (m :: d) ↔ m.isInline = true ∧ Inline d := List.forall_mem_cons

@[simp] theorem inline_append (d e : Doc) : Inline (d ++ e) ↔ Inline d ∧ Inline e :=
  List.forall_mem_append

theorem Inline.not_mem {d : Doc} (h : Inline d) {x : Mark} (hx : x.isInline = false) : x ∉ d := by
  intro hmem
  rw [h x hmem] at hx
  cases hx

theorem Inline.line_not_mem {d : Doc} (h : Inline d) : Mark.line ∉ d := h.not_mem rfl

theorem Inline.gap_not_mem {d : Doc} (h : Inline d) : Mark.gap ∉ d := h.not_mem rfl

theorem inline_intercalate {sep : Doc} {ds : List Doc} (hsep : Inline sep)
    (h : ∀ d ∈ ds, Inline d) : Inline (sep.intercalate ds) := by
  intro m hm
  rcases mem_intercalate hm with hs | ⟨d, hd, hmd⟩
  · exact hsep m hs
  · exact h d hd m hmd

theorem inline_commaList {ds : List Doc} (h : ∀ d ∈ ds, Inline d) : Inline (commaList ds) := by
  apply inline_intercalate
  · simp
  · intro d hd
    exact h d (List.mem_filter.mp hd).1

end Doc

/-! ## Parts of declarations -/

namespace Property

@[simp] theorem inline_signature (p : Property) : p.signature.Inline := by
  cases h : p.optional <;> simp [signature, h]

@[simp] theorem inline_initializer (value : Option String) : (initializer value).Inline := by
  cases value <;> simp [initializer]

@[simp] theorem inline_argDoc (p : Property) : p.argDoc.Inline := by
  unfold argDoc
  split <;> simp

@[simp] theorem inline_paramDoc (p : Property) : p.paramDoc.Inline := by
  unfold paramDoc
  split <;> simp

end Property

@[simp] theorem PropertyMember.inline_typeDoc (type : Option String) :
    (typeDoc type).Inline := by
  cases type <;> simp [typeDoc]

@[simp] theorem AccessorStep.inline_doc (s : AccessorStep) : s.doc.Inline := by
  cases s <;> simp [doc]

@[simp] theorem Outline.inline_extendsDoc (o : Outline) : o.extendsDoc.Inline := by
  unfold extendsDoc
  split <;> simp

@[simp] theorem inline_quotedList (names : List String) : (quotedList names).Inline := by
  apply Doc.inline_intercalate
  · simp
  · exact List.forall_mem_map.mpr fun n _ => by simp

@[simp] theorem ConstructorStep.inline_doc (s : ConstructorStep) : s.doc.Inline := by
  cases s with
  | callSuper args =>
    have hargs : (Doc.commaList (args.map fun a => [Mark.text a])).Inline :=
      Doc.inline_commaList (List.forall_mem_map.mpr fun a _ => by simp)
    simp [doc, hargs]
  | _ => simp [doc]

theorem Property.inline_args (args : List Property) :
    (Doc.commaList (args.map (·.argDoc))).Inline :=
  Doc.inline_commaList (List.forall_mem_map.mpr fun p _ => p.inline_argDoc)

theorem Property.inline_params (args : List Property) :
    (Doc.commaList (args.map (·.paramDoc))).Inline :=
  Doc.inline_commaList (List.forall_mem_map.mpr fun p _ => p.inline_paramDoc)

@[simp] theorem EnumMember.inline_doc (m : EnumMember) : m.doc.Inline := by
  unfold doc
  split
  · simp
  · split <;> simp

theorem ImportGroups.inline_statement (group : String × List String) :
    (statement group).Inline := by
  have hsymbols : Doc.Inline ([Mark.text ",", Mark.space].intercalate
      (group.2.map fun s => [Mark.text s])) := by
    apply Doc.inline_intercalate
    · simp
    · exact List.forall_mem_map.mpr fun s _ => by simp
  simp [statement, hsymbols]

@[simp] theorem Class.inline_argsDoc (c : Class) : c.argsDoc.Inline := Property.inline_args c.args

@[simp] theorem Class.inline_implementsDoc (c : Class) : c.implementsDoc.Inline := by
  unfold implementsDoc
  split
  · simp
  · rw [Doc.cat, List.flatten_cons, List.flatten_cons, List.flatten_nil, List.append_nil,
      Doc.inline_append]
    refine ⟨by simp, ?_⟩
    exact Doc.inline_commaList (List.forall_mem_map.mpr fun n _ => by simp)

/-- The line that opens a class. -/
@[simp] theorem Class.inline_header (c : Class) : c.header.Inline := by
  cases h : c.isAbstract <;> simp [header, h]

/-! ## The parts of a class -/

theorem Class.forall_mem_parts {P : Doc → Prop} (v : Conventions) (c : Class) :
    (∀ d ∈ c.parts v, P d)
      ↔ P ((c.decorator.map (·.doc)).getD []) ∧ P c.header
        ∧ P (c.propertiesDoc v true) ∧ P (c.methodsDoc true) ∧ P (c.propertiesDoc v false)
        ∧ (∀ d ∈ c.rosterDocs, P d)
        ∧ P (c.constructorDoc v) ∧ P c.modelDoc ∧ P (c.methodsDoc false) ∧ P ["\x7d"] := by
  simp [parts, or_imp, forall_and]

end ModelScribe
