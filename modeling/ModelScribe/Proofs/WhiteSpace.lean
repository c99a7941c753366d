-- The law of layouts: a layout adds white space and nothing else. Without
-- their white space the pretty and the compact text of a program are the
-- same. The compact text even stands in the pretty one as it is, character
-- by character, unless a decorator needs the one space that only a compact
-- text has.
import ModelScribe.Proofs.Generation
import ModelScribe.Proofs.Inline

namespace ModelScribe

open Text

/-! ## Texts without white space -/

/-- The text without its white space. -/
def Text.dense (s : String) : String := String.ofList (s.toList.filter (!isSpace ·))

namespace Layout

/-- Layouts differ only in the white space of a mark. -/
theorem filter_mark (l₁ l₂ : Layout) (m : Mark) :
    (l₁.mark m).toList.filter (!isSpace ·) = (l₂.mark m).toList.filter (!isSpace ·) := by
  by_cases hm : m.isBlank = true
  · have hnone : ∀ l : Layout, (l.mark m).toList.filter (!isSpace ·) = [] := by
      intro l
      rw [List.filter_eq_nil_iff]
      intro c hc
      have hblank : Text.isBlank (l.mark m) = true := by rw [isBlank_mark, hm]
      simpa using List.all_eq_true.mp hblank c hc
    rw [hnone l₁, hnone l₂]
  · cases m with
    | text s => rfl
    | _ => exact absurd rfl hm

theorem filter_chars (l₁ l₂ : Layout) (d : Doc) :
    (l₁.chars d).filter (!isSpace ·) = (l₂.chars d).filter (!isSpace ·) := by
  induction d with
  | nil => rfl
  | cons m d ih =>
    rw [chars_cons, chars_cons, List.filter_append, List.filter_append, ih, filter_mark l₁ l₂]

theorem dense_write (l₁ l₂ : Layout) (d : Doc) : dense (l₁.write d) = dense (l₂.write d) := by
  unfold dense
  rw [toList_write, toList_write, filter_chars l₁ l₂]

/-! ## Compact texts inside pretty ones -/

theorem mark_sublist (l : Layout) {m : Mark} (hm : m ≠ .gap) :
    (Layout.compact.mark m).toList.Sublist (l.mark m).toList := by
  cases m with
  | text s => exact .refl _
  | gap => exact absurd rfl hm
  | _ => exact List.nil_sublist _

/-- Where no mark belongs to the compact layout alone, its characters stand in every other
layout, in order. -/
theorem chars_sublist (l : Layout) {d : Doc} (hd : Mark.gap ∉ d) :
    (Layout.compact.chars d).Sublist (l.chars d) := by
  induction d with
  | nil => exact .refl _
  | cons m d ih =>
    rw [List.mem_cons, not_or] at hd
    rw [chars_cons, chars_cons]
    exact (l.mark_sublist (Ne.symm hd.1)).append (ih hd.2)

end Layout

/-! ## Declarations without a compact separator

Only a decorator ends in a separator that a pretty layout leaves out. So a declaration has
such a mark nowhere unless it is a class with a decorator. -/

theorem Property.gap_not_mem_interfaceDoc (p : Property) : Mark.gap ∉ p.interfaceDoc := by
  unfold interfaceDoc
  split
  · simp [p.inline_signature.gap_not_mem]
  · exact List.not_mem_nil

theorem AccessorStep.gap_not_mem_lineDoc (s : AccessorStep) : Mark.gap ∉ s.lineDoc := by
  simp [lineDoc, s.inline_doc.gap_not_mem]

theorem PropertyMember.gap_not_mem_doc (isStatic : Bool) (m : PropertyMember) :
    Mark.gap ∉ m.doc isStatic := by
  cases m with
  | field name access type value =>
    simp [doc, (inline_typeDoc type).gap_not_mem, (Property.inline_initializer value).gap_not_mem]
  | getter name access type body => simp [doc, body.gap_not_mem_lineDoc]
  | setter name access type body => simp [doc, AccessorStep.gap_not_mem_lineDoc]

theorem Property.gap_not_mem_classDoc (v : Conventions) (p : Property) :
    Mark.gap ∉ p.classDoc v := by
  apply Doc.not_mem_join (by decide)
  exact List.forall_mem_map.mpr fun m _ => m.gap_not_mem_doc p.isStatic

theorem Method.gap_not_mem_header (m : Method) : Mark.gap ∉ m.header := by
  have hargs := (Property.inline_args m.args).gap_not_mem
  cases ha : m.isAbstract <;> cases hs : m.isStatic <;> simp [header, hargs, ha, hs]

theorem Method.gap_not_mem_classDoc (m : Method) : Mark.gap ∉ m.classDoc := by
  unfold classDoc
  split
  · split
    · simp [m.gap_not_mem_header]
    · apply Doc.not_mem_join (by decide)
      simp [m.gap_not_mem_header]
  · exact List.not_mem_nil

theorem Method.gap_not_mem_interfaceDoc (m : Method) : Mark.gap ∉ m.interfaceDoc := by
  have hparams := (Property.inline_params m.args).gap_not_mem
  unfold interfaceDoc
  split
  · simp [hparams]
  · exact List.not_mem_nil

theorem Enumeration.gap_not_mem_doc (e : Enumeration) : Mark.gap ∉ e.doc := by
  have hmembers : Mark.gap ∉ e.membersDoc := by
    intro h
    rcases Doc.mem_intercalate h with hsep | ⟨d, hd, hgap⟩
    · simp at hsep
    · obtain ⟨item, hitem, rfl⟩ := List.mem_map.mp hd
      obtain ⟨m, _, rfl⟩ := List.mem_map.mp (List.mem_filter.mp hitem).1
      simp [m.inline_doc.gap_not_mem] at hgap
  unfold doc
  split
  · exact List.not_mem_nil
  · apply Doc.not_mem_join (by decide)
    simp [hmembers]

theorem ImportGroups.gap_not_mem_doc (groups : ImportGroups) :
    Mark.gap ∉ ImportGroups.doc groups := by
  apply Doc.not_mem_join (by decide)
  exact List.forall_mem_map.mpr fun group _ => (inline_statement group).gap_not_mem

theorem Interface.gap_not_mem_doc (i : Interface) : Mark.gap ∉ i.doc := by
  have hproperties : Mark.gap ∉ Doc.join (i.properties.map (·.interfaceDoc)) := by
    apply Doc.not_mem_join (by decide)
    exact List.forall_mem_map.mpr fun p _ => p.gap_not_mem_interfaceDoc
  have hmethods : Mark.gap ∉ Doc.join (i.methods.map (·.interfaceDoc)) := by
    apply Doc.not_mem_join (by decide)
    exact List.forall_mem_map.mpr fun m _ => m.gap_not_mem_interfaceDoc
  unfold doc
  split
  · exact List.not_mem_nil
  · apply Doc.not_mem_join (by decide)
    simp [hproperties, hmethods, i.inline_extendsDoc.gap_not_mem]

namespace Class

theorem gap_not_mem_propertiesDoc (v : Conventions) (c : Class) (isStatic : Bool) :
    Mark.gap ∉ c.propertiesDoc v isStatic := by
  apply Doc.not_mem_join (by decide)
  exact List.forall_mem_map.mpr fun p _ => p.gap_not_mem_classDoc v

theorem gap_not_mem_methodsDoc (c : Class) (isStatic : Bool) :
    Mark.gap ∉ c.methodsDoc isStatic := by
  apply Doc.not_mem_join (by decide)
  exact List.forall_mem_map.mpr fun m _ => m.gap_not_mem_classDoc

theorem gap_not_mem_rosterDoc (c : Class) (r : Roster) : Mark.gap ∉ c.rosterDoc r := by
  have hnames := (inline_quotedList (r.names c)).gap_not_mem
  unfold rosterDoc
  split <;> simp [hnames]

theorem gap_not_mem_rosterDocs (c : Class) : ∀ d ∈ c.rosterDocs, Mark.gap ∉ d := by
  unfold rosterDocs
  split
  · exact List.forall_mem_map.mpr fun r _ => c.gap_not_mem_rosterDoc r
  · simp

theorem gap_not_mem_constructorDoc (v : Conventions) (c : Class) :
    Mark.gap ∉ c.constructorDoc v := by
  have hlines : ∀ s : ConstructorStep, Mark.gap ∉ s.lineDoc := fun s => by
    simp [ConstructorStep.lineDoc, s.inline_doc.gap_not_mem]
  unfold constructorDoc
  split
  · simp [c.inline_argsDoc.gap_not_mem, hlines]
  · exact List.not_mem_nil

theorem gap_not_mem_modelDoc (c : Class) : Mark.gap ∉ c.modelDoc := by
  unfold modelDoc
  split
  · apply Doc.not_mem_join (by decide)
    exact List.forall_mem_map.mpr fun m _ => m.gap_not_mem_classDoc
  · exact List.not_mem_nil

/-- A class has a compact separator only if it has a decorator that writes itself. -/
theorem gap_not_mem_doc (v : Conventions) (c : Class)
    (h : ∀ d, c.decorator = some d → isBlank d.type = true) : Mark.gap ∉ c.doc v := by
  have hdecorator : (c.decorator.map (·.doc)).getD [] = [] := by
    cases hd : c.decorator with
    | none => rfl
    | some d => simp [Decorator.doc, h d hd]
  unfold doc
  split
  · exact List.not_mem_nil
  · apply Doc.not_mem_join (by decide)
    rw [forall_mem_parts, hdecorator]
    exact ⟨List.not_mem_nil, c.inline_header.gap_not_mem, c.gap_not_mem_propertiesDoc v true,
      c.gap_not_mem_methodsDoc true, c.gap_not_mem_propertiesDoc v false, c.gap_not_mem_rosterDocs,
      c.gap_not_mem_constructorDoc v, c.gap_not_mem_modelDoc, c.gap_not_mem_methodsDoc false,
      by simp⟩

end Class

/-! ## Programs in two layouts -/

/-- The options agree on all that a document's words depend on: they differ at most in the
layout and in the width of its indent unit. -/
def Options.SameButLayout (o₁ o₂ : Options) : Prop :=
  { o₁ with prettify := o₂.prettify, tabSize := o₂.tabSize } = o₂

theorem Options.SameButLayout.conventions_eq {o₁ o₂ : Options} (h : o₁.SameButLayout o₂) :
    o₂.conventions = o₁.conventions := by
  unfold SameButLayout at h
  rw [← h]
  rfl

namespace Program

/-- No class has a decorator that writes itself. -/
def Undecorated (p : Program) : Prop :=
  ∀ c ∈ p.classes, ∀ d, c.decorator = some d → isBlank d.type = true

/-- The assembly reads the conventions of the options and never their layout. -/
theorem assembly_withOptions {p : Program} {o : Options} (h : p.options.SameButLayout o) :
    ({ p with options := o } : Program).assembly = p.assembly := by
  unfold assembly
  rw [h.conventions_eq]

theorem doc_withOptions {p : Program} {o : Options} (h : p.options.SameButLayout o) :
    ({ p with options := o } : Program).doc = p.doc := by
  unfold doc
  rw [assembly_withOptions h]

theorem Undecorated.written {p : Program} (h : p.Undecorated) :
    ∀ c ∈ p.written, ∀ d, c.decorator = some d → isBlank d.type = true := by
  intro c hc d hd
  obtain ⟨i, hi, rfl⟩ := List.mem_mapIdx.mp hc
  exact h p.classes[i] (List.getElem_mem hi) d hd

theorem gap_not_mem_doc {p : Program} (h : p.Undecorated) : Mark.gap ∉ p.doc := by
  unfold doc
  apply Doc.not_mem_join (by decide)
  have hblocks : Mark.gap ∉ Doc.join p.assembly.blocks := by
    apply Doc.not_mem_join (by decide)
    rw [forall_mem_blocks]
    refine ⟨?_, ?_, ?_⟩
    · exact fun e _ => e.gap_not_mem_doc
    · exact fun i _ => i.gap_not_mem_doc
    · exact fun c hc => c.gap_not_mem_doc _ (h.written c hc)
  intro d hd
  simp only [List.mem_cons, List.not_mem_nil, or_false] at hd
  rcases hd with rfl | rfl
  · exact ImportGroups.gap_not_mem_doc _
  · exact hblocks

/-- A layout adds white space alone. Two runs that differ in nothing but the layout export
the same names and write the same visible characters; and a compact text stands in each
other one, in order, when no class has a decorator that writes itself. -/
theorem a_layout_adds_white_space_alone (p : Program) (o : Options)
    (h : p.options.SameButLayout o) :
    let q : Program := { p with options := o }
    q.generate.manifest = p.generate.manifest
    ∧ dense q.generate.output = dense p.generate.output
    ∧ (p.Undecorated → p.options.prettify = false →
        p.generate.output.toList.Sublist q.generate.output.toList) := by
  intro q
  refine ⟨?_, ?_, ?_⟩
  · unfold generate manifest
    rw [assembly_withOptions h]
  · unfold generate
    rw [doc_withOptions h]
    exact Layout.dense_write _ _ p.doc
  · intro hplain hcompact
    have hlayout : p.options.layout = .compact := by
      unfold Options.layout Layout.ofSettings
      rw [hcompact]
      rfl
    unfold generate
    rw [doc_withOptions h, hlayout, Layout.toList_write, Layout.toList_write]
    exact Layout.chars_sublist _ (gap_not_mem_doc hplain)

/-- A class with a constructor, over lines that are indented by three spaces. -/
theorem the_compact_text_of_an_heir_stands_in_the_pretty_one :
    let p : Program := {
      options := .compact
      classes := [{
        name := "Heir", parent := some "Root", args := [.named "a"]
        decorator := some (.ofType " ") }] }
    let o : Options := { tabSize := 3 }
    p.options.SameButLayout o ∧ p.Undecorated
    ∧ p.generate.output.toList.Sublist
        ({ p with options := o } : Program).generate.output.toList := by
  intro p o
  have hplain : p.Undecorated := by
    intro c hc d hd
    rw [List.mem_singleton.mp hc] at hd
    rw [← Option.some.inj hd]
    decide
  exact ⟨rfl, hplain, (a_layout_adds_white_space_alone p o rfl).2.2 hplain rfl⟩

end Program

end ModelScribe
