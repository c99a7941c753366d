-- Indentation is depth. Each part of a program writes its lines with the
-- indent units that its own place asks for. Part by part this is as many as
-- there are open braces at the start of the line, so a pretty output shows
-- the nesting of its braces, whatever its flags and lists are.
import ModelScribe.Proofs.Balance
import ModelScribe.Proofs.Depth
import ModelScribe.Proofs.ProgramText

namespace ModelScribe

open Text Brackets

/-! ## Access words -/

def Class.modifiers (c : Class) : List Modifier :=
  c.toOutline.modifiers ++ c.args.map (·.modifier)

/-- The access modifiers of all members and arguments. -/
def Program.modifiers (p : Program) : List Modifier :=
  p.interfaces.flatMap (·.modifiers) ++ p.classes.flatMap (·.modifiers)

theorem Outline.forall_mem_modifiers {P : Modifier → Prop} {o : Outline}
    (h : ∀ m ∈ o.modifiers, P m) :
    (∀ p ∈ o.properties, P p.modifier) ∧ ∀ m ∈ o.methods, P m.modifier := by
  simp only [modifiers, List.forall_mem_append, List.forall_mem_map, List.forall_mem_flatMap] at h
  exact ⟨h.1, fun m hm => h.2 m hm m.modifier List.mem_cons_self⟩

/-! ## Statements and members -/

theorem placed_statement {s : Doc} (hopens : s.Opens) (hline : Mark.line ∉ s)
    (h : Brackets.braces.Closed s) : Placed 2 (Doc.statement s) 2 :=
  .of_closed 2 hopens hline fun due => h due

theorem tidy_ownNames : HoldsOfOwnNames Tidy where
  access := ⟨by decide, by decide⟩
  backingField _ h := Tidy.append ⟨by decide, by decide⟩ (by decide) h
  roster r := by cases r <;> exact ⟨by decide, by decide⟩

theorem ne_empty_of_isBlank {s : String} (h : isBlank s = false) : s ≠ "" := by
  rintro rfl
  cases h

namespace AccessorStep

theorem opens_doc {s : AccessorStep} (h : ∀ code, s = .custom code → opensLine code = true) :
    s.doc.Opens := by
  cases s with
  | custom code => exact Doc.opens_text (h code rfl) _
  | _ => exact Doc.opens_text (by decide) _

theorem placed {s : AccessorStep} (h : ∀ t ∈ s.texts, Tidy t) (hopens : s.doc.Opens) :
    Placed 2 (Doc.statement s.doc) 2 :=
  placed_statement hopens s.inline_doc.line_not_mem
    (whole_doc fun t ht => (h t ht).balanced).closed

end AccessorStep

namespace PropertyMember

/-- The lines of a member begin with words that are not empty. -/
def Presentable : PropertyMember → Prop
  | .field _ access _ _ => access ≠ ""
  | .getter _ access _ body => access ≠ "" ∧ body.doc.Opens
  | .setter _ access _ body => access ≠ "" ∧ ∀ s ∈ body, s.doc.Opens

theorem nested_doc {m : PropertyMember} (h : ∀ t ∈ m.texts, Tidy t) (hm : m.Presentable)
    (isStatic : Bool) : Nested 1 (m.doc isStatic).lines 1 := by
  have hclosed := closed_doc (fun t ht => (h t ht).balanced) isStatic
  cases m with
  | field name access type value =>
    simp only [texts, List.forall_mem_append, List.forall_mem_cons] at h
    obtain ⟨⟨⟨-, haccess, -⟩, -⟩, -⟩ := h
    have hline : Mark.line ∉ (field name access type value).doc isStatic := by
      simp [doc, (inline_typeDoc type).line_not_mem,
        (Property.inline_initializer value).line_not_mem]
    have hplaced : Placed 1 ((field name access type value).doc isStatic) 1 :=
      .of_closed 1 (Doc.opens_text (haccess.opensLine hm) _)
        (fun hmem => hline (List.mem_cons_of_mem _ hmem)) hclosed
    rw [hplaced.lines_eq]
    exact .singleton hplaced
  | getter name access type body =>
    simp only [texts, List.forall_mem_append, List.forall_mem_cons] at h
    obtain ⟨⟨hname, haccess, htype, -⟩, hbody⟩ := h
    obtain ⟨hne, hopens⟩ := hm
    rw [lines_getter]
    apply Nested.block
    · exact .of_opening 1 (Doc.opens_text (haccess.opensLine hne) _) (by simp)
        (scan_getterLine isStatic hname.balanced haccess.balanced htype.balanced)
    · exact List.forall_mem_singleton.mpr (body.placed hbody hopens)
  | setter name access type body =>
    simp only [texts, List.forall_mem_append, List.forall_mem_cons, List.forall_mem_flatMap] at h
    obtain ⟨⟨hname, haccess, htype, -⟩, hbody⟩ := h
    obtain ⟨hne, hopens⟩ := hm
    rw [lines_setter]
    apply Nested.block
    · exact .of_opening 1 (Doc.opens_text (haccess.opensLine hne) _) (by simp)
        (scan_setterLine isStatic hname.balanced haccess.balanced htype.balanced)
    · exact List.forall_mem_map.mpr fun s hs => s.placed (hbody s hs) (hopens s hs)

end PropertyMember

namespace Property

variable {p : Property} {v : Conventions}

theorem opensLine_of_nonBlank {s : Option String} (h : ∀ t, s = some t → Tidy t) {code : String}
    (hcode : nonBlank s = some code) : opensLine code = true := by
  obtain ⟨hsome, hblank⟩ := nonBlank_eq_some.mp hcode
  exact (h code hsome).opensLine (ne_empty_of_isBlank hblank)

theorem presentable_of_mem_members (h : ∀ s ∈ p.wording, Tidy s)
    (hmodifier : p.modifier.text ≠ "") : ∀ m ∈ p.members v, m.Presentable := by
  obtain ⟨-, -, hgetter, hsetter⟩ := p.forall_mem_wording.mp h
  have hfield : (p.field v).Presentable := by
    unfold field
    cases p.isPlain with
    | true => exact hmodifier
    | false => exact show "private" ≠ "" by decide
  have hget : p.getter.Presentable := by
    refine ⟨hmodifier, AccessorStep.opens_doc fun code heq => ?_⟩
    cases hcode : nonBlank p.getterBody with
    | none => simp [hcode] at heq
    | some s =>
      obtain rfl : s = code := by simpa [hcode] using heq
      exact opensLine_of_nonBlank hgetter hcode
  have hset : (p.setter v).Presentable := by
    refine ⟨hmodifier, fun s hs => AccessorStep.opens_doc fun code heq => ?_⟩
    rw [heq] at hs
    unfold setterSteps at hs
    cases hcode : nonBlank p.setterBody with
    | none =>
      rw [hcode] at hs
      simp only [List.cons_append, List.mem_cons, List.mem_append, reduceCtorEq, false_or] at hs
      rcases hs with hs | hs <;> split at hs <;> simp at hs
    | some t =>
      obtain rfl : code = t := by simpa [hcode] using hs
      exact opensLine_of_nonBlank hsetter hcode
  exact forall_mem_members (fun _ => hfield) (fun _ _ => hget) fun _ _ => hset

theorem nested_classDoc (hv : ∀ s ∈ v.texts, Tidy s) (h : ∀ s ∈ p.wording, Tidy s)
    (hmodifier : p.modifier.text ≠ "") : Nested 1 (p.classDoc v).lines 1 := by
  rw [lines_classDoc]
  apply Nested.flatMap
  intro m hm
  exact PropertyMember.nested_doc (forall_mem_texts tidy_ownNames hv h m hm)
    (presentable_of_mem_members h hmodifier m hm) p.isStatic

theorem nested_interfaceDoc (h : ∀ s ∈ p.wording, Tidy s) : Nested 1 p.interfaceDoc.lines 1 := by
  obtain ⟨⟨hname, -⟩, -⟩ := p.forall_mem_wording.mp h
  cases hnamed : p.isNamed with
  | false =>
    simp only [interfaceDoc, hnamed]
    exact .nil 1
  | true =>
    have hclosed := (whole_interfaceDoc fun s hs => (h s hs).balanced).closed
    have hblank : isBlank p.name = false := by simpa [isNamed] using hnamed
    have hplaced : Placed 1 p.interfaceDoc 1 := by
      unfold interfaceDoc at hclosed ⊢
      rw [if_pos hnamed] at hclosed ⊢
      exact .of_closed 1 (Doc.opens_text (hname.opensLine (ne_empty_of_isBlank hblank)) _)
        (by simp [p.inline_signature.line_not_mem]) hclosed
    rw [hplaced.lines_eq]
    exact .singleton hplaced

end Property

/-! ## Methods -/

namespace Method

variable {m : Method}

theorem opens_header (h : ∀ s ∈ m.wording, Tidy s) (hmodifier : m.modifier.text ≠ "") (rest : Doc) :
    ∃ body : Doc, m.header ++ rest = .tab :: body ∧ body.Opens := by
  obtain ⟨⟨-, -, -, hmod⟩, -⟩ := m.forall_mem_wording.mp h
  refine ⟨_, rfl, ?_⟩
  cases habstract : m.isAbstract with
  | true => exact Doc.opens_text (s := "abstract ") (by decide) _
  | false =>
    simp only [Bool.false_eq_true, if_false]
    exact Doc.opens_empty (Doc.opens_text (hmod.opensLine hmodifier) _)

theorem nested_classDoc (h : ∀ s ∈ m.wording, Tidy s) (hmodifier : m.modifier.text ≠ "") :
    Nested 1 m.classDoc.lines 1 := by
  obtain ⟨⟨-, -, hbody, -⟩, -⟩ := m.forall_mem_wording.mp h
  have hheader := closed_header fun s hs => (h s hs).balanced
  have hline := m.line_not_mem_header
  cases hnamed : m.isNamed with
  | false =>
    simp only [classDoc, hnamed]
    exact .nil 1
  | true =>
    cases habstract : m.isAbstract with
    | true =>
      obtain ⟨body, hsplit, hopens⟩ := opens_header h hmodifier [.text ";"]
      have hplaced : Placed 1 (m.header ++ [Mark.text ";"]) 1 := by
        have hend : Brackets.braces.Closed [.text ";"] := closed_fixed (by decide)
        have hclosed := hheader.append hend
        have hunbroken : Mark.line ∉ m.header ++ [Mark.text ";"] := by simp [hline]
        rw [hsplit] at hclosed hunbroken ⊢
        exact .of_closed 1 hopens (fun hmem => hunbroken (List.mem_cons_of_mem _ hmem)) hclosed
      have hdoc : m.classDoc = m.header ++ [Mark.text ";"] := by simp [classDoc, hnamed, habstract]
      rw [hdoc, hplaced.lines_eq]
      exact .singleton hplaced
    | false =>
      obtain ⟨body, hsplit, hopens⟩ := opens_header h hmodifier [.space, .text "\x7b"]
      have hhead : Placed 1 (m.header ++ [Mark.space, .text "\x7b"]) 2 := by
        have hscan := scan_opening hheader
        have hunbroken : Mark.line ∉ m.header ++ [Mark.space, .text "\x7b"] := by simp [hline]
        rw [hsplit] at hscan hunbroken ⊢
        exact .of_opening 1 hopens (fun hmem => hunbroken (List.mem_cons_of_mem _ hmem)) hscan
      have hdoc : m.classDoc = Doc.join ((m.header ++ [Mark.space, .text "\x7b"])
          :: [Doc.statement [.text m.body]] ++ [Doc.closing]) := by
        simp [classDoc, hnamed, habstract, Doc.statement, Doc.closing]
      rw [hdoc]
      refine Nested.join_braces hhead (List.forall_mem_singleton.mpr fun hvisible => ?_)
        placed_closing
      have hne : m.body ≠ "" := by
        intro hempty
        rw [hempty] at hvisible
        exact absurd hvisible (by decide)
      have hstatement : Placed 2 (Doc.statement [.text m.body]) 2 :=
        placed_statement (Doc.opens_text (hbody.opensLine hne) _) (by simp)
          ((closed_text m.body).mpr hbody.balanced)
      rw [hstatement.lines_eq]
      exact .singleton hstatement

theorem nested_join {methods : List Method} (h : ∀ m ∈ methods, ∀ s ∈ m.wording, Tidy s)
    (hmodifiers : ∀ m ∈ methods, m.modifier.text ≠ "") :
    Nested 1 (Doc.join (methods.map (·.classDoc))).lines 1 :=
  .join (List.forall_mem_map.mpr fun m hm _ => nested_classDoc (h m hm) (hmodifiers m hm))

theorem nested_interfaceDoc (h : ∀ s ∈ m.wording, Tidy s) : Nested 1 m.interfaceDoc.lines 1 := by
  obtain ⟨⟨hname, -⟩, -⟩ := m.forall_mem_wording.mp h
  cases hnamed : m.isNamed with
  | false =>
    simp only [interfaceDoc, hnamed]
    exact .nil 1
  | true =>
    have hclosed := closed_interfaceDoc fun s hs => (h s hs).balanced
    have hblank : isBlank m.name = false := by simpa [isNamed] using hnamed
    have hplaced : Placed 1 m.interfaceDoc 1 := by
      unfold interfaceDoc at hclosed ⊢
      rw [if_pos hnamed] at hclosed ⊢
      exact .of_closed 1 (Doc.opens_text (hname.opensLine (ne_empty_of_isBlank hblank)) _)
        (by simp [(Property.inline_params m.args).line_not_mem]) hclosed
    rw [hplaced.lines_eq]
    exact .singleton hplaced

end Method

/-! ## Decorators, enumerations, imports and interfaces -/

theorem DecoratorOption.placed_doc {o : DecoratorOption} (hname : Tidy o.name)
    (hvalue : Tidy o.value) : Placed 1 o.doc 1 := by
  have hclosed := (whole_doc hname.balanced hvalue.balanced).closed
  refine .of_closed 1 ?_ (by simp) hclosed
  by_cases hempty : o.name = ""
  · rw [hempty]
    exact Doc.opens_empty (Doc.opens_text (by decide) _)
  · exact Doc.opens_text (hname.opensLine hempty) _

theorem Decorator.placed_lastLine : Placed 1 [.text "\x7d)", .gap] 0 where
  begins := ⟨0, _, '\x7d', rfl, fun n => by simp [Layout.mark], by decide, rfl⟩
  leaves := rfl
  unbroken := by decide

theorem Decorator.nested_doc {d : Decorator} (h : ∀ s ∈ d.wording, Tidy s) :
    Nested 0 d.doc.lines 0 := by
  obtain ⟨htype, hoptions⟩ := d.forall_mem_wording.mp h
  have hhead : Placed 0 [.text "@", .text d.type, .text "(\x7b"] 1 := by
    refine .of_opening 0 (Doc.opens_text (by decide) _) (by simp) fun due => ?_
    have hat : Brackets.braces.run due "@" = some due := rfl
    have hcall : Brackets.braces.run due "(\x7b" = some ('\x7d' :: due) := rfl
    simp [hat, hcall, htype.balanced.run_eq]
  have hentries : Nested 1 d.optionsDoc.lines 1 :=
    .commaLines (List.forall_mem_map.mpr fun o ho =>
      o.placed_doc (hoptions o ho).1 (hoptions o ho).2)
  unfold doc
  split
  · exact .nil 0
  · exact .join_braces hhead (List.forall_mem_singleton.mpr fun _ => hentries) placed_lastLine

theorem Enumeration.nested_doc {e : Enumeration} (h : ∀ s ∈ e.wording, Tidy s) :
    Nested 0 e.doc.lines 0 := by
  obtain ⟨hname, hmembers⟩ := e.forall_mem_wording.mp h
  have hhead : Placed 0 [.text "export enum ", .text e.name, .space, .text "\x7b"] 1 :=
    .of_opening 0 (Doc.opens_text (by decide) _) (by simp) (scan_header hname.balanced)
  have hinner : Nested 1 e.membersDoc.lines 1 := by
    apply Nested.commaLines
    refine List.forall_mem_map.mpr fun d hd => ?_
    obtain ⟨hmem, hvisible⟩ := List.mem_filter.mp hd
    obtain ⟨m, hm, rfl⟩ := List.mem_map.mp hmem
    obtain ⟨hmname, hmvalue⟩ := hmembers m hm
    have hwhole := EnumMember.whole_doc (b := .braces)
      ⟨hmname.balanced, fun s hs => (hmvalue s hs).balanced⟩
    have hopens : m.doc.Opens := by
      cases hblank : isBlank m.name with
      | true => simp [EnumMember.doc, hblank, Doc.isBlank] at hvisible
      | false =>
        unfold EnumMember.doc
        rw [if_neg (by simp [hblank])]
        split <;> exact Doc.opens_text (hmname.opensLine (ne_empty_of_isBlank hblank)) _
    exact .of_closed 1 hopens m.inline_doc.line_not_mem hwhole.closed
  unfold doc
  split
  · exact .nil 0
  · exact .join_braces hhead (List.forall_mem_singleton.mpr fun _ => hinner) placed_lastLine

theorem ImportGroups.nested_doc {groups : ImportGroups}
    (h : ∀ g ∈ groups, Tidy g.1 ∧ ∀ s ∈ g.2, Tidy s) :
    Nested 0 (ImportGroups.doc groups).lines 0 := by
  apply Nested.join
  refine List.forall_mem_map.mpr fun g hg _ => ?_
  have hclosed := closed_statement (b := .braces)
    ⟨(h g hg).1.balanced, fun s hs => ((h g hg).2 s hs).balanced⟩
  have hplaced : Placed 0 (statement g) 0 :=
    .of_closed 0 (Doc.opens_text (by decide) _) (inline_statement g).line_not_mem hclosed
  rw [hplaced.lines_eq]
  exact .singleton hplaced

theorem Interface.nested_doc {i : Interface} (h : ∀ s ∈ i.wording, Tidy s) :
    Nested 0 i.doc.lines 0 := by
  obtain ⟨hname, hparent, -, hproperties, hmethods⟩ := i.toOutline.forall_mem_wording.mp h
  have hscan := scan_header (b := .braces) hname.balanced fun s hs => (hparent s hs).balanced
  have hhead : Placed 0 (Doc.cat [[.text "export interface ", .text i.name], i.extendsDoc,
      [.space, .text "\x7b"]]) 1 :=
    .of_opening 0 (Doc.opens_text (by decide) _) (by simp [i.inline_extendsDoc.line_not_mem]) hscan
  have hparts : ∀ d ∈ [Doc.join (i.properties.map (·.interfaceDoc)),
      Doc.join (i.methods.map (·.interfaceDoc))], d.isBlank = false → Nested 1 d.lines 1 := by
    simp only [List.forall_mem_cons]
    refine ⟨fun _ => .join ?_, fun _ => .join ?_, by simp⟩
    · exact List.forall_mem_map.mpr fun p hp _ => Property.nested_interfaceDoc (hproperties p hp)
    · exact List.forall_mem_map.mpr fun m hm _ => Method.nested_interfaceDoc (hmethods m hm)
  unfold doc
  split
  · exact .nil 0
  · exact .join_braces hhead hparts placed_lastLine

/-! ## Classes -/

namespace Class

variable {c : Class} {v : Conventions}

theorem nested_constructorDoc (hv : ∀ s ∈ v.texts, Tidy s) (h : ∀ s ∈ c.wording, Tidy s) :
    Nested 1 (c.constructorDoc v).lines 1 := by
  obtain ⟨-, -, -, -, -, hcode⟩ := c.forall_mem_wording.mp h
  have htexts := forall_mem_texts tidy_ownNames hv h
  have hopens : ∀ s ∈ c.constructorSteps v, s.doc.Opens := by
    intro s hs
    cases s with
    | custom code =>
      have hmem : nonBlank c.constructorCode = some code := by
        simpa [constructorSteps] using hs
      exact Doc.opens_text (Property.opensLine_of_nonBlank hcode hmem) _
    | _ => exact Doc.opens_text (by decide) _
  cases hconstructor : c.hasConstructor with
  | false =>
    simp only [constructorDoc, hconstructor]
    exact .nil 1
  | true =>
    rw [lines_constructorDoc hconstructor]
    apply Nested.block
    · exact .of_opening 1 (Doc.opens_text (by decide) _)
        (by simp [c.inline_argsDoc.line_not_mem]) (scan_opening fun s hs => (h s hs).balanced)
    · refine List.forall_mem_map.mpr fun s hs => ?_
      exact placed_statement (hopens s hs) s.inline_doc.line_not_mem
        (ConstructorStep.closed_doc fun t ht => (htexts s hs t ht).balanced)

theorem placed_rosterDoc (h : ∀ s ∈ c.wording, Tidy s) (r : Roster) :
    Placed 1 (c.rosterDoc r) 1 := by
  have hclosed := closed_rosterDoc (b := .braces) (fun s hs => (h s hs).balanced) r
  have hline := c.line_not_mem_rosterDoc r
  exact .of_closed 1 (Doc.opens_text (s := "protected ") (by decide) _)
    (fun hmem => hline (List.mem_cons_of_mem _ hmem)) hclosed

end Class

theorem BaseModel.tidy_of_mem_methods {c : Class} {m : Method} (hm : m ∈ methods c) :
    ∀ s ∈ m.wording, Tidy s := by
  have hwords : ∀ s ∈ words, isFlush s = true ∧ Brackets.braces.Balanced s := by decide
  refine forall_mem_wording (fun body hbody => ?_) (fun s hs => ?_) hm
  · obtain ⟨-, hflush, hbalanced⟩ := bodies_wellFormed .braces body hbody
    exact ⟨hbalanced, hflush⟩
  · exact ⟨(hwords s hs).2, (hwords s hs).1⟩

theorem BaseModel.modifier_of_mem_methods {c : Class} {m : Method} (hm : m ∈ methods c) :
    m.modifier = .pub := by
  have hmem := mem_methods hm
  simp only [List.mem_cons, List.not_mem_nil, or_false] at hmem
  rcases hmem with rfl | rfl | rfl | rfl | rfl | rfl | rfl <;> rfl

namespace Class

variable {c : Class} {v : Conventions}

theorem nested_innerLines (hv : ∀ s ∈ v.texts, Tidy s) (h : ∀ s ∈ c.wording, Tidy s)
    (hmodifiers : ∀ m ∈ c.modifiers, m.text ≠ "") : Nested 1 (c.innerLines v) 1 := by
  obtain ⟨houtline, -⟩ := c.forall_mem_wording.mp h
  obtain ⟨-, -, -, hproperties, hmethods⟩ := c.toOutline.forall_mem_wording.mp houtline
  obtain ⟨hpmodifiers, hmmodifiers⟩ :=
    Outline.forall_mem_modifiers (P := (·.text ≠ ""))
      fun m hm => hmodifiers m (List.mem_append_left _ hm)
  have hfields (isStatic : Bool) : Nested 1 (c.propertiesDoc v isStatic).lines 1 := by
    apply Nested.join
    refine List.forall_mem_map.mpr fun p hp _ => ?_
    have hmem := (List.mem_filter.mp hp).1
    exact Property.nested_classDoc hv (hproperties p hmem) (hpmodifiers p hmem)
  have hbodies (isStatic : Bool) : Nested 1 (c.methodsDoc isStatic).lines 1 :=
    Method.nested_join (fun m hm => hmethods m (List.mem_filter.mp hm).1)
      fun m hm => hmmodifiers m (List.mem_filter.mp hm).1
  have hrosters : Nested 1 c.rosterDocs 1 := by
    unfold rosterDocs
    split
    · rw [List.map_eq_flatMap]
      exact .flatMap fun r _ => .singleton (placed_rosterDoc h r)
    · exact .nil 1
  have hmodel : Nested 1 c.modelDoc.lines 1 := by
    unfold modelDoc
    split
    · refine Method.nested_join (fun m hm => BaseModel.tidy_of_mem_methods hm) fun m hm => ?_
      rw [BaseModel.modifier_of_mem_methods hm]
      decide
    · exact .nil 1
  exact ((((hfields true).append (hbodies true)).append (hfields false)).append hrosters).append
    ((nested_constructorDoc hv h).append (hmodel.append (hbodies false)))

theorem nested_doc (hv : ∀ s ∈ v.texts, Tidy s) (h : ∀ s ∈ c.wording, Tidy s)
    (hmodifiers : ∀ m ∈ c.modifiers, m.text ≠ "") : Nested 0 (c.doc v).lines 0 := by
  obtain ⟨-, -, -, -, hdecorator, -⟩ := c.forall_mem_wording.mp h
  cases hname : isBlank c.name with
  | true =>
    simp only [doc, hname]
    exact .nil 0
  | false =>
    have hdecorated : Nested 0 (Doc.lines ((c.decorator.map (·.doc)).getD [])) 0 := by
      cases hd : c.decorator with
      | none => exact .nil 0
      | some d => exact d.nested_doc (hdecorator d hd)
    have hheader : Placed 0 c.header 1 :=
      .of_opening 0 (Doc.opens_text (s := "export") (by decide) _) c.inline_header.line_not_mem
        (scan_header fun s hs => (h s hs).balanced)
    rw [lines_doc hname]
    exact hdecorated.append
      (.cons hheader ((nested_innerLines hv h hmodifiers).append (.singleton placed_lastLine)))

end Class

/-! ## Programs -/

namespace Program

/-- The lines of a program stand at their depth. -/
theorem nested_doc (p : Program) (h : ∀ s ∈ p.wording, Tidy s)
    (hmodifiers : ∀ m ∈ p.modifiers, m.text ≠ "") : Nested 0 p.doc.lines 0 := by
  obtain ⟨hoptions, henums, hinterfaces, hclasses⟩ := p.forall_mem_wording.mp h
  have hconventions := Options.forall_mem_texts hoptions
  have hclassModifiers : ∀ c ∈ p.classes, ∀ m ∈ c.modifiers, m.text ≠ "" := fun c hc m hm =>
    hmodifiers m (List.mem_append_right _ (List.mem_flatMap.mpr ⟨c, hc, hm⟩))
  rw [lines_doc]
  apply (ImportGroups.nested_doc (p.forall_mem_imports h)).append
  apply Nested.flatMap
  rw [forall_mem_blocks]
  refine ⟨fun e he => e.nested_doc (henums e he), fun i hi => i.nested_doc (hinterfaces i hi), ?_⟩
  intro c hc
  exact Class.nested_doc hconventions (forall_mem_written (fun _ _ h => h) hclasses c hc)
    (forall_mem_written (Q := fun c => ∀ m ∈ c.modifiers, m.text ≠ "") (fun _ _ h => h)
      hclassModifiers c hc)

/-- The line is indented by `tabSize` spaces for each brace that is open behind the lines before
it, but for one that the line closes at once. Then it goes on with a visible character. -/
def IndentedBy (tabSize : Nat) (before : List (List Char)) (line : List Char) : Prop :=
  ∃ depth c rest, line = List.replicate (tabSize * depth) ' ' ++ c :: rest ∧ isSpace c = false
    ∧ openBraces before.flatten = depth + if c = '\x7d' then 1 else 0

/-- A line that stands at its depth is indented by it in every pretty layout. -/
theorem indentedBy_of_nested {before behind : List Doc} {l : Doc} {e : Nat}
    (h : Nested 0 (before ++ l :: behind) e) (n : UInt8) :
    IndentedBy n.toNat (before.map (Layout.pretty n).chars) ((Layout.pretty n).chars l) := by
  obtain ⟨m, hbefore, hbehind⟩ := h.split
  obtain ⟨k, hplaced⟩ : ∃ k, Placed m l k := by
    cases hbehind with
    | cons hl _ => exact ⟨_, hl⟩
  obtain ⟨depth, body, c, rfl, hc, hvisible, hm⟩ := hplaced.begins
  have hopen : openBraces (before.map (Layout.pretty n).chars).flatten = m := by
    have hrun := run_write (b := .braces) (.pretty n) (dueBraces 0) before.flatten
    rw [hbefore.scan_flatten] at hrun
    have hlength := foldl_braceStep hrun
    rw [Layout.toList_write, Layout.chars_flatten] at hlength
    exact hlength.trans List.length_replicate
  obtain ⟨rest, hrest⟩ : ∃ rest, (Layout.pretty n).chars body = c :: rest :=
    List.head?_eq_some_iff.mp (hc n)
  exact ⟨depth, c, rest, by rw [Layout.chars_tabs, hrest], hvisible, by rw [hopen, hm]⟩

/-- Indentation is depth: where no text of a program breaks a line or begins with white space, where
the braces of each match and no access word is empty, each line of a pretty output is indented
by the braces that are open at its start. So no line is blank, unless there is no output. -/
theorem pretty_lines_stand_at_their_depth (p : Program) (hpretty : p.options.prettify = true)
    (hwording : ∀ s ∈ p.wording, '\n' ∉ s.toList ∧ Brackets.braces.Balanced s
      ∧ isFlush s = true)
    (hmodifiers : ∀ m ∈ p.modifiers, m.text ≠ "") :
    p.generate.output = "" ∨ ∀ before line behind,
      p.generate.output.toList.splitOn '\n' = before ++ line :: behind →
        IndentedBy p.options.tabSize.toNat before line ∧ ∃ c ∈ line, isSpace c = false := by
  have houtput : p.generate.output = (Layout.pretty p.options.tabSize).write p.doc := by
    simp [generate, Options.layout, Layout.ofSettings, hpretty]
  have hnested := p.nested_doc (fun s hs => ⟨(hwording s hs).2.1, (hwording s hs).2.2⟩) hmodifiers
  have hover : p.doc.Over (· ≠ '\n') := by
    apply p.over_doc
    · rintro c hc rfl
      exact absurd hc (by decide)
    · rintro s hs c hc rfl
      exact (hwording s hs).1 hc
  by_cases hnil : p.doc = []
  · left
    rw [houtput, hnil, Layout.write_nil]
  · right
    intro before line behind hlines
    rw [houtput, Layout.toList_write, Layout.splitOn_chars hover, ← Doc.lines_eq_splitOn hnil,
      List.map_eq_append_iff] at hlines
    obtain ⟨docs, rest, hdoc, rfl, hrest⟩ := hlines
    obtain ⟨l, behind, rfl, rfl, -⟩ := List.map_eq_cons_iff.mp hrest
    rw [hdoc] at hnested
    have hindented := indentedBy_of_nested hnested p.options.tabSize
    obtain ⟨depth, c, rest, hline, hvisible, -⟩ := hindented
    refine ⟨indentedBy_of_nested hnested p.options.tabSize, c, ?_, hvisible⟩
    rw [hline]
    exact List.mem_append_right _ List.mem_cons_self

/-- A tracked property, a decorator with an option, a constructor and an enumeration, two spaces
to an indent unit. -/
theorem the_lines_of_a_tracked_class_stand_at_their_depth :
    let p : Program := {
      options := { tabSize := 2 }
      enums := [{ name := "Side", members := [{ name := "Left", value := some "1 << 0" }] }]
      classes := [{
        name := "Node", parent := some "Root<\x7b id: string \x7d>", args := [.named "x"]
        decorator := some ((Decorator.ofType "Entity").withOption "table" "\x7b name: 'n' \x7d")
        properties := [(Property.named "size").tracked.withModifier (.custom "readonly")]
        methods := [(Method.named "area").withBody "return \x7b\x7d;"] }] }
    p.options.prettify = true
    ∧ (∀ s ∈ p.wording, '\n' ∉ s.toList ∧ Brackets.braces.Balanced s
      ∧ isFlush s = true)
    ∧ (∀ m ∈ p.modifiers, m.text ≠ "")
    ∧ (p.generate.output = "" ∨ ∀ before line behind,
      p.generate.output.toList.splitOn '\n' = before ++ line :: behind →
        IndentedBy p.options.tabSize.toNat before line ∧ ∃ c ∈ line, isSpace c = false) := by
  intro p
  have hwording : ∀ s ∈ p.wording, '\n' ∉ s.toList ∧ Brackets.braces.Balanced s
      ∧ isFlush s = true := by
    decide +kernel
  have hmodifiers : ∀ m ∈ p.modifiers, m.text ≠ "" := by decide
  exact ⟨rfl, hwording, hmodifiers, pretty_lines_stand_at_their_depth p rfl hwording hmodifiers⟩

end Program

end ModelScribe
