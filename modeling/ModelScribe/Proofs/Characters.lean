-- The characters of a program. The texts of an output are those of the
-- wording, and words of the generator's own that stand in every program. All
-- of these are printable. So a class of characters that has the printable
-- ones has every character that the texts of an output bring, as soon as it
-- has those of the wording: nothing but the layout can add to it.
import ModelScribe.Proofs.Brackets
import ModelScribe.Proofs.Inline

namespace ModelScribe

open Text

/-! ## Texts over a class of characters -/

namespace Text

/-- The printable characters of ASCII. -/
def isPrintable (c : Char) : Bool := ' ' ≤ c && c ≤ '~'

/-- The only printable white space is the space. -/
theorem eq_space_of_isPrintable {c : Char} (h : isPrintable c = true) (hspace : isSpace c = true) :
    c = ' ' := by
  simp only [isPrintable, Bool.and_eq_true, decide_eq_true_eq, Char.le_def,
    UInt32.le_iff_toNat_le] at h
  simp only [isSpace, Bool.or_eq_true, Bool.and_eq_true, decide_eq_true_eq, beq_iff_eq] at hspace
  have hfirst : ' '.val.toNat = 32 := rfl
  have hlast : '~'.val.toNat = 126 := rfl
  have hvalue : c.toNat = c.val.toNat := rfl
  apply Char.ext
  apply UInt32.toNat_inj.mp
  omega

/-- Every character of the text is good. -/
def Over (good : Char → Prop) (s : String) : Prop := ∀ c ∈ s.toList, good c

instance {good : Char → Prop} [DecidablePred good] (s : String) : Decidable (Over good s) :=
  inferInstanceAs (Decidable (∀ c ∈ s.toList, good c))

variable {good : Char → Prop}

theorem Over.append {s t : String} (hs : Over good s) (ht : Over good t) :
    Over good (s ++ t) := by
  unfold Over
  rw [String.toList_append]
  exact List.forall_mem_append.mpr ⟨hs, ht⟩

/-- Words that stand in every program are seen to be printable. -/
theorem over_own (hgood : ∀ c, isPrintable c = true → good c) {s : String}
    (h : s.toList.all isPrintable = true) : Over good s :=
  fun c hc => hgood c (List.all_eq_true.mp h c hc)

end Text

/-- Every character of the mark's text is good. -/
def Mark.Over (good : Char → Prop) : Mark → Prop
  | .text s => Text.Over good s
  | _ => True

/-- Every character of the document's texts is good. -/
def Doc.Over (good : Char → Prop) (d : Doc) : Prop := ∀ m ∈ d, m.Over good

namespace Doc

variable {good : Char → Prop}

@[simp] theorem over_nil : Over good [] := by
  intro m hm
  cases hm

@[simp] theorem over_cons (m : Mark) (d : Doc) :
    Over good (m :: d) ↔ m.Over good ∧ Over good d := List.forall_mem_cons

@[simp] theorem over_append (d e : Doc) :
    Over good (d ++ e) ↔ Over good d ∧ Over good e := List.forall_mem_append

@[simp] theorem over_text (s : String) : (Mark.text s).Over good ↔ Text.Over good s := Iff.rfl

@[simp] theorem over_space : Mark.space.Over good := trivial

@[simp] theorem over_line : Mark.line.Over good := trivial

@[simp] theorem over_tab : Mark.tab.Over good := trivial

@[simp] theorem over_gap : Mark.gap.Over good := trivial

theorem over_flatMap {α : Type} {xs : List α} {f : α → Doc} (h : ∀ x ∈ xs, Over good (f x)) :
    Over good (xs.flatMap f) := by
  intro m hm
  obtain ⟨x, hx, hmx⟩ := List.mem_flatMap.mp hm
  exact h x hx m hmx

theorem over_intercalate {sep : Doc} {ds : List Doc} (hsep : Over good sep)
    (h : ∀ d ∈ ds, Over good d) : Over good (sep.intercalate ds) := by
  intro m hm
  rcases mem_intercalate hm with hs | ⟨d, hd, hmd⟩
  · exact hsep m hs
  · exact h d hd m hmd

theorem over_join {ds : List Doc} (h : ∀ d ∈ ds, Over good d) : Over good (join ds) :=
  over_intercalate (by simp) fun d hd => h d (List.mem_filter.mp hd).1

/-- A compact text has the characters of the document's texts, and the space behind a decorator. -/
theorem Over.chars_compact (hspace : good ' ') {d : Doc} (h : Over good d) :
    ∀ c ∈ Layout.compact.chars d, good c := by
  intro c hc
  obtain ⟨m, hm, hcm⟩ := List.mem_flatMap.mp hc
  cases m with
  | text t => exact h _ hm c hcm
  | gap => rwa [List.mem_singleton.mp hcm]
  | _ => cases hcm

end Doc

/-! ## The parts of declarations -/

/-- The bodies of the methods that base models carry are printable, they do not begin with white
space, and their brackets match. The characters of each piece are spelled out first, since a text
is slow to take apart. -/
theorem BaseModel.bodies_wellFormed (b : Brackets) : ∀ body ∈ bodies,
    body.toList.all isPrintable = true ∧ body.toList.head?.all (!isSpace ·) = true
      ∧ b.Balanced body := by
  unfold bodies registerPropertyBody registerPropertiesBody cloneBody toObjectBody parseObjectBody
    snapshotCode commitBody revertBody Brackets.Balanced Brackets.run
  iterate 8 rw [List.forall_mem_cons]
  rw [if_pos rfl, if_neg Bool.false_ne_true]
  repeat rw [String.toList_append]
  repeat rw [String.toList_ofList]
  cases b <;> refine ⟨?_, ?_, ?_, ?_, ?_, ?_, ?_, ?_, by simp⟩ <;> decide +kernel

section Parts

variable {good : Char → Prop} (hgood : ∀ c, isPrintable c = true → good c)

include hgood

theorem Doc.over_commaList {ds : List Doc} (h : ∀ d ∈ ds, Over good d) :
    Over good (commaList ds) := by
  apply over_intercalate
  · simp (disch := decide) [over_own hgood]
  · exact fun d hd => h d (List.mem_filter.mp hd).1

theorem Doc.over_texts {texts : List String} (h : ∀ s ∈ texts, Text.Over good s) :
    Over good (commaList (texts.map fun s => [Mark.text s])) :=
  over_commaList hgood (List.forall_mem_map.mpr fun s hs => by simpa using h s hs)

namespace Property

variable {p : Property}

theorem over_signature (h : ∀ s ∈ p.wording, Over good s) : p.signature.Over good := by
  obtain ⟨⟨hname, htype, -⟩, -⟩ := p.forall_mem_wording.mp h
  cases hoptional : p.optional <;>
    simp (disch := decide) [signature, hoptional, hname, htype, over_own hgood]

omit hgood in
theorem over_of_mem_defaultValue (h : ∀ s ∈ p.wording, Over good s) {v : String}
    (hv : p.defaultValue = some v) : Over good v :=
  (p.forall_mem_wording.mp h).2.1 v (nonBlank_eq_some.mp hv).1

theorem over_initializer {value : Option String} (h : ∀ v, value = some v → Over good v) :
    (initializer value).Over good := by
  cases value with
  | none => simp [initializer]
  | some v => simp (disch := decide) [initializer, h v rfl, over_own hgood]

theorem over_argDoc (h : ∀ s ∈ p.wording, Over good s) : p.argDoc.Over good := by
  unfold argDoc
  split
  · rw [Doc.over_append]
    exact ⟨over_signature hgood h, over_initializer hgood fun v hv => over_of_mem_defaultValue h hv⟩
  · exact Doc.over_nil

theorem over_paramDoc (h : ∀ s ∈ p.wording, Over good s) : p.paramDoc.Over good := by
  unfold paramDoc
  split
  · exact over_signature hgood h
  · exact Doc.over_nil

theorem over_interfaceDoc (h : ∀ s ∈ p.wording, Over good s) : p.interfaceDoc.Over good := by
  unfold interfaceDoc
  split
  · simp (disch := decide) [over_signature hgood h, over_own hgood]
  · exact Doc.over_nil

theorem over_args {args : List Property} (h : ∀ a ∈ args, ∀ s ∈ a.wording, Over good s) :
    (Doc.commaList (args.map (·.argDoc))).Over good :=
  Doc.over_commaList hgood (List.forall_mem_map.mpr fun a ha => over_argDoc hgood (h a ha))

end Property

/-! ### Members -/

theorem AccessorStep.over_doc {s : AccessorStep} (h : ∀ t ∈ s.texts, Over good t) :
    s.doc.Over good := by
  cases s <;> simp (disch := decide) [doc, List.forall_mem_singleton.mp h, over_own hgood]

theorem AccessorStep.over_lineDoc {s : AccessorStep} (h : ∀ t ∈ s.texts, Over good t) :
    s.lineDoc.Over good := by
  simp [lineDoc, over_doc hgood h]

namespace PropertyMember

theorem over_typeDoc {type : Option String} (h : ∀ t, type = some t → Over good t) :
    (typeDoc type).Over good := by
  cases type with
  | none => exact Doc.over_nil
  | some t => simp (disch := decide) [typeDoc, h t rfl, over_own hgood]

theorem over_doc {m : PropertyMember} (h : ∀ t ∈ m.texts, Over good t) (isStatic : Bool) :
    (m.doc isStatic).Over good := by
  have hstatic : Over good (staticWord isStatic) := by
    cases isStatic <;> exact over_own hgood (by decide)
  cases m with
  | field name access type value =>
    simp only [texts, List.forall_mem_append, List.forall_mem_cons, Option.mem_toList] at h
    obtain ⟨⟨⟨hname, haccess, -⟩, htype⟩, hvalue⟩ := h
    have htypeDoc := over_typeDoc hgood htype
    have hinitializer := Property.over_initializer hgood hvalue
    simp (disch := decide) [doc, hname, haccess, hstatic, htypeDoc, hinitializer, over_own hgood]
  | getter name access type body =>
    simp only [texts, List.forall_mem_append, List.forall_mem_cons] at h
    obtain ⟨⟨hname, haccess, htype, -⟩, hbody⟩ := h
    have hline := AccessorStep.over_lineDoc hgood hbody
    simp (disch := decide) [doc, hname, haccess, hstatic, htype, hline, over_own hgood]
  | setter name access type body =>
    simp only [texts, List.forall_mem_append, List.forall_mem_cons, List.forall_mem_flatMap] at h
    obtain ⟨⟨hname, haccess, htype, -⟩, hbody⟩ := h
    have hlines := Doc.over_flatMap fun s hs => AccessorStep.over_lineDoc hgood (hbody s hs)
    simp (disch := decide) [doc, hname, haccess, hstatic, htype, hlines, over_own hgood]

end PropertyMember

theorem Text.over_ownNames : HoldsOfOwnNames (Over good) where
  access := over_own hgood (by decide)
  backingField _ h := (over_own hgood (by decide)).append h
  roster r := by cases r <;> exact over_own hgood (by decide)

theorem Property.over_classDoc {p : Property} {v : Conventions} (hv : ∀ s ∈ v.texts, Over good s)
    (h : ∀ s ∈ p.wording, Over good s) : (p.classDoc v).Over good := by
  apply Doc.over_join
  exact List.forall_mem_map.mpr fun m hm =>
    PropertyMember.over_doc hgood (forall_mem_texts (over_ownNames hgood) hv h m hm) p.isStatic

namespace Method

variable {m : Method}

theorem over_header (h : ∀ s ∈ m.wording, Over good s) : m.header.Over good := by
  obtain ⟨⟨hname, htype, -, hmodifier⟩, hargs⟩ := m.forall_mem_wording.mp h
  have hargsDoc := Property.over_args hgood hargs
  cases habstract : m.isAbstract <;> cases hstatic : m.isStatic <;>
    simp (disch := decide) [header, habstract, hstatic, hname, htype, hmodifier, hargsDoc,
      over_own hgood]

theorem over_classDoc (h : ∀ s ∈ m.wording, Over good s) : m.classDoc.Over good := by
  obtain ⟨⟨-, -, hbody, -⟩, -⟩ := m.forall_mem_wording.mp h
  have hheader := over_header hgood h
  unfold classDoc
  split
  · split
    · simp (disch := decide) [hheader, over_own hgood]
    · apply Doc.over_join
      simp (disch := decide) [hheader, hbody, over_own hgood]
  · exact Doc.over_nil

theorem over_interfaceDoc (h : ∀ s ∈ m.wording, Over good s) : m.interfaceDoc.Over good := by
  obtain ⟨⟨hname, htype, -⟩, hargs⟩ := m.forall_mem_wording.mp h
  have hparams : (Doc.commaList (m.args.map (·.paramDoc))).Over good :=
    Doc.over_commaList hgood
      (List.forall_mem_map.mpr fun a ha => Property.over_paramDoc hgood (hargs a ha))
  unfold interfaceDoc
  split
  · simp (disch := decide) [hname, htype, hparams, over_own hgood]
  · exact Doc.over_nil

theorem over_join {methods : List Method} (h : ∀ m ∈ methods, ∀ s ∈ m.wording, Over good s) :
    (Doc.join (methods.map (·.classDoc))).Over good :=
  Doc.over_join (List.forall_mem_map.mpr fun m hm => over_classDoc hgood (h m hm))

end Method

/-! ### Decorators, enumerations and imports -/

theorem Decorator.over_doc {d : Decorator} (h : ∀ s ∈ d.wording, Over good s) :
    d.doc.Over good := by
  obtain ⟨htype, hoptions⟩ := d.forall_mem_wording.mp h
  have hentries : d.optionsDoc.Over good := by
    apply Doc.over_intercalate
    · simp (disch := decide) [over_own hgood]
    · refine List.forall_mem_map.mpr fun o ho => ?_
      obtain ⟨hname, hvalue⟩ := hoptions o ho
      simp (disch := decide) [DecoratorOption.doc, hname, hvalue, over_own hgood]
  unfold doc
  split
  · exact Doc.over_nil
  · apply Doc.over_join
    simp (disch := decide) [htype, hentries, over_own hgood]

theorem EnumMember.over_doc {m : EnumMember}
    (h : Over good m.name ∧ ∀ s, m.value = some s → Over good s) : m.doc.Over good := by
  unfold doc
  split
  · exact Doc.over_nil
  · cases hvalue : nonBlank m.value with
    | none => simp [h.1]
    | some v =>
      have hv := h.2 v (nonBlank_eq_some.mp hvalue).1
      simp (disch := decide) [h.1, hv, over_own hgood]

theorem Enumeration.over_doc {e : Enumeration} (h : ∀ s ∈ e.wording, Over good s) :
    e.doc.Over good := by
  obtain ⟨hname, hmembers⟩ := e.forall_mem_wording.mp h
  have hinner : e.membersDoc.Over good := by
    apply Doc.over_intercalate
    · simp (disch := decide) [over_own hgood]
    · refine List.forall_mem_map.mpr fun d hd => ?_
      obtain ⟨m, hm, rfl⟩ := List.mem_map.mp (List.mem_filter.mp hd).1
      simpa using EnumMember.over_doc hgood (hmembers m hm)
  unfold doc
  split
  · exact Doc.over_nil
  · apply Doc.over_join
    simp (disch := decide) [hname, hinner, over_own hgood]

theorem ImportGroups.over_doc {groups : ImportGroups}
    (h : ∀ g ∈ groups, Over good g.1 ∧ ∀ s ∈ g.2, Over good s) :
    (ImportGroups.doc groups).Over good := by
  apply Doc.over_join
  refine List.forall_mem_map.mpr fun g hg => ?_
  obtain ⟨hpath, hsymbols⟩ := h g hg
  have hlist : Doc.Over good ([Mark.text ",", Mark.space].intercalate
      (g.2.map fun s => [Mark.text s])) := by
    apply Doc.over_intercalate
    · simp (disch := decide) [over_own hgood]
    · exact List.forall_mem_map.mpr fun s hs => by simpa using hsymbols s hs
  simp (disch := decide) [statement, hpath, hlist, over_own hgood]

/-! ### Interfaces and classes -/

theorem Outline.over_extendsDoc {o : Outline} (h : ∀ s, o.parent = some s → Over good s) :
    o.extendsDoc.Over good := by
  unfold extendsDoc
  cases hs : o.supertype with
  | none => exact Doc.over_nil
  | some s => simp (disch := decide) [h s (nonBlank_eq_some.mp hs).1, over_own hgood]

theorem Interface.over_doc {i : Interface} (h : ∀ s ∈ i.wording, Over good s) :
    i.doc.Over good := by
  obtain ⟨hname, hparent, -, hproperties, hmethods⟩ := i.toOutline.forall_mem_wording.mp h
  have hextends := Outline.over_extendsDoc hgood hparent
  have hfields : (Doc.join (i.properties.map (·.interfaceDoc))).Over good :=
    Doc.over_join (List.forall_mem_map.mpr fun p hp =>
      Property.over_interfaceDoc hgood (hproperties p hp))
  have hsignatures : (Doc.join (i.methods.map (·.interfaceDoc))).Over good :=
    Doc.over_join (List.forall_mem_map.mpr fun m hm =>
      Method.over_interfaceDoc hgood (hmethods m hm))
  unfold doc
  split
  · exact Doc.over_nil
  · apply Doc.over_join
    simp (disch := decide) [hname, hextends, hfields, hsignatures, over_own hgood]

theorem over_quotedList {names : List String} (h : ∀ n ∈ names, Over good n) :
    (quotedList names).Over good := by
  apply Doc.over_intercalate
  · simp (disch := decide) [over_own hgood]
  · exact List.forall_mem_map.mpr fun n hn => by
      simp (disch := decide) [h n hn, over_own hgood]

theorem ConstructorStep.over_doc {s : ConstructorStep} (h : ∀ t ∈ s.texts, Over good t) :
    s.doc.Over good := by
  cases s with
  | callSuper args =>
    have hargs := Doc.over_texts hgood (show ∀ a ∈ args, Over good a from h)
    simp (disch := decide) [doc, hargs, over_own hgood]
  | tagClass field name =>
    simp only [texts, List.forall_mem_cons] at h
    obtain ⟨hfield, hname, -⟩ := h
    simp (disch := decide) [doc, hfield, hname, over_own hgood]
  | enlist field names =>
    obtain ⟨hfield, hnames⟩ := List.forall_mem_cons.mp h
    simp (disch := decide) [doc, hfield, over_quotedList hgood hnames, over_own hgood]
  | custom code => simpa [doc] using List.forall_mem_singleton.mp h

namespace Class

variable {c : Class} {v : Conventions}

theorem over_header (h : ∀ s ∈ c.wording, Over good s) : c.header.Over good := by
  obtain ⟨houtline, -, -, himplements, -⟩ := c.forall_mem_wording.mp h
  obtain ⟨hname, hparent, -⟩ := c.toOutline.forall_mem_wording.mp houtline
  have hextends := Outline.over_extendsDoc hgood hparent
  have hnames : c.implementsDoc.Over good := by
    unfold implementsDoc
    split
    · exact Doc.over_nil
    · have hlist := Doc.over_texts hgood
        fun n hn => himplements n (List.mem_filter (p := (!isBlank ·)).mp hn).1
      simp (disch := decide) [hlist, over_own hgood]
  cases habstract : c.isAbstract <;>
    simp (disch := decide) [header, habstract, hname, hextends, hnames, over_own hgood]

theorem over_rosterDoc (h : ∀ s ∈ c.wording, Over good s) (r : Roster) :
    (c.rosterDoc r).Over good := by
  have hfield := (over_ownNames hgood).roster r
  have hnames := over_quotedList hgood (c.forall_mem_names h r)
  unfold rosterDoc
  split <;> simp (disch := decide) [hfield, hnames, over_own hgood]

theorem over_constructorDoc (hv : ∀ s ∈ v.texts, Over good s)
    (h : ∀ s ∈ c.wording, Over good s) : (c.constructorDoc v).Over good := by
  obtain ⟨-, hargs, -⟩ := c.forall_mem_wording.mp h
  have hargsDoc : c.argsDoc.Over good := Property.over_args hgood hargs
  have hsteps : Doc.Over good ((c.constructorSteps v).flatMap ConstructorStep.lineDoc) := by
    apply Doc.over_flatMap
    intro s hs
    have hstep := ConstructorStep.over_doc hgood (forall_mem_texts (over_ownNames hgood) hv h s hs)
    simp [ConstructorStep.lineDoc, hstep]
  unfold constructorDoc
  split
  · simp (disch := decide) [hargsDoc, hsteps, over_own hgood]
  · exact Doc.over_nil

end Class

theorem BaseModel.over_of_mem_methods {c : Class} {m : Method} (hm : m ∈ methods c) :
    ∀ s ∈ m.wording, Over good s := by
  have hwords : ∀ s ∈ words, s.toList.all isPrintable = true := by decide
  exact forall_mem_wording (fun body hbody => over_own hgood (bodies_wellFormed .all body hbody).1)
    (fun s hs => over_own hgood (hwords s hs)) hm

theorem Class.over_doc {c : Class} {v : Conventions} (hv : ∀ s ∈ v.texts, Over good s)
    (h : ∀ s ∈ c.wording, Over good s) : (c.doc v).Over good := by
  obtain ⟨houtline, -, -, -, hdecorator, -⟩ := c.forall_mem_wording.mp h
  obtain ⟨-, -, -, hproperties, hmethods⟩ := c.toOutline.forall_mem_wording.mp houtline
  have hdecorated : Doc.Over good ((c.decorator.map (·.doc)).getD []) := by
    cases hd : c.decorator with
    | none => exact Doc.over_nil
    | some d => exact Decorator.over_doc hgood (hdecorator d hd)
  have hfields (isStatic : Bool) : (c.propertiesDoc v isStatic).Over good :=
    Doc.over_join (List.forall_mem_map.mpr fun p hp =>
      Property.over_classDoc hgood hv (hproperties p (List.mem_filter.mp hp).1))
  have hbodies (isStatic : Bool) : (c.methodsDoc isStatic).Over good :=
    Method.over_join hgood fun m hm => hmethods m (List.mem_filter.mp hm).1
  have hrosters : ∀ d ∈ c.rosterDocs, d.Over good := by
    unfold rosterDocs
    split
    · exact List.forall_mem_map.mpr fun r _ => over_rosterDoc hgood h r
    · simp
  have hmodel : c.modelDoc.Over good := by
    unfold modelDoc
    split
    · exact Method.over_join hgood fun m hm => BaseModel.over_of_mem_methods hgood hm
    · exact Doc.over_nil
  have hlast : Doc.Over good ["\x7d"] := by simp (disch := decide) [over_own hgood]
  unfold doc
  split
  · exact Doc.over_nil
  · apply Doc.over_join
    rw [forall_mem_parts]
    exact ⟨hdecorated, over_header hgood h, hfields true, hbodies true, hfields false, hrosters,
      over_constructorDoc hgood hv h, hmodel, hbodies false, hlast⟩

/-! ## Programs -/

/-- The characters of the texts of a program are those of its wording and printable ones. -/
theorem Program.over_doc {p : Program} (h : ∀ s ∈ p.wording, Over good s) : p.doc.Over good := by
  obtain ⟨hoptions, henums, hinterfaces, hclasses⟩ := p.forall_mem_wording.mp h
  have hconventions := Options.forall_mem_texts hoptions
  have himports : (ImportGroups.doc p.assembly.imports).Over good :=
    ImportGroups.over_doc hgood (p.forall_mem_imports h)
  have hblocks : (Doc.join p.assembly.blocks).Over good := by
    apply Doc.over_join
    rw [forall_mem_blocks]
    refine ⟨fun e he => Enumeration.over_doc hgood (henums e he),
      fun i hi => Interface.over_doc hgood (hinterfaces i hi), fun c hc => ?_⟩
    exact Class.over_doc hgood hconventions (forall_mem_written (fun _ _ h => h) hclasses c hc)
  exact Doc.over_join (by simp [himports, hblocks])

end Parts

end ModelScribe
