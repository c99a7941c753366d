-- Balanced programs. Part by part, a declaration closes the brackets that it
-- opens, whatever its flags and lists are: names, types and values lie within
-- a line, and a body lies between the line that opens it and the one that
-- closes it. What the generator adds of its own is balanced as well.
import ModelScribe.Proofs.Characters
import ModelScribe.Proofs.ClassText

namespace ModelScribe

open Text Brackets

variable {b : Brackets}

/-- Texts that stand in every program are seen to be balanced. -/
theorem Brackets.closed_fixed {s : String}
    (h : Brackets.all.Balanced s ∧ Brackets.braces.Balanced s) : b.Closed [.text s] :=
  (closed_text s).mpr (balanced_of_both h)

/-! ## Parts of a line -/

namespace Property

theorem whole_signature {p : Property} (h : ∀ s ∈ p.wording, b.Balanced s) :
    b.Whole p.signature := by
  obtain ⟨⟨hname, htype, -⟩, -⟩ := p.forall_mem_wording.mp h
  cases hoptional : p.optional <;>
    simp (disch := decide) [signature, hoptional, hname, htype, balanced_of_both]

theorem balanced_of_mem_defaultValue {p : Property} (h : ∀ s ∈ p.wording, b.Balanced s)
    {v : String} (hv : p.defaultValue = some v) : b.Balanced v := by
  obtain ⟨-, hvalue, -⟩ := p.forall_mem_wording.mp h
  exact hvalue v (nonBlank_eq_some.mp hv).1

theorem whole_initializer {value : Option String} (h : ∀ v, value = some v → b.Balanced v) :
    b.Whole (initializer value) := by
  cases value with
  | none => simp [initializer]
  | some v => simp (disch := decide) [initializer, h v rfl, balanced_of_both]

theorem whole_argDoc {p : Property} (h : ∀ s ∈ p.wording, b.Balanced s) : b.Whole p.argDoc := by
  unfold argDoc
  split
  · rw [whole_append]
    exact ⟨whole_signature h, whole_initializer fun v hv => balanced_of_mem_defaultValue h hv⟩
  · exact whole_nil

theorem whole_paramDoc {p : Property} (h : ∀ s ∈ p.wording, b.Balanced s) :
    b.Whole p.paramDoc := by
  unfold paramDoc
  split
  · exact whole_signature h
  · exact whole_nil

theorem whole_args {args : List Property} (h : ∀ a ∈ args, ∀ s ∈ a.wording, b.Balanced s) :
    b.Whole (Doc.commaList (args.map (·.argDoc))) :=
  whole_commaList (List.forall_mem_map.mpr fun a ha => whole_argDoc (h a ha))

theorem whole_params {args : List Property} (h : ∀ a ∈ args, ∀ s ∈ a.wording, b.Balanced s) :
    b.Whole (Doc.commaList (args.map (·.paramDoc))) :=
  whole_commaList (List.forall_mem_map.mpr fun a ha => whole_paramDoc (h a ha))

end Property

theorem Brackets.whole_texts {texts : List String} (h : ∀ s ∈ texts, b.Balanced s) :
    b.Whole (Doc.commaList (texts.map fun s => [Mark.text s])) :=
  whole_commaList (List.forall_mem_map.mpr fun s hs => by simpa using h s hs)

theorem Brackets.whole_quotedList {names : List String} (h : ∀ n ∈ names, b.Balanced n) :
    b.Whole (quotedList names) := by
  apply whole_intercalate
  · simp (disch := decide) [balanced_of_both]
  · exact List.forall_mem_map.mpr fun n hn => by
      simp (disch := decide) [h n hn, balanced_of_both]

theorem Outline.whole_extendsDoc {o : Outline} (h : ∀ s, o.parent = some s → b.Balanced s) :
    b.Whole o.extendsDoc := by
  unfold extendsDoc
  cases hs : o.supertype with
  | none => exact whole_nil
  | some s =>
    have hbalanced := h s (nonBlank_eq_some.mp hs).1
    simp (disch := decide) [hbalanced, balanced_of_both]

/-! ## Braces at the ends of a block -/

/-- A line that ends in an opening brace. -/
theorem Brackets.scan_opening {head : Doc} (h : b.Closed head) (due : List Char) :
    b.scan due (head ++ [Mark.space, .text "\x7b"]) = some ('\x7d' :: due) := by
  simp [h due]

/-- Statements between a line that opens a brace and the line that closes it. -/
theorem Brackets.closed_block {head : Doc} {body : List Doc}
    (hhead : ∀ due, b.scan due head = some ('\x7d' :: due)) (hbody : ∀ s ∈ body, b.Closed s) :
    b.Closed (Doc.block head body) := by
  have hlines : b.Closed (body.flatMap fun s => Doc.statement s ++ [Mark.line]) := by
    apply closed_flatMap
    intro s hs due
    simp [Doc.statement, hbody s hs due]
  intro due
  simp [Doc.block, Doc.closing, hhead due, hlines ('\x7d' :: due)]

/-! ## Members of a class -/

theorem AccessorStep.whole_doc {s : AccessorStep} (h : ∀ t ∈ s.texts, b.Balanced t) :
    b.Whole s.doc := by
  cases s <;>
    simp (disch := decide) [doc, List.forall_mem_singleton.mp h, balanced_of_both]

namespace PropertyMember

theorem balanced_staticWord (isStatic : Bool) : b.Balanced (staticWord isStatic) := by
  cases isStatic <;> exact balanced_of_both (by decide)

theorem whole_typeDoc {type : Option String} (h : ∀ t, type = some t → b.Balanced t) :
    b.Whole (typeDoc type) := by
  cases type with
  | none => exact whole_nil
  | some t => simp (disch := decide) [typeDoc, h t rfl, balanced_of_both]

theorem scan_getterLine {name access type : String} (isStatic : Bool) (hname : b.Balanced name)
    (haccess : b.Balanced access) (htype : b.Balanced type) (due : List Char) :
    b.scan due (getterLine isStatic name access type) = some ('\x7d' :: due) := by
  have hhead : b.Whole [.tab, .text access, .text (staticWord isStatic), .text "get ", .text name,
      .text "():", .space, .text type] := by
    simp (disch := decide) [hname, haccess, balanced_staticWord, htype, balanced_of_both]
  exact scan_opening hhead.closed due

theorem scan_setterLine {name access type : String} (isStatic : Bool) (hname : b.Balanced name)
    (haccess : b.Balanced access) (htype : b.Balanced type) (due : List Char) :
    b.scan due (setterLine isStatic name access type) = some ('\x7d' :: due) := by
  have hhead : b.Whole [.tab, .text access, .text (staticWord isStatic), .text "set ",
      .text name] := by
    simp (disch := decide) [hname, haccess, balanced_staticWord, balanced_of_both]
  have hvalue : b.Closed (.text "(value:" :: ([Mark.space, .text type] ++ [Mark.text ")"])) :=
    closed_between (balanced_of_both (by decide)) (Whole.closed (by simp [htype]))
  exact scan_opening (hhead.closed.append hvalue) due

theorem closed_doc {m : PropertyMember} (h : ∀ t ∈ m.texts, b.Balanced t) (isStatic : Bool) :
    b.Closed (m.doc isStatic) := by
  have hstatic := balanced_staticWord (b := b) isStatic
  cases m with
  | field name access type value =>
    simp only [texts, List.forall_mem_append, List.forall_mem_cons, Option.mem_toList] at h
    obtain ⟨⟨⟨hname, haccess, -⟩, htype⟩, hvalue⟩ := h
    have htypeDoc := whole_typeDoc htype
    have hinitializer := Property.whole_initializer hvalue
    apply Whole.closed
    simp (disch := decide) [doc, hname, haccess, hstatic, htypeDoc, hinitializer, balanced_of_both]
  | getter name access type body =>
    simp only [texts, List.forall_mem_append, List.forall_mem_cons] at h
    obtain ⟨⟨hname, haccess, htype, -⟩, hbody⟩ := h
    rw [doc_getter]
    apply closed_block (scan_getterLine isStatic hname haccess htype)
    simpa using (AccessorStep.whole_doc hbody).closed
  | setter name access type body =>
    simp only [texts, List.forall_mem_append, List.forall_mem_cons, List.forall_mem_flatMap] at h
    obtain ⟨⟨hname, haccess, htype, -⟩, hbody⟩ := h
    rw [doc_setter]
    apply closed_block (scan_setterLine isStatic hname haccess htype)
    exact List.forall_mem_map.mpr fun s hs => (AccessorStep.whole_doc (hbody s hs)).closed

end PropertyMember

/-- The names that the generator adds have no brackets. -/
theorem Brackets.balanced_ownNames : HoldsOfOwnNames b.Balanced where
  access := balanced_of_both (by decide)
  backingField _ h := (balanced_of_both (by decide)).append h
  roster r := by cases r <;> exact balanced_of_both (by decide)

namespace Property

variable {p : Property} {v : Conventions}

theorem closed_classDoc (hv : ∀ s ∈ v.texts, b.Balanced s) (h : ∀ s ∈ p.wording, b.Balanced s) :
    b.Closed (p.classDoc v) := by
  apply closed_join
  exact List.forall_mem_map.mpr fun m hm =>
    PropertyMember.closed_doc (forall_mem_texts balanced_ownNames hv h m hm) p.isStatic

theorem whole_interfaceDoc (h : ∀ s ∈ p.wording, b.Balanced s) : b.Whole p.interfaceDoc := by
  unfold interfaceDoc
  split
  · simp (disch := decide) [whole_signature h, balanced_of_both]
  · exact whole_nil

end Property

/-! ## Methods -/

namespace Method

variable {m : Method}

theorem closed_header (h : ∀ s ∈ m.wording, b.Balanced s) : b.Closed m.header := by
  obtain ⟨⟨hname, htype, -, hmodifier⟩, hargs⟩ := m.forall_mem_wording.mp h
  have hsplit : m.header = [Mark.tab, .text (if m.isAbstract then "abstract " else ""),
        .text m.modifier.text, .text (if m.isStatic then " static" else ""), .text " ",
        .text m.name]
      ++ (Mark.text "(" :: (Doc.commaList (m.args.map (·.argDoc)) ++ [Mark.text "):"]))
      ++ [Mark.space, .text m.type] := by
    cases habstract : m.isAbstract <;> cases hstatic : m.isStatic <;>
      simp [header, habstract, hstatic]
  rw [hsplit]
  apply Closed.append
  · apply Closed.append
    · apply Whole.closed
      cases m.isAbstract <;> cases m.isStatic <;>
        simp (disch := decide) [hname, hmodifier, balanced_of_both]
    · exact closed_between (balanced_of_both (by decide)) (Property.whole_args hargs).closed
  · exact Whole.closed (by simp [htype])

theorem closed_classDoc (h : ∀ s ∈ m.wording, b.Balanced s) : b.Closed m.classDoc := by
  obtain ⟨⟨-, -, hbody, -⟩, -⟩ := m.forall_mem_wording.mp h
  have hheader := closed_header h
  unfold classDoc
  split
  · split
    · intro due
      have hend : b.run due ";" = some due := (balanced_of_both (by decide)).run_eq due
      simp [hheader due, hend]
    · -- the closing brace stands behind a tab, so the body is not between bare braces
      intro due
      rw [scan_join]
      simp [hheader due, hbody.run_eq]
  · exact closed_nil

theorem closed_interfaceDoc (h : ∀ s ∈ m.wording, b.Balanced s) : b.Closed m.interfaceDoc := by
  obtain ⟨⟨hname, htype, -⟩, hargs⟩ := m.forall_mem_wording.mp h
  have hparams := (Property.whole_params hargs).closed
  unfold interfaceDoc
  split
  · have hsplit : Doc.cat [[.tab, .text m.name, .text "("],
          Doc.commaList (m.args.map (·.paramDoc)), [.text "):", .space, .text m.type, .text ";"]]
        = [Mark.tab, .text m.name]
          ++ (Mark.text "(" :: (Doc.commaList (m.args.map (·.paramDoc)) ++ [Mark.text "):"]))
          ++ [Mark.space, .text m.type, .text ";"] := by
      simp
    rw [hsplit]
    apply Closed.append
    · apply Closed.append
      · exact Whole.closed (by simp [hname])
      · exact closed_between (balanced_of_both (by decide)) hparams
    · apply Whole.closed
      simp (disch := decide) [htype, balanced_of_both]
  · exact closed_nil

theorem closed_join {methods : List Method} (h : ∀ m ∈ methods, ∀ s ∈ m.wording, b.Balanced s) :
    b.Closed (Doc.join (methods.map (·.classDoc))) :=
  Brackets.closed_join (List.forall_mem_map.mpr fun m hm => closed_classDoc (h m hm))

end Method

theorem BaseModel.balanced_of_mem_methods {c : Class} {m : Method} (hm : m ∈ methods c) :
    ∀ s ∈ m.wording, b.Balanced s := by
  have hwords : ∀ s ∈ words, Brackets.all.Balanced s ∧ Brackets.braces.Balanced s := by decide
  exact forall_mem_wording (fun body hbody => (bodies_wellFormed b body hbody).2.2)
    (fun s hs => balanced_of_both (hwords s hs)) hm

/-! ## Decorators, enumerations and imports -/

theorem DecoratorOption.whole_doc {o : DecoratorOption} (hname : b.Balanced o.name)
    (hvalue : b.Balanced o.value) : b.Whole o.doc := by
  simp (disch := decide) [doc, hname, hvalue, balanced_of_both]

theorem Decorator.closed_doc {d : Decorator} (h : ∀ s ∈ d.wording, b.Balanced s) :
    b.Closed d.doc := by
  obtain ⟨htype, hoptions⟩ := d.forall_mem_wording.mp h
  have hentries : b.Closed d.optionsDoc := by
    apply Whole.closed
    apply whole_intercalate
    · simp (disch := decide) [balanced_of_both]
    · exact List.forall_mem_map.mpr fun o ho =>
        DecoratorOption.whole_doc (hoptions o ho).1 (hoptions o ho).2
  have hcall : b.Balanced ("(\x7b" ++ "\x7d)") := balanced_of_both (by decide)
  have hat : ∀ due, b.run due "@" = some due := (balanced_of_both (by decide)).run_eq
  have hwhole := closed_between hcall hentries
  unfold doc
  split
  · exact closed_nil
  · intro due
    rw [scan_join]
    simpa [hat, htype.run_eq] using hwhole due

theorem EnumMember.whole_doc {m : EnumMember}
    (h : b.Balanced m.name ∧ ∀ s, m.value = some s → b.Balanced s) : b.Whole m.doc := by
  unfold doc
  split
  · exact whole_nil
  · cases hvalue : nonBlank m.value with
    | none => simp [h.1]
    | some v =>
      have hv := h.2 v (nonBlank_eq_some.mp hvalue).1
      simp (disch := decide) [h.1, hv, balanced_of_both]

theorem Enumeration.scan_header {e : Enumeration} (hname : b.Balanced e.name) (due : List Char) :
    b.scan due [.text "export enum ", .text e.name, .space, .text "\x7b"]
      = some ('\x7d' :: due) := by
  have hhead : b.Whole [.text "export enum ", .text e.name] := by
    simp (disch := decide) [hname, balanced_of_both]
  exact scan_opening hhead.closed due

theorem Enumeration.closed_doc {e : Enumeration} (h : ∀ s ∈ e.wording, b.Balanced s) :
    b.Closed e.doc := by
  obtain ⟨hname, hmembers⟩ := e.forall_mem_wording.mp h
  have hinner : b.Whole e.membersDoc := by
    apply whole_intercalate
    · simp (disch := decide) [balanced_of_both]
    · refine List.forall_mem_map.mpr fun d hd => ?_
      obtain ⟨m, hm, rfl⟩ := List.mem_map.mp (List.mem_filter.mp hd).1
      simpa using EnumMember.whole_doc (hmembers m hm)
  unfold doc
  split
  · exact closed_nil
  · exact closed_join_braces (scan_header hname)
      (List.forall_mem_singleton.mpr hinner.closed)

namespace ImportGroups

theorem closed_statement {group : String × List String}
    (h : b.Balanced group.1 ∧ ∀ s ∈ group.2, b.Balanced s) : b.Closed (statement group) := by
  have hsymbols : b.Closed ([Mark.space] ++ [Mark.text ",", Mark.space].intercalate
      (group.2.map fun s => [Mark.text s]) ++ [Mark.space]) := by
    have hwhole : b.Whole ([Mark.text ",", Mark.space].intercalate
        (group.2.map fun s => [Mark.text s])) := by
      apply whole_intercalate
      · simp (disch := decide) [balanced_of_both]
      · exact List.forall_mem_map.mpr fun s hs => by simpa using h.2 s hs
    exact Whole.closed (by simp [hwhole])
  have hsplit : statement group = [Mark.text "import", .space]
      ++ (Mark.text "\x7b" :: (([Mark.space] ++ [Mark.text ",", Mark.space].intercalate
        (group.2.map fun s => [Mark.text s]) ++ [Mark.space]) ++ [Mark.text "\x7d"]))
      ++ [Mark.space, .text "from", .space, .text "'", .text group.1, .text "';"] := by
    simp [statement]
  rw [hsplit]
  apply Closed.append
  · apply Closed.append
    · apply Whole.closed
      simp (disch := decide) [balanced_of_both]
    · exact closed_between (balanced_of_both (by decide)) hsymbols
  · apply Whole.closed
    simp (disch := decide) [h.1, balanced_of_both]

theorem closed_doc {groups : ImportGroups}
    (h : ∀ g ∈ groups, b.Balanced g.1 ∧ ∀ s ∈ g.2, b.Balanced s) :
    b.Closed (ImportGroups.doc groups) :=
  closed_join (List.forall_mem_map.mpr fun g hg => closed_statement (h g hg))

end ImportGroups

/-! ## Interfaces and classes -/

theorem Interface.scan_header {i : Interface} (hname : b.Balanced i.name)
    (hparent : ∀ s, i.parent = some s → b.Balanced s) (due : List Char) :
    b.scan due (Doc.cat [[.text "export interface ", .text i.name], i.extendsDoc,
      [.space, .text "\x7b"]]) = some ('\x7d' :: due) := by
  have hhead : b.Whole ([Mark.text "export interface ", .text i.name] ++ i.extendsDoc) := by
    simp (disch := decide) [hname, Outline.whole_extendsDoc hparent, balanced_of_both]
  have hopening := scan_opening hhead.closed due
  simpa using hopening

theorem Interface.closed_doc {i : Interface} (h : ∀ s ∈ i.wording, b.Balanced s) :
    b.Closed i.doc := by
  obtain ⟨hname, hparent, -, hproperties, hmethods⟩ := i.toOutline.forall_mem_wording.mp h
  have hparts : ∀ d ∈ [Doc.join (i.properties.map (·.interfaceDoc)),
      Doc.join (i.methods.map (·.interfaceDoc))], b.Closed d := by
    simp only [List.forall_mem_cons]
    refine ⟨?_, ?_, by simp⟩
    · exact closed_join (List.forall_mem_map.mpr fun p hp =>
        (Property.whole_interfaceDoc (hproperties p hp)).closed)
    · exact closed_join (List.forall_mem_map.mpr fun m hm =>
        Method.closed_interfaceDoc (hmethods m hm))
  unfold doc
  split
  · exact closed_nil
  · exact closed_join_braces (scan_header hname hparent) hparts

namespace ConstructorStep

theorem closed_doc {s : ConstructorStep} (h : ∀ t ∈ s.texts, b.Balanced t) :
    b.Closed s.doc := by
  cases s with
  | callSuper args =>
    have hcall := closed_between (balanced_of_both (by decide) : b.Balanced ("super(" ++ ");"))
      (whole_texts (show ∀ a ∈ args, b.Balanced a from h)).closed
    simpa [doc] using hcall
  | tagClass field name =>
    simp only [texts, List.forall_mem_cons] at h
    obtain ⟨hfield, hname, -⟩ := h
    apply Whole.closed
    simp (disch := decide) [doc, hfield, hname, balanced_of_both]
  | enlist field names =>
    obtain ⟨hfield, hnames⟩ := List.forall_mem_cons.mp h
    have hsplit : (enlist field names).doc
        = [Mark.text "this.", .text field, .space, .text "=", .space]
          ++ (Mark.text "[" :: (([Mark.space, .text "...this.", .text field, .text ",", .space]
            ++ quotedList names ++ [Mark.space]) ++ [Mark.text "];"])) := by
      simp [doc]
    rw [hsplit]
    apply Closed.append
    · apply Whole.closed
      simp (disch := decide) [hfield, balanced_of_both]
    · apply closed_between (balanced_of_both (by decide))
      apply Whole.closed
      simp (disch := decide) [hfield, whole_quotedList hnames, balanced_of_both]
  | custom code => exact (closed_text code).mpr (List.forall_mem_singleton.mp h)

end ConstructorStep

namespace Class

variable {c : Class} {v : Conventions}

theorem whole_implementsDoc (h : ∀ n ∈ c.implements, b.Balanced n) : b.Whole c.implementsDoc := by
  unfold implementsDoc
  split
  · exact whole_nil
  · have hnames : ∀ n ∈ c.implements.filter (!isBlank ·), b.Balanced n :=
      fun n hn => h n (List.mem_filter.mp hn).1
    simp (disch := decide) [whole_texts hnames, balanced_of_both]

theorem scan_header (h : ∀ s ∈ c.wording, b.Balanced s) (due : List Char) :
    b.scan due c.header = some ('\x7d' :: due) := by
  obtain ⟨houtline, -, -, himplements, -, -⟩ := c.forall_mem_wording.mp h
  obtain ⟨hname, hparent, -⟩ := c.toOutline.forall_mem_wording.mp houtline
  have hextends := Outline.whole_extendsDoc hparent
  have hsplit : c.header
      = ([Mark.text "export", .text (if c.isAbstract then " abstract" else ""), .text " class ",
          .text c.name] ++ c.extendsDoc ++ c.implementsDoc) ++ [Mark.space, .text "\x7b"] := by
    cases habstract : c.isAbstract <;> simp [header, habstract]
  rw [hsplit]
  apply scan_opening
  apply Whole.closed
  cases c.isAbstract <;>
    simp (disch := decide) [hname, hextends, whole_implementsDoc himplements, balanced_of_both]

theorem closed_rosterDoc (h : ∀ s ∈ c.wording, b.Balanced s) (r : Roster) :
    b.Closed (c.rosterDoc r) := by
  have hnames := whole_quotedList (c.forall_mem_names h r)
  have hlist : b.Closed (if (r.names c).isEmpty then [.text "[]"]
      else Doc.cat [[.text "[", .space], quotedList (r.names c), [.space, .text "]"]]) := by
    split
    · exact closed_fixed (by decide)
    · have hwhole : b.Whole (.space :: (quotedList (r.names c) ++ [Mark.space])) := by simp [hnames]
      have hinner := closed_between (balanced_of_both (by decide) : b.Balanced ("[" ++ "]"))
        hwhole.closed
      simpa using hinner
  have hroster : b.Balanced r.field := balanced_ownNames.roster r
  have hfield : b.Whole [.tab, .text "protected ", .text r.field, .text ":", .space,
      .text "string[]", .space, .text "=", .space] := by
    simp (disch := decide) [hroster, balanced_of_both]
  have hend : b.Closed [.text ";"] := closed_fixed (by decide)
  unfold rosterDoc
  simpa only [Doc.cat, List.flatten_cons, List.flatten_nil, List.append_nil]
    using hfield.closed.append (hlist.append hend)

theorem scan_opening (h : ∀ s ∈ c.wording, b.Balanced s) (due : List Char) :
    b.scan due c.opening = some ('\x7d' :: due) := by
  obtain ⟨-, hargs, -⟩ := c.forall_mem_wording.mp h
  have hargsDoc : b.Closed c.argsDoc := (Property.whole_args hargs).closed
  have hcall := closed_between
    (balanced_of_both (by decide) : b.Balanced ("constructor(" ++ ")")) hargsDoc
  have hopening := Brackets.scan_opening hcall due
  simpa [opening] using hopening

theorem closed_constructorDoc (hv : ∀ s ∈ v.texts, b.Balanced s)
    (h : ∀ s ∈ c.wording, b.Balanced s) : b.Closed (c.constructorDoc v) := by
  have hsteps := forall_mem_texts balanced_ownNames hv h
  cases hconstructor : c.hasConstructor with
  | false => simp [constructorDoc, hconstructor]
  | true =>
    rw [constructorDoc_eq v hconstructor]
    apply closed_block (scan_opening h)
    exact List.forall_mem_map.mpr fun s hs => ConstructorStep.closed_doc (hsteps s hs)

theorem closed_doc (hv : ∀ s ∈ v.texts, b.Balanced s) (h : ∀ s ∈ c.wording, b.Balanced s) :
    b.Closed (c.doc v) := by
  obtain ⟨houtline, -, -, -, hdecorator, -⟩ := c.forall_mem_wording.mp h
  obtain ⟨-, -, -, hproperties, hmethods⟩ := c.toOutline.forall_mem_wording.mp houtline
  have hdecorated : b.Closed ((c.decorator.map (·.doc)).getD []) := by
    cases hd : c.decorator with
    | none => exact closed_nil
    | some d => exact Decorator.closed_doc (hdecorator d hd)
  have hfields (isStatic : Bool) : b.Closed (c.propertiesDoc v isStatic) :=
    closed_join (List.forall_mem_map.mpr fun p hp =>
      Property.closed_classDoc hv (hproperties p (List.mem_filter.mp hp).1))
  have hbodies (isStatic : Bool) : b.Closed (c.methodsDoc isStatic) :=
    Method.closed_join fun m hm => hmethods m (List.mem_filter.mp hm).1
  have hrosters : ∀ d ∈ c.rosterDocs, b.Closed d := by
    unfold rosterDocs
    split
    · exact List.forall_mem_map.mpr fun r _ => closed_rosterDoc h r
    · simp
  have hmodel : b.Closed c.modelDoc := by
    unfold modelDoc
    split
    · exact Method.closed_join fun m hm => BaseModel.balanced_of_mem_methods hm
    · exact closed_nil
  have hinner : ∀ d ∈ [c.propertiesDoc v true, c.methodsDoc true, c.propertiesDoc v false]
      ++ c.rosterDocs ++ [c.constructorDoc v, c.modelDoc, c.methodsDoc false], b.Closed d := by
    simp only [List.forall_mem_append, List.forall_mem_cons]
    exact ⟨⟨⟨hfields true, hbodies true, hfields false, by simp⟩, hrosters⟩,
      closed_constructorDoc hv h, hmodel, hbodies false, by simp⟩
  have hparts : c.parts v = (c.decorator.map (·.doc)).getD []
      :: (c.header :: ([c.propertiesDoc v true, c.methodsDoc true, c.propertiesDoc v false]
        ++ c.rosterDocs ++ [c.constructorDoc v, c.modelDoc, c.methodsDoc false])
        ++ [[Mark.text "\x7d"]]) := by
    simp [parts]
  unfold doc
  split
  · exact closed_nil
  · intro due
    rw [scan_join, hparts, List.foldlM_cons, hdecorated due]
    exact foldlM_scan_braces (scan_header h) hinner due

end Class

/-! ## Programs -/

namespace Program

/-- Balanced in, balanced out: where the brackets of every text of a program match, those of its
output do, in every layout. -/
theorem brackets_of_the_output_match (p : Program) (h : ∀ s ∈ p.wording, Brackets.all.Balanced s) :
    Brackets.all.Balanced p.generate.output := by
  obtain ⟨hoptions, henums, hinterfaces, hclasses⟩ := p.forall_mem_wording.mp h
  have hconventions := Options.forall_mem_texts hoptions
  have himports : Brackets.all.Closed (ImportGroups.doc p.assembly.imports) :=
    ImportGroups.closed_doc (p.forall_mem_imports h)
  have hblocks : Brackets.all.Closed (Doc.join p.assembly.blocks) := by
    apply closed_join
    rw [forall_mem_blocks]
    refine ⟨fun e he => Enumeration.closed_doc (henums e he),
      fun i hi => Interface.closed_doc (hinterfaces i hi), fun c hc => ?_⟩
    exact Class.closed_doc hconventions (forall_mem_written (fun _ _ h => h) hclasses c hc)
  have hdoc : Brackets.all.Closed p.doc := by
    apply closed_join
    simp [himports, hblocks]
  unfold Brackets.Balanced generate
  rw [run_write]
  exact hdoc []

/-- A base model with a decorator, a setter of its own, a method and a constructor, in a compact
layout. -/
theorem the_brackets_of_a_base_model_match :
    let p : Program := {
      options := { prettify := false, classField := some "tags['class']" }
      enums := [{ name := "Side", members := [{ name := "Left", value := some "(1 << 0)" }] }]
      classes := [{
        name := "Node", parent := some "Root<[number]>", isBaseModel := true, canClone := true
        canUndo := true, args := [.named "x"], superArgs := ["f(x)"]
        imports := [{ name := "Root", path := "./root" }]
        decorator := some ((Decorator.ofType "Entity").withOption "table" "\x7b a: [1] \x7d")
        properties := [(Property.named "size").withSetter "if (value) \x7b this.set([value]); \x7d"]
        methods := [(Method.named "area").withBody "return f(\x7b\x7d);"]
        constructorCode := some "this.init(() => \x7b\x7d);" }] }
    (∀ s ∈ p.wording, Brackets.all.Balanced s) ∧ Brackets.all.Balanced p.generate.output := by
  intro p
  have hwording : ∀ s ∈ p.wording, Brackets.all.Balanced s := by decide +kernel
  exact ⟨hwording, brackets_of_the_output_match p hwording⟩

end Program

end ModelScribe
