-- Separators in programs. Part by part, a declaration leaves nothing missing
-- behind it: lists drop their blank entries before a comma is written, and a
-- keyword with a space behind it is followed by a name. So in an output every
-- comma stands between two entries, and where the texts from outside have no
-- white space, every space of a compact output stands between two words.
import ModelScribe.Proofs.Indentation
import ModelScribe.Proofs.Preamble
import ModelScribe.Proofs.Separators
import ModelScribe.Proofs.WhiteSpace

namespace ModelScribe

open Text Separator

variable {s : Separator}

/-! ## Words of the generator -/

namespace Separator

theorem rests_opening : s.Rests [.space, .text "\x7b"] := rests_own (by decide)

theorem rests_closing : s.Rests [.text "\x7d"] := rests_own (by decide)

theorem rests_semicolon : s.Rests [.text ";"] := rests_own (by decide)

theorem item_quoted {n : String} (h : s.Accepts n) : s.Item ["'", .text n, "'"] := by
  have hquote : s.Item [.text "'"] := item_own (by decide)
  exact hquote.append ((calm_text h).append hquote.calm).scan_item

/-- The names that the generator adds can stand anywhere. -/
theorem accepts_ownNames : HoldsOfOwnNames s.Accepts where
  access := accepts_own (by decide)
  backingField _ h := (accepts_own (by decide)).append h
  roster r := by cases r <;> exact accepts_own (by decide)

end Separator

/-! ## Parts of a line -/

namespace Property

variable {p : Property}

theorem item_signature (h : ∀ t ∈ p.wording, s.Accepts t) (hnamed : p.isNamed = true) :
    s.Item p.signature := by
  obtain ⟨⟨hname, htype, -⟩, -⟩ := p.forall_mem_wording.mp h
  have hbehind : s.Calm [if p.optional then "?" else "", ":", .space, .text p.type] := by
    apply calm_of_marks
    cases p.optional <;> simp (disch := decide) [calm_text htype, calm_own]
  exact (item_text hname (by simpa [isNamed] using hnamed)).append hbehind.scan_item

theorem calm_initializer {value : Option String} (h : ∀ v, value = some v → s.Accepts v) :
    s.Calm (initializer value) := by
  apply calm_of_marks
  cases value with
  | none => simp [initializer]
  | some v => simp (disch := decide) [initializer, calm_text (h v rfl), calm_own]

theorem calm_args {args : List Property} (h : ∀ a ∈ args, ∀ t ∈ a.wording, s.Accepts t) :
    s.Calm (Doc.commaList (args.map (·.argDoc))) := by
  refine calm_commaList (List.forall_mem_map.mpr fun a ha hvisible => ?_)
  unfold argDoc at hvisible ⊢
  split at hvisible
  · obtain ⟨-, hvalue, -⟩ := a.forall_mem_wording.mp (h a ha)
    rw [if_pos ‹_›]
    exact (item_signature (h a ha) ‹_›).append
      (calm_initializer fun v hv => hvalue v (nonBlank_eq_some.mp hv).1).scan_item
  · cases hvisible

theorem calm_params {args : List Property} (h : ∀ a ∈ args, ∀ t ∈ a.wording, s.Accepts t) :
    s.Calm (Doc.commaList (args.map (·.paramDoc))) := by
  refine calm_commaList (List.forall_mem_map.mpr fun a ha hvisible => ?_)
  unfold paramDoc at hvisible ⊢
  split at hvisible
  · rw [if_pos ‹_›]
    exact item_signature (h a ha) ‹_›
  · cases hvisible

theorem rests_interfaceDoc (h : ∀ t ∈ p.wording, s.Accepts t) : s.Rests p.interfaceDoc := by
  unfold interfaceDoc
  split
  · simpa using rests_tab.append ((item_signature h ‹_›).rests.append rests_semicolon)
  · exact rests_nil

end Property

/-! ## Members of a class -/

/-- An access word in front of an item. -/
theorem Separator.rests_declared {access : String} {d : Doc} (isStatic : Bool)
    (haccess : s.Accepts access) (hne : s = .space → access ≠ "") (hd : s.Item d) :
    s.Rests ([Mark.tab, .text access, .text (PropertyMember.staticWord isStatic)] ++ d) := by
  refine Leads.append ?_ hd
  cases s with
  | comma =>
    have hstatic : comma.Calm [.text (PropertyMember.staticWord isStatic)] := by
      cases isStatic <;> decide
    apply Rests.leads
    apply rests_of_marks
    simp [rests_text haccess, hstatic.rests]
  | space =>
    have hword : space.Item [.tab, .text access] :=
      calm_tab.item (item_text haccess (isBlank_of_accepts haccess (hne rfl)))
    exact hword.leads (by cases isStatic <;> decide)

theorem AccessorStep.rests_lineDoc {a : AccessorStep} (h : ∀ t ∈ a.texts, s.Accepts t) :
    s.Rests a.lineDoc := by
  have hdoc : s.Calm a.doc := by
    apply calm_of_marks
    cases a <;>
      simp (disch := decide) [doc, calm_text (List.forall_mem_singleton.mp h), calm_own]
  exact (rests_tab.append rests_tab).append (hdoc.rests.append rests_line)

namespace PropertyMember

/-- The member has a name, and where words count, a word for its access. -/
def Worded (s : Separator) : PropertyMember → Prop
  | .field name access _ _ | .getter name access _ _ | .setter name access _ _ =>
    isBlank name = false ∧ (s = .space → access ≠ "")

theorem calm_typeDoc {type : Option String} (h : ∀ t, type = some t → s.Accepts t) :
    s.Calm (typeDoc type) := by
  apply calm_of_marks
  cases type with
  | none => simp [typeDoc]
  | some t => simp (disch := decide) [typeDoc, calm_text (h t rfl), calm_own]

theorem rests_doc {m : PropertyMember} (h : ∀ t ∈ m.texts, s.Accepts t) (hm : m.Worded s)
    (isStatic : Bool) : s.Rests (m.doc isStatic) := by
  have hlast : s.Rests ([Mark.tab] ++ [Mark.text "\x7d"]) := rests_tab.append rests_closing
  cases m with
  | field name access type value =>
    simp only [texts, List.forall_mem_append, List.forall_mem_cons, Option.mem_toList] at h
    obtain ⟨⟨⟨hname, haccess, -⟩, htype⟩, hvalue⟩ := h
    have hhead := rests_declared isStatic haccess hm.2 (item_text hname hm.1)
    have hbehind := (calm_typeDoc htype).append (Property.calm_initializer hvalue)
    simpa [doc] using hhead.append (hbehind.rests.append rests_semicolon)
  | getter name access type body =>
    simp only [texts, List.forall_mem_append, List.forall_mem_cons] at h
    obtain ⟨⟨hname, haccess, htype, -⟩, hbody⟩ := h
    have hget : s.Item ([Mark.text "get "] ++ [Mark.text name]) :=
      Passes.item (passes_own (by decide)) (item_text hname hm.1)
    have hhead := rests_declared isStatic haccess hm.2 hget
    have hbehind : s.Rests ["():", .space, type, .space, "\x7b", .line] := by
      apply rests_of_marks
      simp (disch := decide) [rests_text htype, rests_own]
    have hline := AccessorStep.rests_lineDoc hbody
    simpa [doc] using hhead.append (hbehind.append (hline.append hlast))
  | setter name access type body =>
    simp only [texts, List.forall_mem_append, List.forall_mem_cons, List.forall_mem_flatMap] at h
    obtain ⟨⟨hname, haccess, htype, -⟩, hbody⟩ := h
    have hset : s.Item ([Mark.text "set "] ++ [Mark.text name]) :=
      Passes.item (passes_own (by decide)) (item_text hname hm.1)
    have hhead := rests_declared isStatic haccess hm.2 hset
    have hbehind : s.Rests ["(value:", .space, type, ")", .space, "\x7b", .line] := by
      apply rests_of_marks
      simp (disch := decide) [rests_text htype, rests_own]
    have hlines := rests_flatMap fun a ha => AccessorStep.rests_lineDoc (hbody a ha)
    simpa [doc] using hhead.append (hbehind.append (hlines.append hlast))

end PropertyMember

namespace Property

variable {p : Property} {v : Conventions}

theorem worded_of_mem_members (hmodifier : s = .space → p.modifier.text ≠ "") :
    ∀ m ∈ p.members v, m.Worded s := by
  have hname (h : p.isNamed = true) : isBlank p.name = false := by simpa [isNamed] using h
  have hfield (h : p.isNamed = true) : (p.field v).Worded s := by
    unfold field
    cases p.isPlain with
    | true => exact ⟨hname h, hmodifier⟩
    | false => exact ⟨by simp [backingField, hname h], fun _ => by decide⟩
  exact forall_mem_members hfield (fun h _ => ⟨hname h, hmodifier⟩) fun h _ => ⟨hname h, hmodifier⟩

theorem rests_classDoc (hv : ∀ t ∈ v.texts, s.Accepts t) (h : ∀ t ∈ p.wording, s.Accepts t)
    (hmodifier : s = .space → p.modifier.text ≠ "") : s.Rests (p.classDoc v) := by
  apply rests_join
  exact List.forall_mem_map.mpr fun m hm => PropertyMember.rests_doc
    (forall_mem_texts accepts_ownNames hv h m hm) (worded_of_mem_members hmodifier m hm) p.isStatic

end Property

/-! ## Methods -/

namespace Method

variable {m : Method}

theorem rests_header (h : s.Accepts m.name ∧ s.Accepts m.type ∧ s.Accepts m.modifier.text)
    (hargs : ∀ a ∈ m.args, ∀ t ∈ a.wording, s.Accepts t) (hnamed : m.isNamed = true)
    (hne : s = .space → m.modifier.text ≠ "") : s.Rests m.header := by
  obtain ⟨hname, htype, hmodifier⟩ := h
  have hwords : s.Leads (([Mark.tab, if m.isAbstract then .text "abstract " else .text ""]
      ++ [Mark.text m.modifier.text])
      ++ [if m.isStatic then Mark.text " static" else .text "", .text " "]) := by
    cases s with
    | comma =>
      have habstract :
          comma.Rests [.tab, if m.isAbstract then .text "abstract " else .text ""] := by
        cases m.isAbstract <;> decide
      have hstatic : comma.Rests [if m.isStatic then .text " static" else .text "", .text " "] := by
        cases m.isStatic <;> decide
      exact ((habstract.append (rests_text hmodifier)).append hstatic).leads
    | space =>
      have habstract :
          space.Passes [.tab, if m.isAbstract then .text "abstract " else .text ""] := by
        cases m.isAbstract <;> decide
      have hitem := item_text hmodifier (isBlank_of_accepts hmodifier (hne rfl))
      exact (habstract.item hitem).leads (by cases m.isStatic <;> decide)
  have hcall : s.Rests [.text "("] := rests_own (by decide)
  have hbehind : s.Rests ["):", .space, .text m.type] := by
    apply rests_of_marks
    simp (disch := decide) [rests_text htype, rests_own]
  have hline := hwords.append (item_text hname (by simpa [isNamed] using hnamed))
  simpa [header] using hline.append (hcall.append ((Property.calm_args hargs).rests.append hbehind))

/-- The body may be any text that leaves nothing missing. -/
theorem rests_classDoc (h : s.Accepts m.name ∧ s.Accepts m.type ∧ s.Accepts m.modifier.text)
    (hargs : ∀ a ∈ m.args, ∀ t ∈ a.wording, s.Accepts t) (hbody : s.Rests [.text m.body])
    (hne : s = .space → m.modifier.text ≠ "") : s.Rests m.classDoc := by
  unfold classDoc
  split
  · have hheader := rests_header h hargs ‹_› hne
    split
    · simpa using hheader.append rests_semicolon
    · apply rests_join
      simp only [List.forall_mem_cons]
      exact ⟨by simpa using hheader.append rests_opening, rests_tab.append (rests_tab.append hbody),
        rests_tab.append rests_closing, by simp⟩
  · exact rests_nil

theorem rests_of_wording (h : ∀ t ∈ m.wording, s.Accepts t)
    (hne : s = .space → m.modifier.text ≠ "") : s.Rests m.classDoc := by
  obtain ⟨⟨hname, htype, hbody, hmodifier⟩, hargs⟩ := m.forall_mem_wording.mp h
  exact rests_classDoc ⟨hname, htype, hmodifier⟩ hargs (rests_text hbody) hne

theorem rests_interfaceDoc (h : ∀ t ∈ m.wording, s.Accepts t) : s.Rests m.interfaceDoc := by
  obtain ⟨⟨hname, htype, -⟩, hargs⟩ := m.forall_mem_wording.mp h
  have hcall : s.Rests [.tab, .text m.name, .text "("] := by
    apply rests_of_marks
    simp (disch := decide) [rests_text hname, rests_own]
  have hbehind : s.Rests ["):", .space, .text m.type, ";"] := by
    apply rests_of_marks
    simp (disch := decide) [rests_text htype, rests_own]
  unfold interfaceDoc
  split
  · simpa using hcall.append ((Property.calm_params hargs).rests.append hbehind)
  · exact rests_nil

end Method

/-- The bodies of the methods that base models carry have commas and spaces of their own. -/
theorem BaseModel.rests_of_mem_bodies : ∀ body ∈ bodies, s.Rests [.text body] := by
  have hall : ∀ body ∈ bodies, ∀ f, f ≠ .due → ∃ g, s.run f body = some g ∧ g ≠ .due := by
    unfold bodies registerPropertyBody registerPropertiesBody cloneBody toObjectBody
      parseObjectBody snapshotCode commitBody revertBody run
    iterate 8 rw [List.forall_mem_cons]
    rw [if_pos rfl, if_neg Bool.false_ne_true]
    repeat rw [String.toList_append]
    repeat rw [String.toList_ofList]
    cases s <;> refine ⟨?_, ?_, ?_, ?_, ?_, ?_, ?_, ?_, by simp⟩ <;> decide +kernel
  intro body hbody f hf
  rw [scan_text]
  exact hall body hbody f hf

theorem BaseModel.rests_of_mem_methods {c : Class} {m : Method} (hm : m ∈ methods c) :
    s.Rests m.classDoc := by
  have hwords : ∀ t ∈ words, s.Accepts t ∧ t ≠ "" := by
    cases s <;> decide
  obtain ⟨⟨hname, htype, hmodifier⟩, hargs⟩ := mem_words hm
  exact Method.rests_classDoc
    ⟨(hwords _ hname).1, (hwords _ htype).1, (hwords _ hmodifier).1⟩
    (fun a ha t ht => (hwords t (hargs a ha t ht)).1) (rests_of_mem_bodies _ (mem_bodies hm))
    fun _ => (hwords _ hmodifier).2

/-! ## Decorators, enumerations and imports -/

theorem DecoratorOption.item_doc {o : DecoratorOption} (hname : s.Accepts o.name)
    (hvalue : s.Accepts o.value) : s.Item o.doc := by
  have hcolon : s.Item [.text ":"] := item_own (by decide)
  have hentry := (calm_tab.append (calm_text hname)).item hcolon
  exact hentry.append (calm_space.append (calm_text hvalue)).scan_item

/-- The space behind a decorator waits for the class. -/
theorem Decorator.leads_doc {d : Decorator} (h : ∀ t ∈ d.wording, s.Accepts t) :
    s.Leads d.doc := by
  obtain ⟨htype, hoptions⟩ := d.forall_mem_wording.mp h
  have hcall : s.Rests ["@", .text d.type, "(\x7b"] := by
    apply rests_of_marks
    simp (disch := decide) [rests_text htype, rests_own]
  have hentries : s.Calm d.optionsDoc := by
    apply calm_intercalate (scan_comma calm_line)
    exact List.forall_mem_map.mpr fun o ho =>
      DecoratorOption.item_doc (hoptions o ho).1 (hoptions o ho).2
  have hend : s.Leads ["\x7d)", .gap] := leads_own (by decide)
  unfold doc
  split
  · exact rests_nil.leads
  · have hfront : ∀ x ∈ [[Mark.text "@", .text d.type, .text "(\x7b"], d.optionsDoc], s.Rests x :=
      List.forall_mem_cons.mpr ⟨hcall, List.forall_mem_singleton.mpr hentries.rests⟩
    exact leads_join hfront hend

theorem EnumMember.item_doc {m : EnumMember}
    (h : s.Accepts m.name ∧ ∀ t, m.value = some t → s.Accepts t)
    (hvisible : m.doc.isBlank = false) : s.Item m.doc := by
  unfold doc at hvisible ⊢
  split at hvisible
  · cases hvisible
  · have hname := item_text h.1 (by simpa using ‹¬ isBlank m.name = true›)
    rw [if_neg ‹_›]
    cases hvalue : nonBlank m.value with
    | none => exact hname
    | some v =>
      have hbehind : s.Calm [.space, "=", .space, v] := by
        have hv := calm_text (h.2 v (nonBlank_eq_some.mp hvalue).1)
        apply calm_of_marks
        simp (disch := decide) [hv, calm_own]
      exact hname.append hbehind.scan_item

theorem Enumeration.rests_doc {e : Enumeration} (h : ∀ t ∈ e.wording, s.Accepts t) :
    s.Rests e.doc := by
  obtain ⟨hname, hmembers⟩ := e.forall_mem_wording.mp h
  have hentries : s.Calm e.membersDoc := by
    apply calm_intercalate (scan_comma calm_line)
    refine List.forall_mem_map.mpr fun d hd => ?_
    obtain ⟨hmem, hvisible⟩ := List.mem_filter.mp hd
    obtain ⟨m, hm, rfl⟩ := List.mem_map.mp hmem
    exact calm_tab.item (EnumMember.item_doc (hmembers m hm) (by simpa using hvisible))
  unfold doc
  split
  · exact rests_nil
  · have hword : s.Passes [.text "export enum "] := passes_own (by decide)
    have hline := hword.item (item_text hname (by simpa using ‹¬ isBlank e.name = true›))
    apply rests_join
    simp only [List.forall_mem_cons]
    exact ⟨(hline.settles rests_opening).rests, hentries.rests, rests_closing, by simp⟩

namespace ImportGroups

/-- Symbols are listed as they are, so a blank one would leave a comma without its entry. A compact
statement has no spaces at all. -/
theorem rests_statement {group : String × List String}
    (h : s.Accepts group.1 ∧ ∀ t ∈ group.2, s.Accepts t)
    (hvisible : ∀ t ∈ group.2, s = .comma → isBlank t = false) : s.Rests (statement group) := by
  have hsymbols : s.Rests ([Mark.text ",", Mark.space].intercalate
      (group.2.map fun t => [Mark.text t])) := by
    cases s with
    | comma =>
      apply Calm.rests
      apply calm_intercalate (scan_comma calm_space)
      exact List.forall_mem_map.mpr fun t ht => item_text (h.2 t ht) (hvisible t ht rfl)
    | space =>
      apply rests_of_marks
      intro m hm
      rcases Doc.mem_intercalate hm with hsep | ⟨d, hd, hmd⟩
      · have hown : ∀ m ∈ [Mark.text ",", Mark.space], space.Rests [m] := by decide
        exact hown m hsep
      · obtain ⟨t, ht, rfl⟩ := List.mem_map.mp hd
        obtain rfl := List.mem_singleton.mp hmd
        exact rests_text (h.2 t ht)
  have hopening : s.Rests ["import", .space, "\x7b", .space] := rests_own (by decide)
  have hclosing : s.Rests [.space, "\x7d", .space, "from", .space, "'", group.1, "';"] := by
    apply rests_of_marks
    simp (disch := decide) [rests_text h.1, rests_own]
  simpa [statement] using hopening.append (hsymbols.append hclosing)

theorem rests_doc {groups : ImportGroups}
    (h : ∀ g ∈ groups, s.Accepts g.1 ∧ ∀ t ∈ g.2, s.Accepts t)
    (hvisible : ∀ g ∈ groups, ∀ t ∈ g.2, s = .comma → isBlank t = false) :
    s.Rests (ImportGroups.doc groups) :=
  rests_join (List.forall_mem_map.mpr fun g hg => rests_statement (h g hg) (hvisible g hg))

end ImportGroups

/-! ## Interfaces and classes -/

/-- A keyword between two items. -/
theorem Outline.scan_extendsDoc {o : Outline} (h : ∀ t, o.parent = some t → s.Accepts t) :
    s.scan .item o.extendsDoc = some .item := by
  unfold extendsDoc
  cases hs : o.supertype with
  | none => rfl
  | some t =>
    obtain ⟨hsome, hblank⟩ := nonBlank_eq_some.mp hs
    have hword : ∃ g, s.scan .item [.text " extends "] = some g := by cases s <;> decide
    exact scan_item_append hword (item_text (h t hsome) hblank)

theorem Class.scan_implementsDoc {c : Class} (h : ∀ t ∈ c.implements, s.Accepts t) :
    s.scan .item c.implementsDoc = some .item := by
  have hmem : ∀ t ∈ c.implements.filter (!isBlank ·), s.Accepts t ∧ isBlank t = false :=
    fun t ht => ⟨h t (List.mem_filter.mp ht).1, by simpa using (List.mem_filter.mp ht).2⟩
  unfold implementsDoc
  generalize c.implements.filter (!isBlank ·) = names at hmem
  cases names with
  | nil => rfl
  | cons n rest =>
    have hword : ∃ g, s.scan .item [.text " implements "] = some g := by cases s <;> decide
    have hlist : s.Item (Doc.commaList ((n :: rest).map fun t => [Mark.text t])) := by
      apply item_commaList
      · exact List.forall_mem_map.mpr fun t ht _ => item_text (hmem t ht).1 (hmem t ht).2
      · refine ⟨[.text n], by simp, ?_⟩
        have hblank := (hmem n List.mem_cons_self).2
        simp [Doc.isBlank, Mark.isBlank, hblank]
    simpa using scan_item_append hword hlist

theorem Interface.rests_doc {i : Interface} (h : ∀ t ∈ i.wording, s.Accepts t) :
    s.Rests i.doc := by
  obtain ⟨hname, hparent, -, hproperties, hmethods⟩ := i.toOutline.forall_mem_wording.mp h
  have hfields : s.Rests (Doc.join (i.properties.map (·.interfaceDoc))) :=
    rests_join (List.forall_mem_map.mpr fun p hp => Property.rests_interfaceDoc (hproperties p hp))
  have hsignatures : s.Rests (Doc.join (i.methods.map (·.interfaceDoc))) :=
    rests_join (List.forall_mem_map.mpr fun m hm => Method.rests_interfaceDoc (hmethods m hm))
  unfold doc
  split
  · exact rests_nil
  · have hword : s.Passes [.text "export interface "] := passes_own (by decide)
    have hline := hword.item (item_text hname (by simpa using ‹¬ isBlank i.name = true›))
    have hheader := (hline.append (Outline.scan_extendsDoc hparent)).settles rests_opening
    apply rests_join
    simp only [List.forall_mem_cons]
    exact ⟨by simpa using hheader.rests, hfields, hsignatures, rests_closing, by simp⟩

theorem ConstructorStep.rests_doc {a : ConstructorStep} (h : ∀ t ∈ a.texts, s.Accepts t)
    (hnames : ∀ field names, a = .enlist field names → names ≠ []) : s.Rests a.doc := by
  cases a with
  | callSuper args =>
    have hcall : s.Rests [.text "super("] := rests_own (by decide)
    have hend : s.Rests [.text ");"] := rests_own (by decide)
    have hargs : s.Calm (Doc.commaList (args.map fun t => [Mark.text t])) := by
      refine calm_commaList (List.forall_mem_map.mpr fun t ht hvisible => ?_)
      exact item_text (h t ht) (by simpa [Doc.isBlank, Mark.isBlank] using hvisible)
    simpa [doc] using hcall.append (hargs.rests.append hend)
  | tagClass field name =>
    simp only [texts, List.forall_mem_cons] at h
    obtain ⟨hfield, hname, -⟩ := h
    apply rests_of_marks
    simp (disch := decide) [doc, rests_text hfield, rests_text hname, rests_own]
  | enlist field names =>
    obtain ⟨hfield, htexts⟩ := List.forall_mem_cons.mp h
    have hfront : s.Rests ["this.", .text field, .space, "=", .space, "[", .space] := by
      apply rests_of_marks
      simp (disch := decide) [rests_text hfield, rests_own]
    have hold : s.Item ["...this.", .text field] := by
      have hthis : s.Item [.text "...this."] := item_own (by decide)
      exact hthis.append (calm_text hfield).scan_item
    have hnew : s.Item (quotedList names) := by
      apply item_intercalate (scan_comma calm_space)
      · exact List.forall_mem_map.mpr fun n hn => item_quoted (htexts n hn)
      · simpa using hnames field names rfl
    have hend : s.Rests [.space, "];"] := rests_own (by decide)
    have hlist := (hold.append (scan_item_append (scan_comma calm_space) hnew)).settles hend
    simpa [doc] using hfront.append hlist.rests
  | custom code => exact rests_text (List.forall_mem_singleton.mp h)

namespace Class

variable {c : Class} {v : Conventions}

/-- The line that opens a class needs nothing before it. -/
theorem settles_header (h : ∀ t ∈ c.wording, s.Accepts t) (hnamed : isBlank c.name = false) :
    s.Settles c.header := by
  obtain ⟨houtline, -, -, himplements, -⟩ := c.forall_mem_wording.mp h
  obtain ⟨hname, hparent, -⟩ := c.toOutline.forall_mem_wording.mp houtline
  have hword : s.Passes ["export", if c.isAbstract then .text " abstract" else .text "",
      " class "] := by
    cases s <;> cases c.isAbstract <;> decide
  have hline := ((hword.item (item_text hname hnamed)).append
    (Outline.scan_extendsDoc hparent)).append (scan_implementsDoc himplements)
  simpa [header] using hline.settles rests_opening

theorem rests_rosterDoc (h : ∀ t ∈ c.wording, s.Accepts t) (r : Roster) :
    s.Rests (c.rosterDoc r) := by
  have hnames := c.forall_mem_names h r
  have hfield : s.Item ([Mark.text "protected "] ++ [Mark.text r.field]) := by
    refine Passes.item (passes_own (by decide)) (item_own ?_)
    cases r <;> decide
  have htype : s.Rests [":", .space, "string[]", .space, "=", .space] := rests_own (by decide)
  have hlist : s.Rests (if (r.names c).isEmpty then [Mark.text "[]"]
      else Doc.cat [[Mark.text "[", .space], quotedList (r.names c), [.space, .text "]"]]) := by
    split
    · exact rests_own (by decide)
    · have hopening : s.Rests [.text "[", .space] := rests_own (by decide)
      have hclosing : s.Rests [.space, .text "]"] := rests_own (by decide)
      have hquoted : s.Calm (quotedList (r.names c)) := by
        apply calm_intercalate (scan_comma calm_space)
        exact List.forall_mem_map.mpr fun n hn => item_quoted (hnames n hn)
      simpa using hopening.append (hquoted.rests.append hclosing)
  have hline := rests_tab.append
    ((hfield.settles htype).rests.append (hlist.append rests_semicolon))
  unfold rosterDoc
  simpa only [Doc.cat, List.flatten_cons, List.flatten_nil, List.append_nil, List.cons_append,
    List.nil_append, List.append_assoc] using hline

theorem rests_constructorDoc (hv : ∀ t ∈ v.texts, s.Accepts t)
    (h : ∀ t ∈ c.wording, s.Accepts t) : s.Rests (c.constructorDoc v) := by
  obtain ⟨-, hargs, -⟩ := c.forall_mem_wording.mp h
  have hsteps := forall_mem_texts accepts_ownNames hv h
  have hopening : s.Rests [.tab, .text "constructor("] := rests_own (by decide)
  have hargsDoc : s.Rests c.argsDoc := (Property.calm_args hargs).rests
  have hline : s.Rests [")", .space, "\x7b", .line] := rests_own (by decide)
  have hlines : s.Rests ((c.constructorSteps v).flatMap ConstructorStep.lineDoc) := by
    refine rests_flatMap fun a ha => ?_
    have hdoc := ConstructorStep.rests_doc (hsteps a ha) fun f names heq => names_ne_nil (heq ▸ ha)
    exact (rests_tab.append rests_tab).append (hdoc.append rests_line)
  have hclosing : s.Rests ([Mark.tab] ++ [Mark.text "\x7d"]) := rests_tab.append rests_closing
  unfold constructorDoc
  split
  · simpa using hopening.append (hargsDoc.append (hline.append (hlines.append hclosing)))
  · exact rests_nil

theorem rests_doc (hv : ∀ t ∈ v.texts, s.Accepts t) (h : ∀ t ∈ c.wording, s.Accepts t)
    (hmodifiers : ∀ m ∈ c.modifiers, s = .space → m.text ≠ "") : s.Rests (c.doc v) := by
  obtain ⟨houtline, -, -, -, hdecorator, -⟩ := c.forall_mem_wording.mp h
  obtain ⟨-, -, -, hproperties, hmethods⟩ := c.toOutline.forall_mem_wording.mp houtline
  obtain ⟨haccess, haccess'⟩ := Outline.forall_mem_modifiers fun m hm =>
    hmodifiers m (List.mem_append_left _ hm)
  have hdecorated : s.Leads ((c.decorator.map (·.doc)).getD []) := by
    cases hd : c.decorator with
    | none => exact rests_nil.leads
    | some d => exact Decorator.leads_doc (hdecorator d hd)
  have hfields (isStatic : Bool) : s.Rests (c.propertiesDoc v isStatic) :=
    rests_join (List.forall_mem_map.mpr fun p hp =>
      have hmem := (List.mem_filter.mp hp).1
      Property.rests_classDoc hv (hproperties p hmem) (haccess p hmem))
  have hbodies (isStatic : Bool) : s.Rests (c.methodsDoc isStatic) :=
    rests_join (List.forall_mem_map.mpr fun m hm =>
      have hmem := (List.mem_filter.mp hm).1
      Method.rests_of_wording (hmethods m hmem) (haccess' m hmem))
  have hrosters : ∀ d ∈ c.rosterDocs, s.Rests d := by
    unfold rosterDocs
    split
    · exact List.forall_mem_map.mpr fun r _ => rests_rosterDoc h r
    · simp
  have hmodel : s.Rests c.modelDoc := by
    unfold modelDoc
    split
    · exact rests_join (List.forall_mem_map.mpr fun m hm => BaseModel.rests_of_mem_methods hm)
    · exact rests_nil
  have hbehind : ∀ d ∈ [c.propertiesDoc v true, c.methodsDoc true, c.propertiesDoc v false]
      ++ c.rosterDocs ++ [c.constructorDoc v, c.modelDoc, c.methodsDoc false, [.text "\x7d"]],
        s.Rests d := by
    simp only [List.forall_mem_append, List.forall_mem_cons]
    exact ⟨⟨⟨hfields true, hbodies true, hfields false, by simp⟩, hrosters⟩,
      rests_constructorDoc hv h, hmodel, hbodies false, rests_closing, by simp⟩
  have hvisible : c.header.isBlank = false := by
    simp [header, Doc.isBlank, Mark.isBlank, show isBlank "export" = false by decide]
  unfold doc
  split
  · exact rests_nil
  · have hheader := settles_header h (by simpa using ‹¬ isBlank c.name = true›)
    simpa [parts] using rests_join_cons hdecorated hheader hvisible hbehind

end Class

/-! ## Programs -/

namespace Program

/-- The symbols that interfaces and classes import. -/
def importedSymbols (p : Program) : List String :=
  (p.interfaces.flatMap (·.imports) ++ p.classes.flatMap (·.imports)).map (·.name)

theorem mem_importedSymbols (p : Program) :
    ∀ g ∈ p.assembly.imports, ∀ t ∈ g.2, t ∈ p.importedSymbols := by
  rw [assembly_eq, ImportGroups.ofImports_eq]
  refine List.forall_mem_map.mpr fun path _ => List.forall_mem_map.mpr fun i hi => ?_
  exact List.mem_map_of_mem (List.mem_filter.mp hi).1

theorem rests_doc {p : Program} (h : ∀ t ∈ p.wording, s.Accepts t)
    (hsymbols : ∀ t ∈ p.importedSymbols, s = .comma → isBlank t = false)
    (hmodifiers : ∀ m ∈ p.modifiers, s = .space → m.text ≠ "") : s.Rests p.doc := by
  obtain ⟨hoptions, henums, hinterfaces, hclasses⟩ := p.forall_mem_wording.mp h
  have hconventions := Options.forall_mem_texts hoptions
  have himports : s.Rests (ImportGroups.doc p.assembly.imports) :=
    ImportGroups.rests_doc (p.forall_mem_imports h) fun g hg t ht =>
      hsymbols t (p.mem_importedSymbols g hg t ht)
  have hwritten : ∀ c ∈ p.written,
      (∀ t ∈ c.wording, s.Accepts t) ∧ ∀ m ∈ c.modifiers, s = .space → m.text ≠ "" :=
    forall_mem_written
      (Q := fun c => (∀ t ∈ c.wording, s.Accepts t) ∧ ∀ m ∈ c.modifiers, s = .space → m.text ≠ "")
      (fun _ _ h => h)
      fun c hc => ⟨hclasses c hc, fun m hm =>
        hmodifiers m (List.mem_append_right _ (List.mem_flatMap.mpr ⟨c, hc, hm⟩))⟩
  have hblocks : s.Rests (Doc.join p.assembly.blocks) := by
    apply rests_join
    rw [forall_mem_blocks]
    refine ⟨fun e he => Enumeration.rests_doc (henums e he),
      fun i hi => Interface.rests_doc (hinterfaces i hi), fun c hc => ?_⟩
    exact Class.rests_doc hconventions (hwritten c hc).1 (hwritten c hc).2
  exact rests_join (by simp [himports, hblocks])

/-! ### Commas -/

/-- Separators stand only between items: where every text has its brackets in pairs and no comma,
and no imported symbol is blank, each comma of the output stands between two entries. With the white
space left out it follows neither another comma nor an opening bracket, and no closing bracket
follows it. -/
theorem commas_stand_between_entries (p : Program)
    (hwording : ∀ t ∈ p.wording, ',' ∉ t.toList ∧ Brackets.all.Balanced t)
    (hsymbols : ∀ t ∈ p.importedSymbols, isBlank t = false) :
    ∀ before behind, (dense p.generate.output).toList = before ++ ',' :: behind →
      (∃ c, before.getLast? = some c ∧ c ∉ [',', '(', '[', '\x7b'])
        ∧ ∃ c, behind.head? = some c ∧ c ∉ [',', ')', ']', '\x7d'] := by
  have hrests : comma.Rests p.doc := rests_doc hwording (fun t ht _ => hsymbols t ht) nofun
  obtain ⟨g, hscan, hg⟩ := hrests .bare (by decide)
  have hdense : (dense p.generate.output).toList
      = (Layout.compact.chars p.doc).filter (!isSpace ·) := by
    unfold generate
    rw [Layout.dense_write _ .compact, dense, String.toList_ofList, Layout.toList_write]
  have hread : (dense p.generate.output).toList.foldlM comma.step .bare = some g := by
    rw [hdense, foldlM_filter_isSpace]
    exact hscan
  exact between_of_foldlM hread hg

/-- Lists with nameless and blank entries at both ends and in between. -/
theorem the_commas_of_a_decorated_heir_stand_between_entries :
    let p : Program := {
      enums := [{
        name := "Side", members := [.named "", .named "Left", .named " ", .named "Right"] }]
      classes := [{
        name := "Heir", parent := some "Root<[number]>", canClone := true, superArgs := ["", "f(x)"]
        args := [.named " ", .named "x", .named "", (Property.named "y").withValue "g(\x7b\x7d)"]
        imports := [{ name := "Root", path := "./root" }, { name := "Side", path := "./root" }]
        decorator := some (((Decorator.ofType "Entity").withOption "a" "[1]").withOption "b" "2")
        properties := [.named "size", .named "", .named "area"] }] }
    (∀ t ∈ p.wording, ',' ∉ t.toList ∧ Brackets.all.Balanced t)
    ∧ (∀ t ∈ p.importedSymbols, isBlank t = false)
    ∧ ∀ before behind, (dense p.generate.output).toList = before ++ ',' :: behind →
        (∃ c, before.getLast? = some c ∧ c ∉ [',', '(', '[', '\x7b'])
          ∧ ∃ c, behind.head? = some c ∧ c ∉ [',', ')', ']', '\x7d'] := by
  intro p
  have hwording : ∀ t ∈ p.wording, ',' ∉ t.toList ∧ Brackets.all.Balanced t := by decide +kernel
  have hsymbols : ∀ t ∈ p.importedSymbols, isBlank t = false := by decide
  exact ⟨hwording, hsymbols, commas_stand_between_entries p hwording hsymbols⟩

/-! ### Spaces -/

/-- A compact output adds no layout of its own. It breaks no line where no text does. And where no
text has white space and each access word is there, the only white space in it is the space, always
a single one between two other characters. -/
theorem compact_output_adds_no_layout (p : Program) (hcompact : p.options.prettify = false) :
    ((∀ t ∈ p.wording, '\n' ∉ t.toList) → '\n' ∉ p.generate.output.toList)
    ∧ ((∀ t ∈ p.wording, ∀ c ∈ t.toList, isSpace c = false) → (∀ m ∈ p.modifiers, m.text ≠ "") →
        (∀ c ∈ p.generate.output.toList, isSpace c = true → c = ' ')
        ∧ ¬ [' ', ' '] <:+: p.generate.output.toList
        ∧ p.generate.output.toList.head? ≠ some ' '
        ∧ p.generate.output.toList.getLast? ≠ some ' ') := by
  have hchars : p.generate.output.toList = Layout.compact.chars p.doc := by
    unfold generate Options.layout Layout.ofSettings
    rw [hcompact, if_neg Bool.false_ne_true, Layout.toList_write]
  rw [hchars]
  constructor
  · intro hwording hmem
    have hover : p.doc.Over (· ≠ '\n') := by
      refine p.over_doc (fun c hc => ?_) fun t ht c hc => ?_
      · rintro rfl
        exact absurd hc (by decide)
      · rintro rfl
        exact hwording t ht hc
    exact Doc.Over.chars_compact (by decide) hover '\n' hmem rfl
  · intro hwording hmodifiers
    have hover : p.doc.Over fun c => isSpace c = true → c = ' ' := by
      refine p.over_doc (fun c hc => eq_space_of_isPrintable hc) fun t ht c hc hspace => ?_
      rw [hwording t ht c hc] at hspace
      cases hspace
    have hrests : space.Rests p.doc := rests_doc hwording nofun fun m hm _ => hmodifiers m hm
    obtain ⟨g, hscan, hg⟩ := hrests .bare (by decide)
    exact ⟨Doc.Over.chars_compact (fun _ => rfl) hover, (between_of_foldlM hscan hg).spaces_apart⟩

/-- A base model with every kind of member, and without any white space in its texts. -/
theorem a_compact_base_model_has_single_spaces :
    let p : Program := {
      options := { prettify := false, classField := some "kind" }
      interfaces := [{ name := "Shape", methods := [(Method.named "area").withArg (.named "x")] }]
      classes := [{
        name := "Model", parent := some "Root", implements := ["Shape"], isAbstract := true
        isBaseModel := true, canClone := true, canExport := true, canUndo := true
        decorator := some (.ofType "Entity")
        properties := [(Property.named "size").tracked, (Property.named "count").asStatic]
        methods := [(Method.named "area").asAbstract, (Method.named "make").asStatic] }] }
    p.options.prettify = false
    ∧ (∀ t ∈ p.wording, ∀ c ∈ t.toList, isSpace c = false) ∧ (∀ m ∈ p.modifiers, m.text ≠ "")
    ∧ '\n' ∉ p.generate.output.toList
    ∧ (∀ c ∈ p.generate.output.toList, isSpace c = true → c = ' ')
    ∧ ¬ [' ', ' '] <:+: p.generate.output.toList
    ∧ p.generate.output.toList.head? ≠ some ' ' ∧ p.generate.output.toList.getLast? ≠ some ' ' := by
  intro p
  have hwording : ∀ t ∈ p.wording, space.Accepts t := by decide
  have hline : ∀ t ∈ p.wording, '\n' ∉ t.toList := by decide
  have hmodifiers : ∀ m ∈ p.modifiers, m.text ≠ "" := by decide
  have hcompact := compact_output_adds_no_layout p rfl
  exact ⟨rfl, hwording, hmodifiers, hcompact.1 hline, hcompact.2 hwording hmodifiers⟩

end Program

end ModelScribe
