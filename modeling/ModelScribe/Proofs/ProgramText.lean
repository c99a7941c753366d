-- Reading a program back. The classes of a text stand between lines that
-- open no class: imports, enumerations, interfaces and decorators. So a
-- reader finds each class that has a name, once and in order, and finds in it
-- what its descriptor says.
import Mathlib.Data.List.Basic
import ModelScribe.Proofs.ClassText
import ModelScribe.Proofs.Generation

namespace ModelScribe

open Text

/-! ## Lines that open no class -/

theorem readHeader_of_indented {l : Doc} (h : l.head? = some .tab) : readHeader l = none := by
  cases l with
  | nil => rfl
  | cons m l =>
    rw [List.head?_cons] at h
    rw [Option.some.inj h]
    rfl

theorem readClasses_append {ls : List Doc} (h : ∀ l ∈ ls, readHeader l = none) (rest : List Doc) :
    readClasses (ls ++ rest) = readClasses rest := by
  induction ls with
  | nil => rfl
  | cons l ls ih =>
    obtain ⟨hl, hls⟩ := List.forall_mem_cons.mp h
    rw [List.cons_append, readClasses, hl]
    exact ih hls

/-- Indented entries with commas between them, each on a line of its own, leave no line that is
not indented. -/
theorem indented_of_mem_lines {ds : List Doc} (h : ∀ d ∈ ds, Mark.line ∉ d) {l : Doc}
    (hl : l ∈ Doc.lines ([.text ",", .line].intercalate (ds.map (.tab :: ·)))) :
    l.head? = some .tab := by
  induction ds with
  | nil => cases hl
  | cons d rest ih =>
    obtain ⟨hd, hrest⟩ := List.forall_mem_cons.mp h
    cases rest with
    | nil =>
      rw [List.map_cons, List.map_nil, List.intercalate_singleton] at hl
      rw [Doc.eq_of_mem_lines (by simp [hd]) hl]
      rfl
    | cons e rest =>
      rw [List.map_cons, List.map_cons, Doc.lines_commaLines_cons (by simp [hd])
        (List.cons_ne_nil _ _), List.mem_cons] at hl
      rcases hl with rfl | hl
      · rfl
      · exact ih hrest hl

/-- The lines of a decorator: the call, its indented options, and the end of the call. -/
theorem Decorator.mem_lines {d : Decorator} {l : Doc} (hl : l ∈ d.doc.lines) :
    l = [.text "@", .text d.type, .text "(\x7b"] ∨ l.head? = some .tab
      ∨ l = [.text "\x7d)", .gap] := by
  unfold doc at hl
  split at hl
  · cases hl
  · obtain ⟨part, hpart, hl⟩ := Doc.mem_lines_join hl
    simp only [List.mem_cons, List.not_mem_nil, or_false] at hpart
    rcases hpart with rfl | rfl | rfl
    · exact Or.inl (Doc.eq_of_mem_lines (by simp) hl)
    · have hentries : d.optionsDoc = [Mark.text ",", .line].intercalate
          ((d.options.map fun o => [.text o.name, .text ":", .space, .text o.value]).map
            (.tab :: ·)) := by
        rw [List.map_map]
        rfl
      rw [hentries] at hl
      refine Or.inr (Or.inl (indented_of_mem_lines ?_ hl))
      exact List.forall_mem_map.mpr fun o _ => by simp
    · exact Or.inr (Or.inr (Doc.eq_of_mem_lines (by simp) hl))

/-- A decorator opens no class. -/
theorem Decorator.readHeader_of_mem {d : Decorator} {l : Doc} (hl : l ∈ d.doc.lines) :
    readHeader l = none := by
  rcases mem_lines hl with rfl | hindented | rfl
  · simp [readHeader]
  · exact readHeader_of_indented hindented
  · simp [readHeader]

/-! ## Enumerations and interfaces -/

/-- The line that opens an enumeration. -/
def Enumeration.header (e : Enumeration) : Doc := ["export enum ", e.name, .space, "\x7b"]

/-- The line that opens an interface. -/
def Interface.header (i : Interface) : Doc :=
  .cat [["export interface ", i.name], i.extendsDoc, [.space, "\x7b"]]

/-- The lines between the opening line of an interface and its last one. -/
def Interface.innerLines (i : Interface) : List Doc :=
  (Doc.join (i.properties.map (·.interfaceDoc))).lines
    ++ (Doc.join (i.methods.map (·.interfaceDoc))).lines

theorem Enumeration.indented_membersDoc {e : Enumeration} {l : Doc}
    (hl : l ∈ e.membersDoc.lines) : l.head? = some .tab := by
  refine indented_of_mem_lines ?_ hl
  intro m hm
  obtain ⟨item, -, rfl⟩ := List.mem_map.mp (List.mem_filter.mp hm).1
  exact item.inline_doc.line_not_mem

theorem Enumeration.lines_doc {e : Enumeration} (h : isBlank e.name = false) :
    e.doc.lines = e.header :: (e.membersDoc.lines ++ [Doc.lastLine]) := by
  have hmembers : Doc.Visible e.membersDoc := by
    refine Doc.visible_intercalate (List.forall_mem_map.mpr fun d hd => ?_)
    simpa [Doc.isBlank, Mark.isBlank] using (List.mem_filter.mp hd).2
  have hparts : ∀ d ∈ [e.header, e.membersDoc, ["\x7d"]], Doc.Visible d := by
    simp only [List.forall_mem_cons]
    exact ⟨Doc.visible_of_mem (m := .text "export enum ") List.mem_cons_self (by decide), hmembers,
      Doc.visible_of_mem (m := .text "\x7d") List.mem_cons_self (by decide), by simp⟩
  have hheader : e.header.lines = [e.header] :=
    Doc.lines_eq_singleton (by simp [header]) (by simp [header])
  have hlast : Doc.lines ["\x7d"] = [Doc.lastLine] := by decide
  unfold doc
  rw [if_neg (by simp [h])]
  exact (Doc.lines_join hparts).trans (by simp [hheader, hlast])

theorem Property.indented_interfaceDoc {p : Property} {l : Doc} (hl : l ∈ p.interfaceDoc.lines) :
    l.head? = some .tab := by
  unfold interfaceDoc at hl
  split at hl
  · rw [Doc.eq_of_mem_lines (by simp [p.inline_signature.line_not_mem]) hl]
    simp
  · cases hl

theorem Method.indented_interfaceDoc {m : Method} {l : Doc} (hl : l ∈ m.interfaceDoc.lines) :
    l.head? = some .tab := by
  unfold interfaceDoc at hl
  split at hl
  · rw [Doc.eq_of_mem_lines (by simp [(Property.inline_params m.args).line_not_mem]) hl]
    simp
  · cases hl

theorem Interface.indented_innerLines {i : Interface} {l : Doc} (hl : l ∈ i.innerLines) :
    l.head? = some .tab := by
  rcases List.mem_append.mp hl with hl | hl
  · obtain ⟨d, hd, hl⟩ := Doc.mem_lines_join hl
    obtain ⟨p, -, rfl⟩ := List.mem_map.mp hd
    exact Property.indented_interfaceDoc hl
  · obtain ⟨d, hd, hl⟩ := Doc.mem_lines_join hl
    obtain ⟨m, -, rfl⟩ := List.mem_map.mp hd
    exact Method.indented_interfaceDoc hl

theorem Interface.lines_doc {i : Interface} (h : isBlank i.name = false) :
    i.doc.lines = i.header :: (i.innerLines ++ [Doc.lastLine]) := by
  have hparts : ∀ d ∈ [i.header, Doc.join (i.properties.map (·.interfaceDoc)),
      Doc.join (i.methods.map (·.interfaceDoc)), ["\x7d"]], Doc.Visible d := by
    simp only [List.forall_mem_cons]
    exact ⟨Doc.visible_of_mem (m := .text "export interface ") List.mem_cons_self (by decide),
      Doc.visible_join _, Doc.visible_join _,
      Doc.visible_of_mem (m := .text "\x7d") List.mem_cons_self (by decide), by simp⟩
  have hheader : i.header.lines = [i.header] :=
    Doc.lines_eq_singleton (by simp [header]) (by simp [header, i.inline_extendsDoc.line_not_mem])
  have hlast : Doc.lines ["\x7d"] = [Doc.lastLine] := by decide
  unfold doc
  rw [if_neg (by simp [h])]
  exact (Doc.lines_join hparts).trans (by simp [hheader, hlast, innerLines])

theorem Enumeration.readHeader_of_mem {e : Enumeration} {l : Doc} (hl : l ∈ e.doc.lines) :
    readHeader l = none := by
  cases hname : isBlank e.name with
  | true => simp [doc, hname] at hl
  | false =>
    rw [lines_doc hname, List.mem_cons, List.mem_append, List.mem_singleton] at hl
    rcases hl with rfl | hl | rfl
    · simp [header, readHeader]
    · exact readHeader_of_indented (indented_membersDoc hl)
    · simp [Doc.lastLine, readHeader]

theorem Interface.readHeader_of_mem {i : Interface} {l : Doc} (hl : l ∈ i.doc.lines) :
    readHeader l = none := by
  cases hname : isBlank i.name with
  | true => simp [doc, hname] at hl
  | false =>
    rw [lines_doc hname, List.mem_cons, List.mem_append, List.mem_singleton] at hl
    rcases hl with rfl | hl | rfl
    · simp [header, readHeader]
    · exact readHeader_of_indented (indented_innerLines hl)
    · simp [Doc.lastLine, readHeader]

theorem ImportGroups.readHeader_of_mem {groups : ImportGroups} {l : Doc}
    (hl : l ∈ (ImportGroups.doc groups).lines) : readHeader l = none := by
  obtain ⟨d, hd, hl⟩ := Doc.mem_lines_join hl
  obtain ⟨group, -, rfl⟩ := List.mem_map.mp hd
  rw [Doc.eq_of_mem_lines (inline_statement group).line_not_mem hl]
  simp [statement, readHeader]

/-! ## A class as a whole -/

namespace Class

/-- The lines between the opening line of a class and its constructor. -/
def linesBefore (v : Conventions) (c : Class) : List Doc :=
  (c.propertiesDoc v true).lines ++ (c.methodsDoc true).lines
    ++ (c.propertiesDoc v false).lines ++ c.rosterDocs

/-- The lines between the constructor of a class and its last line. -/
def linesBehind (c : Class) : List Doc := c.modelDoc.lines ++ (c.methodsDoc false).lines

def innerLines (v : Conventions) (c : Class) : List Doc :=
  c.linesBefore v ++ ((c.constructorDoc v).lines ++ c.linesBehind)

theorem line_not_mem_rosterDoc (c : Class) (r : Roster) : Mark.line ∉ c.rosterDoc r := by
  have hnames := (inline_quotedList (r.names c)).line_not_mem
  unfold rosterDoc
  split <;> simp [hnames]

theorem lines_rosterDoc (c : Class) (r : Roster) : (c.rosterDoc r).lines = [c.rosterDoc r] :=
  Doc.lines_eq_singleton (by simp [rosterDoc]) (c.line_not_mem_rosterDoc r)

theorem visible_parts (v : Conventions) (c : Class) : ∀ d ∈ c.parts v, Doc.Visible d := by
  have hdecorator : Doc.Visible ((c.decorator.map (·.doc)).getD []) := by
    cases c.decorator with
    | none => exact Doc.visible_nil
    | some d => exact Doc.visible_ite Doc.visible_nil (Doc.visible_join _)
  have hheader : Doc.Visible c.header :=
    Doc.visible_of_mem (m := .text "export") (by simp [header]) (by decide)
  have hrosters : ∀ d ∈ c.rosterDocs, Doc.Visible d := by
    unfold rosterDocs
    split
    · exact List.forall_mem_map.mpr fun r _ =>
        Doc.visible_of_mem (m := .text ";") (by simp [rosterDoc]) (by decide)
    · simp
  have hconstructor : Doc.Visible (c.constructorDoc v) :=
    Doc.visible_ite (Doc.visible_of_mem (m := .text "\x7d") (by simp) (by decide)) Doc.visible_nil
  have hmodel : Doc.Visible c.modelDoc := Doc.visible_ite (Doc.visible_join _) Doc.visible_nil
  have hlast : Doc.Visible ["\x7d"] :=
    Doc.visible_of_mem (m := .text "\x7d") List.mem_cons_self (by decide)
  rw [forall_mem_parts]
  exact ⟨hdecorator, hheader, Doc.visible_join _, Doc.visible_join _, Doc.visible_join _, hrosters,
    hconstructor, hmodel, Doc.visible_join _, hlast⟩

theorem lines_doc {v : Conventions} {c : Class} (h : isBlank c.name = false) :
    (c.doc v).lines = Doc.lines ((c.decorator.map (·.doc)).getD [])
      ++ c.header :: (c.innerLines v ++ [Doc.lastLine]) := by
  have hheader : c.header.lines = [c.header] :=
    Doc.lines_eq_singleton (by simp [header]) c.inline_header.line_not_mem
  have hrosters : c.rosterDocs.flatMap Doc.lines = c.rosterDocs := by
    unfold rosterDocs
    split
    · simp [Roster.all, lines_rosterDoc]
    · rfl
  have hlast : Doc.lines ["\x7d"] = [Doc.lastLine] := by decide
  unfold doc
  rw [h, if_neg (by decide), Doc.lines_join (c.visible_parts v)]
  simp [parts, List.flatMap_append, hheader, hrosters, hlast, innerLines, linesBefore,
    linesBehind]

theorem tells_propertiesDoc (v : Conventions) (c : Class) (isStatic : Bool) :
    Tells (c.propertiesDoc v isStatic).lines
      (if isStatic then []
      else (c.properties.filter (!·.isStatic)).filterMap Property.storedField) := by
  have hvisible : ∀ d ∈ (c.properties.filter (·.isStatic == isStatic)).map (·.classDoc v),
      Doc.Visible d := List.forall_mem_map.mpr fun p _ => Doc.visible_join _
  unfold propertiesDoc
  rw [Doc.lines_join hvisible, List.flatMap_map]
  cases isStatic with
  | true =>
    apply Tells.flatMap_nil
    intro p hp
    have hstatic : p.isStatic = true := by simpa using (List.mem_filter.mp hp).2
    simpa [hstatic] using p.tells_classDoc v
  | false =>
    have hinstance : (fun p : Property => p.isStatic == false) = (fun p => !p.isStatic) := by
      funext p
      cases p.isStatic <;> rfl
    rw [if_neg (by decide), List.filterMap_eq_flatMap_toList, hinstance]
    apply Tells.flatMap
    intro p hp
    have hstatic : p.isStatic = false := by simpa using (List.mem_filter.mp hp).2
    simpa [hstatic] using p.tells_classDoc v

theorem tells_rosterDocs (c : Class) :
    Tells c.rosterDocs
      (if c.isBaseModel then Roster.all.map fun r => (r.field, .names (r.names c)) else []) := by
  have hroster : ∀ r : Roster, Tells [c.rosterDoc r] [(r.field, .names (r.names c))] := by
    intro r
    constructor
    · simp [rosterDoc]
    · rw [List.filterMap_cons_some (readField_rosterDoc c r)]
      rfl
    · simp [rosterDoc, opensConstructor, beginsConstructor]
  unfold rosterDocs
  split
  · rw [List.map_eq_flatMap, List.map_eq_flatMap]
    exact .flatMap fun r _ => hroster r
  · exact .nil

theorem tells_modelDoc (c : Class) : Tells c.modelDoc.lines [] := by
  unfold modelDoc
  split
  · exact Method.tells_join _
  · exact .nil

theorem noField_constructorDoc (v : Conventions) (c : Class) :
    (c.constructorDoc v).lines.filterMap readField = [] := by
  cases h : c.hasConstructor with
  | false => simp [constructorDoc, h]
  | true =>
    rw [lines_constructorDoc h, List.filterMap_cons_none c.readField_opening,
      List.filterMap_eq_nil_iff]
    intro l hl
    exact (quiet_block quiet_closing _ l (List.mem_cons_of_mem _ hl)).noField

theorem indented_constructorDoc {v : Conventions} {c : Class} {l : Doc}
    (hl : l ∈ (c.constructorDoc v).lines) : l.head? = some .tab := by
  cases h : c.hasConstructor with
  | false => simp [constructorDoc, h] at hl
  | true =>
    rw [lines_constructorDoc h, List.mem_cons] at hl
    rcases hl with rfl | hl
    · rfl
    · exact (quiet_block quiet_closing _ l (List.mem_cons_of_mem _ hl)).indented

/-- The lines before the constructor tell the fields. -/
theorem tells_linesBefore (v : Conventions) (c : Class) :
    Tells (c.linesBefore v) (c.text v).fields :=
  (((c.tells_propertiesDoc v true).append (Method.tells_join _)).append
    (c.tells_propertiesDoc v false)).append c.tells_rosterDocs

/-- The lines behind the constructor tell nothing. -/
theorem tells_linesBehind (c : Class) : Tells c.linesBehind [] :=
  c.tells_modelDoc.append (Method.tells_join _)

theorem indented_innerLines {v : Conventions} {c : Class} {l : Doc} (hl : l ∈ c.innerLines v) :
    l.head? = some .tab := by
  unfold innerLines at hl
  rw [List.mem_append, List.mem_append] at hl
  rcases hl with hl | hl | hl
  · exact (c.tells_linesBefore v).indented l hl
  · exact indented_constructorDoc hl
  · exact c.tells_linesBehind.indented l hl

theorem readField_innerLines (v : Conventions) (c : Class) :
    (c.innerLines v).filterMap readField = (c.text v).fields := by
  unfold innerLines
  rw [List.filterMap_append, List.filterMap_append, (c.tells_linesBefore v).fields_eq,
    c.noField_constructorDoc, c.tells_linesBehind.fields_eq, List.nil_append, List.append_nil]

theorem readBody_innerLines (v : Conventions) (c : Class) :
    readBody (c.innerLines v) = (c.text v).body := by
  unfold innerLines
  rw [readBody_append (c.tells_linesBefore v).opensNothing,
    c.readBody_constructorDoc v c.tells_linesBehind.opensNothing]
  rfl

theorem readHeader_header (c : Class) : readHeader c.header = some (c.name, c.supertype) := by
  have himplements : c.implementsDoc = []
      ∨ ∃ rest, c.implementsDoc = .text " implements " :: rest := by
    unfold implementsDoc
    split
    · exact Or.inl rfl
    · exact Or.inr ⟨_, rfl⟩
  rcases himplements with h | ⟨rest, h⟩ <;> cases habstract : c.isAbstract <;>
    cases hsuper : c.supertype <;>
    simp [header, Outline.extendsDoc, habstract, hsuper, h, readHeader]

/-- A class is read as what its descriptor says, wherever it stands. -/
theorem readClasses_doc (v : Conventions) (c : Class) (rest : List Doc) :
    readClasses ((c.doc v).lines ++ rest)
      = (if isBlank c.name then [] else [c.text v]) ++ readClasses rest := by
  cases hname : isBlank c.name with
  | true => simp [doc, hname]
  | false =>
    have hdecorator : ∀ l ∈ Doc.lines ((c.decorator.map (·.doc)).getD []), readHeader l = none := by
      intro l hl
      cases hd : c.decorator with
      | none =>
        rw [hd] at hl
        cases hl
      | some d =>
        rw [hd] at hl
        exact Decorator.readHeader_of_mem hl
    have hinner : (c.innerLines v ++ Doc.lastLine :: rest).takeWhile (· != Doc.lastLine)
        = c.innerLines v := by
      have hother : ∀ l ∈ c.innerLines v, (l != Doc.lastLine) = true := by
        intro l hl
        rw [bne_iff_ne]
        rintro rfl
        cases indented_innerLines hl
      rw [List.takeWhile_append_of_pos hother, List.takeWhile_cons_of_neg (by simp),
        List.append_nil]
    have hbehind : readClasses (c.innerLines v ++ Doc.lastLine :: rest) = readClasses rest := by
      rw [readClasses_append fun l hl => readHeader_of_indented (indented_innerLines hl)]
      rfl
    rw [lines_doc hname, List.append_assoc, readClasses_append hdecorator, List.cons_append,
      List.append_assoc, List.singleton_append, readClasses, readHeader_header]
    simp only [hinner, hbehind, readField_innerLines, readBody_innerLines]
    rfl

theorem readings_eq (v : Conventions) (c : Class) :
    c.readings v = if isBlank c.name then [] else [c.text v] := by
  have hread := c.readClasses_doc v []
  rwa [List.append_nil, show readClasses [] = [] from rfl, List.append_nil] at hread

end Class

theorem Class.isBlank_doc (v : Conventions) {c : Class} (hname : isBlank c.name = false) :
    (c.doc v).isBlank = false := by
  unfold doc
  rw [if_neg (by simp [hname])]
  exact Doc.isBlank_join_of_mem (d := [.text "\x7d"]) (by simp [parts]) (by decide)

/-! ## The whole text -/

namespace Program

theorem visible_blocks (p : Program) : ∀ d ∈ p.assembly.blocks, Doc.Visible d := by
  rw [forall_mem_blocks]
  refine ⟨fun e _ => ?_, fun i _ => ?_, fun c _ => ?_⟩ <;>
    exact Doc.visible_ite Doc.visible_nil (Doc.visible_join _)

theorem lines_doc (p : Program) :
    p.doc.lines = (ImportGroups.doc p.assembly.imports).lines
      ++ p.assembly.blocks.flatMap Doc.lines := by
  have hparts : ∀ d ∈ [ImportGroups.doc p.assembly.imports, .join p.assembly.blocks],
      Doc.Visible d := by
    intro d hd
    simp only [List.mem_cons, List.not_mem_nil, or_false] at hd
    rcases hd with rfl | rfl <;> exact Doc.visible_join _
  unfold doc
  rw [Doc.lines_join hparts, List.flatMap_cons, List.flatMap_cons, List.flatMap_nil,
    List.append_nil, Doc.lines_join p.visible_blocks]

end Program

end ModelScribe
