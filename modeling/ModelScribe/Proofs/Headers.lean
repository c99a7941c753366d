-- The headers of an output. The manifest and the text are gathered apart, each
-- with a blank test of its own. In a pretty output the two can be held against
-- each other: only the line that opens a declaration begins with `export`,
-- since every line inside of one is indented and every other line begins with
-- a word of the generator's own.
import ModelScribe.Proofs.Depth
import ModelScribe.Proofs.ProgramText

namespace ModelScribe

open Text

/-! ## Headers -/

/-- ` extends Super`, or nothing. -/
def Outline.extendsText (o : Outline) : String :=
  match o.supertype with
  | some s => " extends " ++ s
  | none => ""

/-- ` implements A, B`, or nothing. -/
def Class.implementsText (c : Class) : String :=
  match c.implements.filter (!isBlank ·) with
  | [] => ""
  | names => " implements " ++ ", ".intercalate names

def Enumeration.headerText (e : Enumeration) : String := "export enum " ++ e.name ++ " \x7b"

def Interface.headerText (i : Interface) : String :=
  "export interface " ++ i.name ++ i.extendsText ++ " \x7b"

def Class.headerText (c : Class) : String :=
  "export" ++ (if c.isAbstract then " abstract" else "") ++ " class " ++ c.name ++ c.extendsText
    ++ c.implementsText ++ " \x7b"

section Texts

variable (n : UInt8)

theorem Enumeration.write_header (e : Enumeration) :
    (Layout.pretty n).write e.header = e.headerText := by
  simp only [header, headerText, Layout.write_cons, Layout.write_nil, Layout.mark, Layout.space,
    String.append_assoc, String.append_empty]
  rfl

theorem Outline.write_extendsDoc (o : Outline) :
    (Layout.pretty n).write o.extendsDoc = o.extendsText := by
  unfold extendsDoc extendsText
  cases o.supertype with
  | none => rfl
  | some s => simp [Layout.mark]

theorem Interface.write_header (i : Interface) :
    (Layout.pretty n).write i.header = i.headerText := by
  unfold header headerText
  rw [Doc.cat, List.flatten_cons, List.flatten_cons, List.flatten_cons, List.flatten_nil,
    List.append_nil, Layout.write_append, Layout.write_append, Outline.write_extendsDoc]
  simp only [Layout.write_cons, Layout.write_nil, Layout.mark, Layout.space, String.append_assoc,
    String.append_empty]
  rfl

theorem Class.write_implementsDoc (c : Class) :
    (Layout.pretty n).write c.implementsDoc = c.implementsText := by
  unfold implementsDoc implementsText
  cases hnames : c.implements.filter (!isBlank ·) with
  | nil => rfl
  | cons name names =>
    -- the names are filtered already, so the list with commas drops none of them
    have hkept : ((name :: names).map fun n => [Mark.text n]).filter (!Doc.isBlank ·)
        = (name :: names).map fun n => [Mark.text n] := by
      refine List.filter_eq_self.mpr (List.forall_mem_map.mpr fun a ha => ?_)
      rw [← hnames] at ha
      simpa [Doc.isBlank, Mark.isBlank] using (List.mem_filter.mp ha).2
    have htexts : ((name :: names).map fun n => [Mark.text n]).map (Layout.pretty n).write
        = name :: names := by
      simp [Function.comp_def, Layout.mark]
    have hcomma : (Layout.pretty n).write [Mark.text ",", Mark.space] = ", " := by
      simp only [Layout.write_cons, Layout.write_nil, Layout.mark, Layout.space,
        String.append_empty]
      rfl
    simp only [Doc.commaList, hkept]
    rw [Doc.cat, List.flatten_cons, List.flatten_cons, List.flatten_nil, List.append_nil,
      Layout.write_append, Layout.write_intercalate, htexts, hcomma, Layout.write_cons,
      Layout.write_nil, String.append_empty]
    rfl

theorem Class.write_header (c : Class) : (Layout.pretty n).write c.header = c.headerText := by
  unfold header headerText
  rw [Doc.cat, List.flatten_cons, List.flatten_cons, List.flatten_cons, List.flatten_cons,
    List.flatten_nil, List.append_nil, Layout.write_append, Layout.write_append,
    Layout.write_append, Outline.write_extendsDoc, Class.write_implementsDoc]
  cases c.isAbstract <;>
    simp only [Bool.false_eq_true, if_true, if_false, Layout.write_cons, Layout.write_nil,
      Layout.mark, Layout.space, String.append_assoc, String.append_empty] <;>
    rfl

end Texts

/-! ## Lines that begin with `export` -/

/-- The line begins with `export` and a space. -/
def beginsExport (line : List Char) : Bool := "export ".toList.isPrefixOf line

theorem beginsExport_append {line : List Char} (h : beginsExport line = true) (rest : List Char) :
    beginsExport (line ++ rest) = true := by
  unfold beginsExport at h ⊢
  rw [List.isPrefixOf_iff_prefix] at h ⊢
  exact h.trans (List.prefix_append line rest)

theorem beginsExport_of_head {line : List Char} {c : Char} (hc : line.head? = some c)
    (h : c ≠ 'e') : beginsExport line = false := by
  obtain ⟨rest, rfl⟩ := List.head?_eq_some_iff.mp hc
  have he : 'e' ≠ c := Ne.symm h
  simp [beginsExport, List.isPrefixOf, he]

namespace Doc

/-- The lines that begin with `export` in a layout with this indent unit. -/
def exports (n : UInt8) (ls : List Doc) : List Doc :=
  ls.filter fun l => beginsExport ((Layout.pretty n).chars l)

section Exports

variable {n : UInt8}

theorem exports_append (ls ms : List Doc) : exports n (ls ++ ms) = exports n ls ++ exports n ms :=
  List.filter_append ..

theorem exports_flatMap {α : Type} (xs : List α) (f : α → List Doc) :
    exports n (xs.flatMap f) = xs.flatMap fun x => exports n (f x) :=
  List.filter_flatMap ..

theorem exports_eq_nil {ls : List Doc}
    (h : ∀ l ∈ ls, beginsExport ((Layout.pretty n).chars l) = false) : exports n ls = [] :=
  List.filter_eq_nil_iff.mpr fun l hl => by simp [h l hl]

/-- A line that begins with a word of the generator's own, but not with `export`. -/
theorem beginsExport_of_word {s : String} {d : Doc} {c : Char} (hc : s.toList.head? = some c)
    (h : c ≠ 'e') : beginsExport ((Layout.pretty n).chars (.text s :: d)) = false := by
  refine beginsExport_of_head (c := c) ?_ h
  rw [Layout.chars_cons, List.head?_append, show (Layout.pretty n).mark (.text s) = s from rfl, hc]
  rfl

/-- Where an indent unit is not empty, an indented line begins with a space. -/
theorem beginsExport_of_indented (hn : 1 ≤ n) {l : Doc} (hl : l.head? = some .tab) :
    beginsExport ((Layout.pretty n).chars l) = false := by
  obtain ⟨rest, rfl⟩ := List.head?_eq_some_iff.mp hl
  obtain ⟨k, hk⟩ : ∃ k, n.toNat = k + 1 :=
    Nat.exists_eq_succ_of_ne_zero (Nat.one_le_iff_ne_zero.mp (UInt8.le_iff_toNat_le.mp hn))
  refine beginsExport_of_head (c := ' ') ?_ (by decide)
  rw [Layout.chars_cons]
  simp [Layout.mark, Layout.tab, hk, List.replicate_succ]

theorem exports_lastLine : exports n [lastLine] = [] :=
  exports_eq_nil fun l hl => by
    rw [List.mem_singleton.mp hl]
    exact beginsExport_of_word (c := '\x7d') rfl (by decide)

end Exports

end Doc

/-! ## The headers of declarations -/

section Declarations

variable {n : UInt8} (hn : 1 ≤ n)

/-- Of a declaration with a header, indented lines and a last line, the header alone begins with
`export`. -/
theorem Doc.exports_declaration {head : Doc} {inner : List Doc}
    (hhead : beginsExport ((Layout.pretty n).chars head) = true)
    (hinner : ∀ l ∈ inner, l.head? = some .tab) (hn : 1 ≤ n) :
    exports n (head :: (inner ++ [lastLine])) = [head] := by
  have hnone : exports n (inner ++ [lastLine]) = [] := by
    rw [exports_append, exports_lastLine,
      exports_eq_nil fun l hl => beginsExport_of_indented hn (hinner l hl), List.append_nil]
  unfold exports at hnone ⊢
  rw [List.filter_cons_of_pos (by exact hhead), hnone]

include hn

theorem Enumeration.exports_doc (e : Enumeration) :
    Doc.exports n e.doc.lines = if isBlank e.name then [] else [e.header] := by
  cases hname : isBlank e.name with
  | true => simp [doc, hname, Doc.exports]
  | false =>
    rw [lines_doc hname]
    have hheader : beginsExport ((Layout.pretty n).chars e.header) = true := by
      rw [header, Layout.chars_cons]
      exact beginsExport_append (show beginsExport "export enum ".toList = true by decide) _
    exact Doc.exports_declaration hheader (fun _ => indented_membersDoc) hn

theorem Interface.exports_doc (i : Interface) :
    Doc.exports n i.doc.lines = if isBlank i.name then [] else [i.header] := by
  cases hname : isBlank i.name with
  | true => simp [doc, hname, Doc.exports]
  | false =>
    rw [lines_doc hname]
    have hheader : beginsExport ((Layout.pretty n).chars i.header) = true := by
      rw [header, Doc.cat, List.flatten_cons, List.cons_append, Layout.chars_cons]
      exact beginsExport_append (show beginsExport "export interface ".toList = true by decide) _
    exact Doc.exports_declaration hheader (fun _ => indented_innerLines) hn

theorem Decorator.exports_doc (d : Decorator) : Doc.exports n d.doc.lines = [] := by
  refine Doc.exports_eq_nil fun l hl => ?_
  rcases mem_lines hl with rfl | hindented | rfl
  · exact Doc.beginsExport_of_word (c := '@') rfl (by decide)
  · exact Doc.beginsExport_of_indented hn hindented
  · exact Doc.beginsExport_of_word (c := '\x7d') rfl (by decide)

theorem Class.exports_doc (v : Conventions) (c : Class) :
    Doc.exports n (c.doc v).lines = if isBlank c.name then [] else [c.header] := by
  cases hname : isBlank c.name with
  | true => simp [doc, hname, Doc.exports]
  | false =>
    have hdecorator : Doc.exports n (Doc.lines ((c.decorator.map (·.doc)).getD [])) = [] := by
      cases c.decorator with
      | none => rfl
      | some d => exact d.exports_doc hn
    have hheader : beginsExport ((Layout.pretty n).chars c.header) = true := by
      rw [header, Doc.cat, List.flatten_cons, List.cons_append, List.cons_append, List.cons_append,
        Layout.chars_cons, Layout.chars_cons, Layout.chars_cons, ← List.append_assoc,
        ← List.append_assoc]
      refine beginsExport_append ?_ _
      cases c.isAbstract with
      | true =>
        exact show beginsExport ("export".toList ++ " abstract".toList ++ " class ".toList) = true
          by decide
      | false =>
        exact show beginsExport ("export".toList ++ "".toList ++ " class ".toList) = true by decide
    rw [lines_doc hname, Doc.exports_append, hdecorator, List.nil_append]
    exact Doc.exports_declaration hheader (fun _ => indented_innerLines) hn

omit hn in
theorem ImportGroups.exports_doc (groups : ImportGroups) :
    Doc.exports n (ImportGroups.doc groups).lines = [] := by
  refine Doc.exports_eq_nil fun l hl => ?_
  obtain ⟨d, hd, hl⟩ := Doc.mem_lines_join hl
  obtain ⟨group, -, rfl⟩ := List.mem_map.mp hd
  rw [Doc.eq_of_mem_lines (inline_statement group).line_not_mem hl]
  exact Doc.beginsExport_of_word (c := 'i') rfl (by decide)

/-! ## The headers of a program -/

omit hn in
/-- One line for each declaration that has a name. -/
theorem flatMap_headers {α : Type} (xs : List α) (name : α → String) (header : α → Doc) :
    (xs.flatMap fun x => if isBlank (name x) then [] else [header x])
      = (xs.filter fun x => !isBlank (name x)).map header := by
  induction xs with
  | nil => rfl
  | cons x xs ih => cases h : isBlank (name x) <;> simp [h, ih]

omit hn in
/-- Forced flags change no header. -/
theorem Program.headers_written (p : Program) :
    (p.written.flatMap fun c => if isBlank c.name then [] else [c.header])
      = p.classes.flatMap fun c => if isBlank c.name then [] else [c.header] := by
  have hmap : p.written.map (fun c => if isBlank c.name then [] else [c.header])
      = p.classes.map fun c => if isBlank c.name then [] else [c.header] := by
    unfold written
    apply List.ext_getElem?
    intro i
    rw [List.getElem?_map, List.getElem?_map, List.getElem?_mapIdx, Option.map_map]
    rfl
  rw [List.flatMap_def, hmap, ← List.flatMap_def]

theorem Program.exports_doc (p : Program) :
    Doc.exports n p.doc.lines = (p.enums.filter (!isBlank ·.name)).map (·.header)
      ++ (p.interfaces.filter (!isBlank ·.name)).map (·.header)
      ++ (p.classes.filter (!isBlank ·.name)).map (·.header) := by
  rw [lines_doc, Doc.exports_append, ImportGroups.exports_doc, List.nil_append, assembly_eq,
    List.flatMap_append, List.flatMap_append, Doc.exports_append, Doc.exports_append,
    List.flatMap_map, List.flatMap_map, List.flatMap_map, Doc.exports_flatMap, Doc.exports_flatMap,
    Doc.exports_flatMap]
  simp only [Enumeration.exports_doc hn, Interface.exports_doc hn, Class.exports_doc hn]
  rw [headers_written, flatMap_headers, flatMap_headers, flatMap_headers]

end Declarations

namespace Program

/-- The lines of a pretty output that begin with `export`. -/
theorem filter_output {p : Program} (hpretty : p.options.prettify = true)
    (htexts : ∀ s ∈ p.wording, '\n' ∉ s.toList) :
    (p.generate.output.toList.splitOn '\n').filter beginsExport
      = (Doc.exports p.options.tabSize p.doc.lines).map
        (Layout.pretty p.options.tabSize).chars := by
  have houtput : p.generate.output = (Layout.pretty p.options.tabSize).write p.doc := by
    simp [generate, Options.layout, Layout.ofSettings, hpretty]
  have hover : p.doc.Over (· ≠ '\n') := by
    apply p.over_doc
    · rintro c hc rfl
      exact absurd hc (by decide)
    · rintro s hs c hc rfl
      exact htexts s hs hc
  rw [houtput, Layout.toList_write, Layout.splitOn_chars hover, List.filter_map]
  congr 1
  -- a document without marks has no line, but its text has an empty one
  by_cases hnil : p.doc = []
  · rw [hnil]
    rfl
  · rw [Doc.lines_eq_splitOn hnil]
    rfl

theorem map_chars_headers {α : Type} {n : UInt8} {xs : List α} {header : α → Doc}
    {text : α → String} (h : ∀ x, (Layout.pretty n).write (header x) = text x) :
    (xs.map header).map (Layout.pretty n).chars = xs.map fun x => (text x).toList := by
  rw [List.map_map]
  refine List.map_inj_left.mpr fun x _ => ?_
  rw [Function.comp_apply, ← h x, Layout.toList_write]

/-- The manifest and the text agree. Where no text of a program breaks a line, the lines of a pretty
output that begin with `export` are the headers of the declarations that have a name: enumerations,
interfaces and classes, each in declaration order. The manifest has the names of these
declarations, in the same order, without those of base classes. -/
theorem the_manifest_names_the_headers (p : Program) (hpretty : p.options.prettify = true)
    (htab : 1 ≤ p.options.tabSize) (htexts : ∀ s ∈ p.wording, '\n' ∉ s.toList) :
    let enums := p.enums.filter (!isBlank ·.name)
    let interfaces := p.interfaces.filter (!isBlank ·.name)
    let classes := p.classes.filter (!isBlank ·.name)
    (p.generate.output.toList.splitOn '\n').filter ("export ".toList.isPrefixOf ·)
        = enums.map (·.headerText.toList) ++ interfaces.map (·.headerText.toList)
          ++ classes.map (·.headerText.toList)
    ∧ p.generate.manifest.enums = enums.map (·.name)
    ∧ p.generate.manifest.interfaces = interfaces.map (·.name)
    ∧ p.generate.manifest.classes = (classes.filter (!·.isBaseClass)).map (·.name) := by
  intro enums interfaces classes
  have hmanifest : p.generate.manifest = p.assembly.manifest := rfl
  refine ⟨?_, ?_, ?_, ?_⟩
  · refine (filter_output hpretty htexts).trans ?_
    rw [exports_doc htab, List.map_append, List.map_append,
      map_chars_headers (Enumeration.write_header _), map_chars_headers (Interface.write_header _),
      map_chars_headers (Class.write_header _)]
  · rw [hmanifest, assembly_eq]
    exact List.filter_map
  · rw [hmanifest, assembly_eq]
    exact List.filter_map
  · rw [hmanifest, assembly_eq, List.filter_comm]
    exact List.filter_map

/-- A base class, a nameless interface, and a field whose access word, type and value ask for a
header of their own. -/
theorem a_field_that_begins_with_export_is_no_header :
    let p : Program := {
      options := { tabSize := 1 }
      interfaces := [{ name := "\t" }]
      classes := [{
        name := "Root", isBaseClass := true, isAbstract := true
        properties := [{
          name := "class", modifier := .custom "export", type := "Other \x7b"
          value := some "export enum" }] }, {
        name := "Node", parent := some "Root", implements := ["A", " ", "B"] }] }
    p.options.prettify = true ∧ 1 ≤ p.options.tabSize ∧ (∀ s ∈ p.wording, '\n' ∉ s.toList)
    ∧ (p.generate.output.toList.splitOn '\n').filter ("export ".toList.isPrefixOf ·)
        = ["export abstract class Root \x7b".toList,
          "export class Node extends Root implements A, B \x7b".toList]
    ∧ p.generate.manifest.classes = ["Node"] := by
  intro p
  have htexts : ∀ s ∈ p.wording, '\n' ∉ s.toList := by decide
  obtain ⟨hlines, -, -, hclasses⟩ := the_manifest_names_the_headers p rfl (by decide) htexts
  exact ⟨rfl, by decide, htexts, hlines.trans (by decide), hclasses⟩

end Program

end ModelScribe
