-- The law of nameless entries. Imports and the options of decorators are written
-- in lists that drop nothing. So an entry without a name leaves its comma or
-- its colon behind, and a program without such entries has a text of fewer
-- visible characters.
import Mathlib.Algebra.Order.BigOperators.Group.List
import Mathlib.Algebra.Order.Group.Nat
import Mathlib.Data.List.Perm.Subperm
import ModelScribe.Proofs.Preamble

namespace ModelScribe

open Text

/-! ## Visible characters -/

/-- How many characters of the text are no white space. -/
def Text.weight (s : String) : Nat := (s.toList.filter (!isSpace ·)).length

/-- How many visible characters a mark leaves in each layout. -/
def Mark.weight : Mark → Nat
  | .text s => Text.weight s
  | _ => 0

/-- How many visible characters a document has in each layout. -/
def Doc.weight (d : Doc) : Nat := (d.map Mark.weight).sum

theorem Text.weight_eq_zero {s : String} (h : isBlank s = true) : weight s = 0 := by
  unfold weight
  rw [List.length_eq_zero_iff, List.filter_eq_nil_iff]
  intro c hc
  simpa using List.all_eq_true.mp h c hc

@[simp] theorem Text.weight_append (s t : String) : weight (s ++ t) = weight s + weight t := by
  simp [weight, String.toList_append]

namespace Layout

@[simp] theorem weight_mark (l : Layout) (m : Mark) : Text.weight (l.mark m) = m.weight := by
  by_cases hm : m.isBlank = true
  · rw [Text.weight_eq_zero (by rw [isBlank_mark, hm])]
    cases m with
    | text s => exact (Text.weight_eq_zero hm).symm
    | _ => rfl
  · cases m with
    | text s => rfl
    | _ => exact absurd rfl hm

/-- Every layout shows the visible characters of a document, and no others. -/
theorem weight_write (l : Layout) (d : Doc) : Text.weight (l.write d) = d.weight := by
  induction d with
  | nil => rfl
  | cons m d ih =>
    rw [write_cons, Text.weight_append, weight_mark, ih]
    rfl

end Layout

namespace Doc

@[simp] theorem weight_nil : weight [] = 0 := rfl

@[simp] theorem weight_cons (m : Mark) (d : Doc) : weight (m :: d) = m.weight + d.weight := rfl

@[simp] theorem weight_append (d e : Doc) : weight (d ++ e) = d.weight + e.weight := by
  simp [weight]

theorem weight_eq_zero {d : Doc} (h : d.isBlank = true) : d.weight = 0 := by
  have hwrite := Layout.compact.weight_write d
  rw [Text.weight_eq_zero (by rw [Layout.isBlank_write, h])] at hwrite
  exact hwrite.symm

/-- Each part of a list counts with one separator, of which the last is left out. -/
theorem weight_intercalate (sep : Doc) (ds : List Doc) :
    weight (sep.intercalate ds) = (ds.map fun d => d.weight + sep.weight).sum - sep.weight := by
  induction ds with
  | nil => simp
  | cons d rest ih =>
    cases rest with
    | nil => simp
    | cons e rest =>
      rw [List.intercalate_cons_cons, weight_append, weight_append, ih]
      simp only [List.map_cons, List.sum_cons]
      omega

/-- What is dropped has no visible character, and neither have line breaks. -/
theorem weight_join (ds : List Doc) : (join ds).weight = (ds.map weight).sum := by
  have hline : weight [Mark.line] = 0 := rfl
  have hkept : ((ds.filter (!isBlank ·)).map weight).sum = (ds.map weight).sum := by
    induction ds with
    | nil => rfl
    | cons d rest ih =>
      cases hd : d.isBlank with
      | true => simp [hd, ih, weight_eq_zero hd]
      | false => simp [hd, ih]
  rw [join, weight_intercalate, hline, Nat.sub_zero]
  simpa using hkept

end Doc

/-- Leaving entries out of a list takes at least as much away as each of them counts for. -/
theorem sum_filter_add_countP_le {α : Type} (xs : List α) (keep : α → Bool) {f : α → Nat} {n : Nat}
    (h : ∀ x, keep x = false → n ≤ f x) :
    ((xs.filter keep).map f).sum + n * xs.countP (!keep ·) ≤ (xs.map f).sum := by
  induction xs with
  | nil => simp
  | cons x xs ih =>
    cases hx : keep x with
    | true => simp [hx]; omega
    | false =>
      have hn := h x hx
      simp [hx, Nat.mul_add]
      omega

/-! ## Programs without nameless entries -/

def Import.isNamed (i : Import) : Bool := !isBlank i.name

def DecoratorOption.isNamed (o : DecoratorOption) : Bool := !isBlank o.name

def Decorator.dropNameless (d : Decorator) : Decorator :=
  { d with options := d.options.filter (·.isNamed) }

def Outline.dropNameless (o : Outline) : Outline :=
  { o with imports := o.imports.filter (·.isNamed) }

def Interface.dropNameless (i : Interface) : Interface := { toOutline := i.toOutline.dropNameless }

def Class.dropNameless (c : Class) : Class :=
  { c with
    toOutline := c.toOutline.dropNameless
    decorator := c.decorator.map (·.dropNameless) }

/-- The program without the imports and the options of decorators that have no name. -/
def Program.dropNameless (p : Program) : Program :=
  { p with
    interfaces := p.interfaces.map (·.dropNameless)
    classes := p.classes.map (·.dropNameless) }

/-! ## Imports -/

namespace ImportGroups

theorem weight_statement {group : String × List String} (h : group.2 ≠ []) :
    Doc.weight (statement group)
      = (14 + Text.weight group.1) + (group.2.map fun s => Text.weight s + 1).sum := by
  have himport : Text.weight "import" = 6 := by decide
  have hopen : Text.weight "\x7b" = 1 := by decide
  have hclose : Text.weight "\x7d" = 1 := by decide
  have hfrom : Text.weight "from" = 4 := by decide
  have hquote : Text.weight "'" = 1 := by decide
  have hend : Text.weight "';" = 2 := by decide
  have hcomma : Text.weight "," = 1 := by decide
  have hlist : Doc.weight ([Mark.text ",", Mark.space].intercalate
      (group.2.map fun s => [Mark.text s])) = (group.2.map fun s => Text.weight s + 1).sum - 1 := by
    rw [Doc.weight_intercalate, List.map_map]
    simp [Function.comp_def, Mark.weight, hcomma]
  have hpos : 0 < (group.2.map fun s => Text.weight s + 1).sum := by
    obtain ⟨s, rest, hrest⟩ := List.exists_cons_of_ne_nil h
    rw [hrest, List.map_cons, List.sum_cons]
    omega
  rw [statement, Doc.cat, List.flatten_cons, List.flatten_cons, List.flatten_cons, List.flatten_nil,
    Doc.weight_append, Doc.weight_append, hlist]
  simp only [Doc.weight_cons, Doc.weight_nil, List.append_nil, Mark.weight, himport, hopen, hclose,
    hfrom, hquote, hend]
  omega

theorem sum_entries (groups : ImportGroups) (f : String → Nat) :
    ((entries groups).map fun i => f i.name).sum = (groups.map fun g => (g.2.map f).sum).sum := by
  induction groups with
  | nil => rfl
  | cons g rest ih =>
    unfold entries at ih ⊢
    rw [List.flatMap_cons, List.map_append, List.sum_append, ih, List.map_cons, List.sum_cons,
      List.map_map]
    rfl

/-- The visible characters of the preamble, module by module and symbol by symbol. -/
theorem weight_doc (imports : List Import) :
    Doc.weight (ImportGroups.doc (.ofImports imports))
      = ((paths imports).map fun path => 14 + Text.weight path).sum
        + (imports.map fun i => Text.weight i.name + 1).sum := by
  have hsymbols : ((grouping imports).map fun g => (g.2.map fun s => Text.weight s + 1).sum).sum
      = (imports.map fun i => Text.weight i.name + 1).sum := by
    have hperm : (entries (grouping imports)).Perm imports := by
      have hentries := entries_addAll [] imports
      rwa [show addAll [] imports = grouping imports from ofImports_eq imports] at hentries
    rw [← sum_entries]
    exact (hperm.map _).sum_nat
  have hpaths : ((grouping imports).map fun g => 14 + Text.weight g.1).sum
      = ((paths imports).map fun path => 14 + Text.weight path).sum := by
    unfold grouping
    rw [List.map_map]
    rfl
  have hstatements : ((grouping imports).map statement).map Doc.weight
      = (grouping imports).map fun g =>
          (14 + Text.weight g.1) + (g.2.map fun s => Text.weight s + 1).sum := by
    rw [List.map_map]
    refine List.map_congr_left fun g hg => weight_statement ?_
    obtain ⟨path, hpath, rfl⟩ := List.mem_map.mp hg
    exact symbolsFrom_ne_nil hpath
  rw [ofImports_eq, ImportGroups.doc, Doc.weight_join, hstatements, List.sum_map_add, hpaths,
    hsymbols]

/-- Each nameless import leaves a comma in the preamble, or a statement that asks for nothing. -/
theorem weight_doc_filter (imports : List Import) :
    Doc.weight (ImportGroups.doc (.ofImports (imports.filter (·.isNamed))))
        + imports.countP (!·.isNamed)
      ≤ Doc.weight (ImportGroups.doc (.ofImports imports)) := by
  have hsymbols := sum_filter_add_countP_le imports (·.isNamed)
    (f := fun i => Text.weight i.name + 1) (n := 1) fun i _ => by omega
  have hpaths : ((paths (imports.filter (·.isNamed))).map fun path => 14 + Text.weight path).sum
      ≤ ((paths imports).map fun path => 14 + Text.weight path).sum := by
    have hsubset : paths (imports.filter (·.isNamed)) ⊆ paths imports := by
      intro path hpath
      obtain ⟨i, hi, hpath⟩ := mem_paths.mp hpath
      exact mem_paths.mpr ⟨i, (List.mem_filter.mp hi).1, hpath⟩
    obtain ⟨kept, hperm, hsublist⟩ := (nodup_paths _).subperm hsubset
    rw [← (hperm.map _).sum_nat]
    exact (hsublist.map _).sum_le_sum fun _ _ => Nat.zero_le _
  rw [weight_doc, weight_doc]
  omega

end ImportGroups

/-! ## Decorators -/

namespace Decorator

/-- How many options without a name the decorator writes. -/
def nameless (d : Decorator) : Nat := if isBlank d.type then 0 else d.options.countP (!·.isNamed)

theorem weight_optionsDoc (d : Decorator) :
    Doc.weight d.optionsDoc = (d.options.map fun o => Doc.weight o.doc + 1).sum - 1 := by
  have hcomma : Doc.weight [Mark.text ",", Mark.line] = 1 := by decide
  rw [optionsDoc, Doc.weight_intercalate, hcomma, List.map_map]
  rfl

/-- Each nameless option leaves a colon in the decorator. -/
theorem weight_doc_dropNameless (d : Decorator) :
    Doc.weight d.dropNameless.doc + d.nameless ≤ Doc.weight d.doc := by
  unfold nameless
  cases htype : isBlank d.type with
  | true =>
    have hblank : d.dropNameless.doc = [] := if_pos htype
    simp [hblank]
  | false =>
    have hoptions := sum_filter_add_countP_le d.options (·.isNamed)
      (f := fun o => Doc.weight o.doc + 1) (n := 2) fun o _ => by
        have hcolon : Text.weight ":" = 1 := by decide
        simp [DecoratorOption.doc, Mark.weight, hcolon]
        omega
    have hdoc (d' : Decorator) (h : isBlank d'.type = false) : Doc.weight d'.doc
        = Doc.weight [Mark.text "@", Mark.text d'.type, Mark.text "(\x7b"]
          + (Doc.weight d'.optionsDoc + Doc.weight [Mark.text "\x7d)", Mark.gap]) := by
      simp [doc, h, Doc.weight_join]
    have hkept : d.dropNameless.options = d.options.filter (·.isNamed) := rfl
    have hsame : d.dropNameless.type = d.type := rfl
    rw [hdoc d htype, hdoc d.dropNameless htype, weight_optionsDoc, weight_optionsDoc, hkept, hsame]
    simp only [Bool.false_eq_true, if_false]
    omega

/-- A decorator that names all its options, or is not written, stays as it is. -/
theorem doc_dropNameless {d : Decorator} (h : d.nameless = 0) : d.dropNameless.doc = d.doc := by
  unfold nameless at h
  cases htype : isBlank d.type with
  | true =>
    have hdropped : d.dropNameless.doc = [] := if_pos htype
    have hblank : d.doc = [] := if_pos htype
    rw [hdropped, hblank]
  | false =>
    rw [htype, if_neg Bool.false_ne_true, List.countP_eq_zero] at h
    have hkept : d.options.filter (·.isNamed) = d.options :=
      List.filter_eq_self.mpr fun o ho => by simpa using h o ho
    unfold dropNameless
    rw [hkept]

end Decorator

/-! ## Classes -/

namespace Class

/-- How many options without a name the class writes. -/
def nameless (c : Class) : Nat :=
  if isBlank c.name then 0 else (c.decorator.map (·.nameless)).getD 0

theorem names_dropNameless (r : Roster) (c : Class) : r.names c.dropNameless = r.names c := by
  cases r <;> rfl

theorem constructorSteps_dropNameless (v : Conventions) (c : Class) :
    c.dropNameless.constructorSteps v = c.constructorSteps v := by
  unfold constructorSteps
  simp only [names_dropNameless]
  rfl

/-- The decorator is the first part of a class. -/
theorem doc_eq_cons (v : Conventions) (c : Class) :
    c.doc v = if isBlank c.name then []
      else Doc.join ((c.decorator.map (·.doc)).getD [] :: (c.parts v).tail) := rfl

/-- No part behind the decorator has an entry to drop. -/
theorem doc_dropNameless_eq_cons (v : Conventions) (c : Class) :
    c.dropNameless.doc v = if isBlank c.name then []
      else Doc.join
        (((c.decorator.map (·.dropNameless)).map (·.doc)).getD [] :: (c.parts v).tail) := by
  have hconstructor : c.dropNameless.constructorDoc v = c.constructorDoc v := by
    unfold constructorDoc
    rw [constructorSteps_dropNameless]
    rfl
  have hparts : (c.dropNameless.parts v).tail = (c.parts v).tail := by
    unfold parts
    rw [hconstructor]
    rfl
  rw [doc_eq_cons, hparts]
  rfl

theorem weight_doc_dropNameless (v : Conventions) (c : Class) :
    Doc.weight (c.dropNameless.doc v) + c.nameless ≤ Doc.weight (c.doc v) := by
  rw [doc_dropNameless_eq_cons, doc_eq_cons, nameless]
  cases isBlank c.name with
  | true => exact Nat.le_refl _
  | false =>
    rw [if_neg Bool.false_ne_true, if_neg Bool.false_ne_true, if_neg Bool.false_ne_true,
      Doc.weight_join, Doc.weight_join, List.map_cons, List.map_cons, List.sum_cons, List.sum_cons]
    cases c.decorator with
    | none => exact Nat.le_refl _
    | some d =>
      have hd := d.weight_doc_dropNameless
      simp only [Option.map_some, Option.getD_some]
      omega

theorem doc_dropNameless (v : Conventions) {c : Class} (h : c.nameless = 0) :
    c.dropNameless.doc v = c.doc v := by
  rw [doc_dropNameless_eq_cons, doc_eq_cons]
  refine ite_congr rfl (fun _ => rfl) fun hname => ?_
  rw [nameless, if_neg hname] at h
  cases hd : c.decorator with
  | none => rfl
  | some d =>
    rw [hd] at h
    rw [Option.map_some, Option.map_some, Option.map_some, Option.getD_some, Option.getD_some,
      Decorator.doc_dropNameless h]

theorem settled_dropNameless (seen : Bool) (c : Class) :
    c.dropNameless.settled seen = (c.settled seen).dropNameless := by
  unfold settled
  rw [show c.dropNameless.isBaseModel = c.isBaseModel from rfl]
  split <;> rfl

theorem nameless_settled (seen : Bool) (c : Class) : (c.settled seen).nameless = c.nameless := by
  unfold settled
  split <;> rfl

theorem writtenAfter_dropNameless (seen : Bool) (classes : List Class) :
    writtenAfter seen (classes.map (·.dropNameless))
      = (writtenAfter seen classes).map (·.dropNameless) := by
  induction classes generalizing seen with
  | nil => rfl
  | cons c rest ih =>
    rw [List.map_cons, writtenAfter_cons, writtenAfter_cons, List.map_cons, settled_dropNameless,
      ih]
    rfl

theorem nameless_writtenAfter (seen : Bool) (classes : List Class) :
    (writtenAfter seen classes).map (·.nameless) = classes.map (·.nameless) := by
  induction classes generalizing seen with
  | nil => rfl
  | cons c rest ih =>
    rw [writtenAfter_cons, List.map_cons, List.map_cons, nameless_settled, ih]

end Class

/-! ## Programs -/

namespace Program

/-- All imports of the program, in the order in which they are taken. -/
def allImports (p : Program) : List Import :=
  p.interfaces.flatMap (·.imports) ++ p.classes.flatMap (·.imports)

/-- How many entries without a name the program writes. -/
def nameless (p : Program) : Nat :=
  p.allImports.countP (!·.isNamed) + (p.classes.map (·.nameless)).sum

theorem allImports_dropNameless (p : Program) :
    p.dropNameless.allImports = p.allImports.filter (·.isNamed) := by
  unfold allImports dropNameless
  rw [List.filter_append, List.filter_flatMap, List.filter_flatMap, List.flatMap_map,
    List.flatMap_map]
  rfl

theorem written_dropNameless (p : Program) :
    p.dropNameless.written = p.written.map (·.dropNameless) := by
  rw [written_eq, written_eq]
  exact Class.writtenAfter_dropNameless false p.classes

theorem manifest_dropNameless (p : Program) : p.dropNameless.manifest = p.manifest := by
  have hclasses : (p.dropNameless.classes.filter (!·.isBaseClass)).map (·.name)
      = (p.classes.filter (!·.isBaseClass)).map (·.name) := by
    unfold dropNameless
    rw [List.filter_map, List.map_map]
    rfl
  have hinterfaces : p.dropNameless.interfaces.map (·.name) = p.interfaces.map (·.name) := by
    unfold dropNameless
    rw [List.map_map]
    rfl
  unfold manifest
  rw [assembly_eq, assembly_eq, hclasses, hinterfaces]
  rfl

/-- The document of a program, with its declarations spelled out. -/
theorem doc_eq (p : Program) :
    p.doc = Doc.join [ImportGroups.doc (.ofImports p.allImports),
      Doc.join (p.enums.map (·.doc) ++ p.interfaces.map (·.doc)
        ++ p.written.map (·.doc p.options.conventions))] := by
  unfold doc
  rw [assembly_eq]
  rfl

theorem doc_interfaces_dropNameless (p : Program) :
    p.dropNameless.interfaces.map (·.doc) = p.interfaces.map (·.doc) := by
  unfold dropNameless
  rw [List.map_map]
  rfl

/-- Each entry without a name that is written has a visible character of its own. -/
theorem weight_doc_dropNameless (p : Program) :
    Doc.weight p.dropNameless.doc + p.nameless ≤ Doc.weight p.doc := by
  have himports := ImportGroups.weight_doc_filter p.allImports
  have hclasses : ((p.written.map fun c =>
        Doc.weight (c.dropNameless.doc p.options.conventions))).sum
        + (p.classes.map (·.nameless)).sum
      ≤ (p.written.map fun c => Doc.weight (c.doc p.options.conventions)).sum := by
    rw [← Class.nameless_writtenAfter false, ← written_eq, ← List.sum_map_add]
    exact List.sum_le_sum fun c _ => c.weight_doc_dropNameless p.options.conventions
  have hdoc (q : Program) : Doc.weight q.doc
      = Doc.weight (ImportGroups.doc (.ofImports q.allImports))
        + ((q.enums.map (·.doc)).map Doc.weight).sum
        + ((q.interfaces.map (·.doc)).map Doc.weight).sum
        + (q.written.map fun c => Doc.weight (c.doc q.options.conventions)).sum := by
    simp [doc_eq, Doc.weight_join, Function.comp_def, Nat.add_assoc]
  have hwritten : (p.dropNameless.written.map fun c =>
        Doc.weight (c.doc p.dropNameless.options.conventions))
      = p.written.map fun c => Doc.weight (c.dropNameless.doc p.options.conventions) := by
    rw [written_dropNameless, List.map_map]
    rfl
  rw [hdoc, hdoc, allImports_dropNameless, doc_interfaces_dropNameless, hwritten, nameless,
    show p.dropNameless.enums = p.enums from rfl]
  omega

/-- A program that names all the entries it writes stays as it is. -/
theorem doc_dropNameless {p : Program} (h : p.nameless = 0) : p.dropNameless.doc = p.doc := by
  obtain ⟨himports, hclasses⟩ := Nat.add_eq_zero_iff.mp h
  have hkept : p.allImports.filter (·.isNamed) = p.allImports :=
    List.filter_eq_self.mpr fun i hi => by simpa using List.countP_eq_zero.mp himports i hi
  have hwritten : p.dropNameless.written.map (·.doc p.dropNameless.options.conventions)
      = p.written.map (·.doc p.options.conventions) := by
    rw [written_dropNameless, List.map_map]
    refine List.map_congr_left fun c hc => Class.doc_dropNameless _ ?_
    rw [← Class.nameless_writtenAfter false, ← written_eq, List.sum_eq_zero_iff] at hclasses
    exact hclasses _ (List.mem_map_of_mem hc)
  rw [doc_eq, doc_eq, allImports_dropNameless, hkept, doc_interfaces_dropNameless, hwritten]
  rfl

theorem nameless_eq_zero_iff (p : Program) :
    p.nameless = 0 ↔
      (∀ i ∈ p.allImports, isBlank i.name = false)
      ∧ ∀ c ∈ p.classes, isBlank c.name = false →
          ∀ d ∈ c.decorator, isBlank d.type = false → ∀ o ∈ d.options, isBlank o.name = false := by
  have hdecorator (d : Decorator) :
      d.nameless = 0 ↔ (isBlank d.type = false → ∀ o ∈ d.options, isBlank o.name = false) := by
    cases htype : isBlank d.type <;> simp [Decorator.nameless, htype, DecoratorOption.isNamed]
  have hclass (c : Class) : c.nameless = 0 ↔ (isBlank c.name = false → ∀ d ∈ c.decorator,
      isBlank d.type = false → ∀ o ∈ d.options, isBlank o.name = false) := by
    cases hname : isBlank c.name <;> cases hd : c.decorator <;>
      simp [Class.nameless, hname, hd, hdecorator]
  unfold nameless
  rw [Nat.add_eq_zero_iff, List.countP_eq_zero, List.sum_eq_zero_iff, List.forall_mem_map]
  simp only [hclass, Import.isNamed, Bool.not_not, Bool.not_eq_true]

/-- Entries without a name are not dropped, they are written. Without them a program has the same
manifest, and it has the same text only if there was nothing to drop: every import has a name, and
so has every option in the decorator of a class, where class and decorator are written at all. -/
theorem nameless_entries_are_written_iff (p : Program) :
    p.dropNameless.generate.manifest = p.generate.manifest
    ∧ (p.dropNameless.generate.output = p.generate.output ↔
        (∀ i ∈ p.allImports, isBlank i.name = false)
        ∧ ∀ c ∈ p.classes, isBlank c.name = false → ∀ d ∈ c.decorator,
            isBlank d.type = false → ∀ o ∈ d.options, isBlank o.name = false) := by
  refine ⟨p.manifest_dropNameless, ?_⟩
  rw [← nameless_eq_zero_iff]
  constructor
  · intro houtput
    have hweight := congrArg Text.weight houtput
    unfold generate at hweight
    rw [Layout.weight_write, Layout.weight_write] at hweight
    have hless := p.weight_doc_dropNameless
    omega
  · intro hnone
    unfold generate
    rw [doc_dropNameless hnone]
    rfl

/-- A nameless import leaves a statement that asks for nothing, or a comma, and a nameless option
leaves a colon. -/
theorem a_nameless_import_and_a_nameless_option_are_written :
    let options : Options := { prettify := false }
    let base : Import := { name := "Base", path := "./base" }
    let blank : Import := { name := "", path := "./base" }
    let row : Class := .named "Row"
    let importing (imports : List Import) : Program :=
      { options, classes := [{ row with imports }] }
    let decorated : Program :=
      { options, classes := [row.withDecorator ((Decorator.ofType "Entity").withOption "" "1")] }
    (importing [blank]).generate.output = "import{}from'./base';export class Row{}"
    ∧ (importing [blank]).dropNameless.generate.output = "export class Row{}"
    ∧ (importing [base, blank]).generate.output
        = "import{Base,}from'./base';export class Row{}"
    ∧ (importing [base, blank]).dropNameless.generate.output
        = "import{Base}from'./base';export class Row{}"
    ∧ decorated.generate.output = "@Entity({:1}) export class Row{}"
    ∧ decorated.dropNameless.generate.output = "@Entity({}) export class Row{}" := by
  decide +kernel

end Program

end ModelScribe
