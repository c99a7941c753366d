-- Joins within joins. A text is put together from sections, which are put
-- together from sections in their turn, and each of them drops what is blank
-- and puts separators between the rest. None of it shows: the text is one
-- join of the fragments at the bottom, in whatever sections they stand, since
-- a section is blank only where all of its fragments are and is then nothing
-- at all.
import ModelScribe.Proofs.Generation

namespace ModelScribe

open Text

/-! ## Blank fragments -/

/-- The second list has the fragments of the first, in their order, and blank ones anywhere
besides. -/
inductive Padded : List String → List String → Prop
  | nil : Padded [] []
  | keep {xs ys : List String} (x : String) : Padded xs ys → Padded (x :: xs) (x :: ys)
  | blank {xs ys : List String} {x : String} :
      isBlank x = true → Padded xs ys → Padded xs (x :: ys)

namespace Layout

theorem join_padded (l : Layout) {xs ys : List String} (h : Padded xs ys) :
    l.join ys = l.join xs := by
  induction h with
  | nil => rfl
  | keep x _ ih => exact l.join_append_congr ih [x]
  | blank hx _ ih => rw [l.join_cons_of_isBlank hx, ih]

theorem isBlank_join_iff (l : Layout) (xs : List String) :
    Text.isBlank (l.join xs) = true ↔ ∀ x ∈ xs, Text.isBlank x = true := by
  induction xs with
  | nil => simp
  | cons x xs ih =>
    cases hx : Text.isBlank x with
    | true => rw [l.join_cons_of_isBlank hx, ih, List.forall_mem_cons, hx, eq_self, true_and]
    | false =>
      refine iff_of_false ?_ fun hall => ?_
      · rw [l.join_cons_of_visible hx]
        split <;> simp [hx]
      · rw [(List.forall_mem_cons.mp hall).1] at hx
        cases hx

theorem join_append (l : Layout) (xs ys : List String) :
    l.join (xs ++ ys) = l.join [l.join xs, l.join ys] := by
  have hflat := l.join_flatten [xs, ys]
  simpa using hflat.symm

end Layout

/-! ## Sections within sections -/

/-- A fragment, or a section that joins what it holds: fragments and sections alike. -/
inductive Nest where
  | fragment (d : Doc)
  | joined (parts : List Nest)

namespace Nest

mutual

/-- The text of a nest: every section is joined before it is joined with others. -/
def text (l : Layout) : Nest → String
  | .fragment d => l.write d
  | .joined parts => l.join (texts l parts)

def texts (l : Layout) : List Nest → List String
  | [] => []
  | n :: ns => n.text l :: texts l ns

end

mutual

/-- The fragments of a nest from left to right, whatever sections they stand in. -/
def fragments : Nest → List Doc
  | .fragment d => [d]
  | .joined parts => fragmentsOf parts

def fragmentsOf : List Nest → List Doc
  | [] => []
  | n :: ns => n.fragments ++ fragmentsOf ns

end

theorem texts_eq (l : Layout) (ns : List Nest) : texts l ns = ns.map (·.text l) := by
  induction ns with
  | nil => rfl
  | cons n ns ih => rw [texts, ih, List.map_cons]

theorem text_joined (l : Layout) (ns : List Nest) :
    (joined ns).text l = l.join (ns.map (·.text l)) := by
  rw [text, texts_eq]

mutual

/-- Among other fragments, a nest counts as the fragments in it. -/
theorem join_text (l : Layout) (n : Nest) (xs : List String) :
    l.join (n.text l :: xs) = l.join (n.fragments.map l.write ++ xs) := by
  match n with
  | .fragment d => rfl
  | .joined parts => rw [text, fragments, l.join_cons_join, join_texts]

theorem join_texts (l : Layout) (ns : List Nest) (xs : List String) :
    l.join (texts l ns ++ xs) = l.join ((fragmentsOf ns).map l.write ++ xs) := by
  match ns with
  | [] => rfl
  | n :: ns =>
    rw [texts, fragmentsOf, List.cons_append, n.join_text l, List.map_append, List.append_assoc,
      l.join_append_congr (join_texts l ns xs)]

end

/-- A section is the flat join of its fragments. -/
theorem text_eq_join (l : Layout) (ns : List Nest) :
    (joined ns).text l = l.join ((joined ns).fragments.map l.write) := by
  have hflat := join_texts l ns []
  rw [List.append_nil, List.append_nil] at hflat
  exact hflat

end Nest

/-! ## The sections of a program -/

/-- A section of documents. -/
def Nest.ofDocs (ds : List Doc) : Nest := .joined (ds.map .fragment)

/-- A property of a class: a section of its members. -/
def Property.nest (v : Conventions) (p : Property) : Nest :=
  .ofDocs ((p.members v).map (·.doc p.isStatic))

/-- A method of a class: a signature, or a section of three lines. -/
def Method.nest (m : Method) : Nest :=
  if m.isNamed then
    if m.isAbstract then .fragment (.cat [m.header, [";"]])
    else .ofDocs [.cat [m.header, [.space, "\x7b"]], [.tab, .tab, m.body], [.tab, "\x7d"]]
  else .ofDocs []

def Decorator.nest (d : Decorator) : Nest :=
  if isBlank d.type then .ofDocs []
  else .ofDocs [["@", d.type, "(\x7b"], d.optionsDoc, ["\x7d)", .gap]]

def Enumeration.nest (e : Enumeration) : Nest :=
  if isBlank e.name then .ofDocs []
  else .ofDocs [["export enum ", e.name, .space, "\x7b"], e.membersDoc, ["\x7d"]]

def Interface.nest (i : Interface) : Nest :=
  if isBlank i.name then .ofDocs []
  else .joined [
    .fragment (.cat [["export interface ", i.name], i.extendsDoc, [.space, "\x7b"]]),
    .ofDocs (i.properties.map (·.interfaceDoc)),
    .ofDocs (i.methods.map (·.interfaceDoc)),
    .fragment ["\x7d"]]

namespace Class

def propertiesNest (v : Conventions) (c : Class) (isStatic : Bool) : Nest :=
  .joined ((c.properties.filter (·.isStatic == isStatic)).map (·.nest v))

def methodsNest (c : Class) (isStatic : Bool) : Nest :=
  .joined ((c.methods.filter (·.isStatic == isStatic)).map (·.nest))

def decoratorNest (c : Class) : Nest :=
  match c.decorator with
  | some d => d.nest
  | none => .ofDocs []

def modelNest (c : Class) : Nest :=
  if c.isBaseModel then .joined ((BaseModel.methods c).map (·.nest)) else .ofDocs []

/-- A class: a section of fragments and of sections of members. -/
def nest (v : Conventions) (c : Class) : Nest :=
  if isBlank c.name then .ofDocs []
  else .joined <|
    [c.decoratorNest, .fragment c.header, c.propertiesNest v true, c.methodsNest true,
      c.propertiesNest v false]
      ++ c.rosterDocs.map .fragment
      ++ [.fragment (c.constructorDoc v), c.modelNest, c.methodsNest false, .fragment ["\x7d"]]

end Class

/-- A program: a section of the imports and a section of the declarations. -/
def Program.nest (p : Program) : Nest :=
  .joined [
    .ofDocs (p.assembly.imports.map ImportGroups.statement),
    .joined (p.enums.map (·.nest) ++ p.interfaces.map (·.nest)
      ++ p.written.map (·.nest p.options.conventions))]

/-! ## What is written is the text of its nest -/

section

variable (l : Layout)

theorem Nest.map_text {α : Type} {f : α → Nest} {g : α → Doc}
    (h : ∀ x, (f x).text l = l.write (g x)) (xs : List α) :
    (xs.map f).map (·.text l) = (xs.map g).map l.write := by
  rw [List.map_map, List.map_map]
  exact List.map_congr_left fun x _ => h x

/-- A section whose parts are written alike is written as the join of their documents. -/
theorem Nest.text_joined_of {ns : List Nest} {ds : List Doc}
    (h : ns.map (·.text l) = ds.map l.write) : (joined ns).text l = l.write (.join ds) := by
  rw [text_joined, h, l.write_join]

theorem Nest.map_text_fragment (ds : List Doc) :
    (ds.map fragment).map (·.text l) = ds.map l.write := by
  rw [map_text l (g := id) (fun _ => rfl), List.map_id]

theorem Nest.text_ofDocs (ds : List Doc) : (ofDocs ds).text l = l.write (.join ds) :=
  text_joined_of l (map_text_fragment l ds)

theorem Property.text_nest (v : Conventions) (p : Property) :
    (p.nest v).text l = l.write (p.classDoc v) := Nest.text_ofDocs l _

theorem Method.text_nest (m : Method) : m.nest.text l = l.write m.classDoc := by
  unfold nest classDoc
  split
  · split
    · rfl
    · exact Nest.text_ofDocs l _
  · rfl

theorem Decorator.text_nest (d : Decorator) : d.nest.text l = l.write d.doc := by
  unfold nest doc
  split
  · rfl
  · exact Nest.text_ofDocs l _

theorem Enumeration.text_nest (e : Enumeration) : e.nest.text l = l.write e.doc := by
  unfold nest doc
  split
  · rfl
  · exact Nest.text_ofDocs l _

theorem Interface.text_nest (i : Interface) : i.nest.text l = l.write i.doc := by
  unfold nest doc
  split
  · rfl
  · apply Nest.text_joined_of
    simp only [List.map_cons, List.map_nil, Nest.text_ofDocs]
    rfl

namespace Class

theorem text_propertiesNest (v : Conventions) (c : Class) (isStatic : Bool) :
    (c.propertiesNest v isStatic).text l = l.write (c.propertiesDoc v isStatic) :=
  Nest.text_joined_of l (Nest.map_text l (fun p => p.text_nest l v) _)

theorem text_methodsNest (c : Class) (isStatic : Bool) :
    (c.methodsNest isStatic).text l = l.write (c.methodsDoc isStatic) :=
  Nest.text_joined_of l (Nest.map_text l (fun m => m.text_nest l) _)

theorem text_decoratorNest (c : Class) :
    c.decoratorNest.text l = l.write ((c.decorator.map (·.doc)).getD []) := by
  unfold decoratorNest
  cases c.decorator with
  | none => rfl
  | some d => exact d.text_nest l

theorem text_modelNest (c : Class) : c.modelNest.text l = l.write c.modelDoc := by
  unfold modelNest modelDoc
  split
  · exact Nest.text_joined_of l (Nest.map_text l (fun m => m.text_nest l) _)
  · rfl

theorem text_nest (v : Conventions) (c : Class) : (c.nest v).text l = l.write (c.doc v) := by
  unfold nest doc
  split
  · rfl
  · apply Nest.text_joined_of
    unfold parts
    simp only [List.map_append, List.map_cons, List.map_nil, text_decoratorNest,
      text_propertiesNest, text_methodsNest, text_modelNest, Nest.map_text_fragment]
    rfl

/-- A class is a section, with a name or without. -/
theorem text_nest_eq_join (v : Conventions) (c : Class) :
    (c.nest v).text l = l.join ((c.nest v).fragments.map l.write) := by
  unfold nest
  split
  · exact Nest.text_eq_join l _
  · exact Nest.text_eq_join l _

end Class

theorem Program.text_nest (p : Program) :
    p.nest.text p.options.layout = p.generate.output := by
  have htexts : (p.enums.map (·.nest) ++ p.interfaces.map (·.nest)
      ++ p.written.map (·.nest p.options.conventions)).map (·.text p.options.layout) = p.texts := by
    rw [p.texts_eq, List.map_append, List.map_append, Nest.map_text _ fun e => e.text_nest _,
      Nest.map_text _ fun i => i.text_nest _, Nest.map_text _ fun c => c.text_nest _ _]
    simp only [List.map_map]
    rfl
  rw [p.output_eq, nest, Nest.text_joined, List.map_cons, List.map_cons, List.map_nil,
    Nest.text_ofDocs, Nest.text_joined, htexts]
  rfl

end

/-! ## The law of nested joins -/

/-- Joining takes the fragments that are not blank together, whatever sections they come in. Joins
are joined as all that they join, from no fragments comes no text, and two lists one after the other
are joined as their two joins. Blank fragments count nowhere, and where there are no others nothing
at all comes out. So a section is the flat join of the fragments at its bottom, however deep they
stand; and so are the text of a class, which is joined section by section from the joins of its
members, and the text of a program, which joins those with the imports. -/
theorem joins_of_sections_are_flat (l : Layout) :
    (∀ xss : List (List String), l.join (xss.map l.join) = l.join xss.flatten) ∧
    (l.join [] = "" ∧
      ∀ xs ys : List String, l.join (xs ++ ys) = l.join [l.join xs, l.join ys]) ∧
    (∀ xs ys : List String, Padded xs ys → l.join ys = l.join xs) ∧
    (∀ xs : List String, (isBlank (l.join xs) = true ↔ ∀ x ∈ xs, isBlank x = true) ∧
      (isBlank (l.join xs) = true → l.join xs = "")) ∧
    (∀ ns : List Nest, (Nest.joined ns).text l = l.join (ns.map (·.text l)) ∧
      (Nest.joined ns).text l = l.join ((Nest.joined ns).fragments.map l.write)) ∧
    (∀ (v : Conventions) (c : Class), l.write (c.doc v) = (c.nest v).text l ∧
      l.write (c.doc v) = l.join ((c.nest v).fragments.map l.write)) ∧
    ∀ p : Program, p.options.layout = l →
      p.generate.output = p.nest.text l ∧
        p.generate.output = l.join (p.nest.fragments.map l.write) := by
  refine ⟨l.join_flatten, ⟨l.join_nil, l.join_append⟩, fun xs ys => l.join_padded, fun xs =>
    ⟨l.isBlank_join_iff xs, l.join_eq_empty_of_isBlank⟩, fun ns =>
    ⟨Nest.text_joined l ns, Nest.text_eq_join l ns⟩, fun v c => ?_, fun p hp => ?_⟩
  · rw [← c.text_nest l v]
    exact ⟨rfl, c.text_nest_eq_join l v⟩
  · rw [← p.text_nest, hp]
    exact ⟨rfl, Nest.text_eq_join l _⟩

/-- Blank fragments around the two lines of a block, a list of nothing else, and a program with a
nameless property. -/
theorem blank_fragments_of_a_block_count_nowhere :
    let p : Program := {
      options := .compact
      classes := [{ name := "Row", properties := [.named "a", .named ""] }] }
    Padded ["a\x7b", "\x7d"] [" ", "a\x7b", "", "\x7d", "\u3000"] ∧
    Layout.compact.join [" ", "a\x7b", "", "\x7d", "\u3000"]
      = Layout.compact.join ["a\x7b", "\x7d"] ∧
    isBlank (Layout.compact.join ["\t", "\u2028"]) = true ∧
    Layout.compact.join ["\t", "\u2028"] = "" ∧
    p.options.layout = .compact ∧
    p.generate.output = Layout.compact.join (p.nest.fragments.map Layout.compact.write) := by
  intro p
  obtain ⟨-, -, hpadded, hblank, -, -, hprogram⟩ := joins_of_sections_are_flat .compact
  have hblock : Padded ["a\x7b", "\x7d"] [" ", "a\x7b", "", "\x7d", "\u3000"] :=
    .blank rfl (.keep _ (.blank rfl (.keep _ (.blank rfl .nil))))
  obtain ⟨hall, hnothing⟩ := hblank ["\t", "\u2028"]
  have hspaces := hall.mpr (by decide)
  exact ⟨hblock, hpadded _ _ hblock, hspaces, hnothing hspaces, rfl, (hprogram p rfl).2⟩

end ModelScribe
