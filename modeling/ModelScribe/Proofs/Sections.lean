-- The sections of a class. The body of a class is composed part by part, and
-- some parts are joined before they come to the others. What is written is
-- one flat list of fragments all the same: each named member stands in it
-- once, with the static ones apart from the others. So it does not matter how
-- the two kinds are mixed in the declaration, but for one thing. The rosters
-- take their names from the declaration as it is.
import Mathlib.Data.List.Forall2
import ModelScribe.Proofs.ProgramText
import ModelScribe.Proofs.Pruning

namespace ModelScribe

open Text

/-! ## The members of either kind -/

/-- The lists have the same members of either kind, in the same order: they differ at most in how
the two kinds are mixed. -/
def Interleaved {α : Type} (kind : α → Bool) (xs ys : List α) : Prop :=
  ∀ b, ys.filter (kind · == b) = xs.filter (kind · == b)

instance {α : Type} [DecidableEq α] (kind : α → Bool) (xs ys : List α) :
    Decidable (Interleaved kind xs ys) :=
  inferInstanceAs (Decidable (∀ b, ys.filter (kind · == b) = xs.filter (kind · == b)))

section Kinds

variable {α : Type} {kind : α → Bool} {xs ys : List α}

/-- Taking the two kinds apart loses nothing and doubles nothing. -/
theorem perm_of_kinds (kind : α → Bool) (xs : List α) :
    (xs.filter (kind · == true) ++ xs.filter (kind · == false)).Perm xs := by
  have hother : (fun x => kind x == false) = fun x => !(kind x == true) := by
    funext x
    cases kind x <;> rfl
  rw [hother]
  exact List.filter_append_perm (kind · == true) xs

theorem Interleaved.perm (h : Interleaved kind xs ys) : ys.Perm xs := by
  have hys := perm_of_kinds kind ys
  rw [h true, h false] at hys
  exact hys.symm.trans (perm_of_kinds kind xs)

/-- The members of one kind that pass a test, of either kind, are all that pass it. -/
theorem perm_filter_of_kinds (kind keep : α → Bool) (xs : List α) :
    ((xs.filter (kind · == true)).filter keep ++ (xs.filter (kind · == false)).filter keep).Perm
      (xs.filter keep) := by
  rw [← List.filter_append]
  exact (perm_of_kinds kind xs).filter keep

end Kinds

namespace Class

/-! ## The flat list of fragments -/

/-- The properties with a name that are static, or those that are not, in declaration order. -/
def namedProperties (c : Class) (isStatic : Bool) : List Property :=
  (c.properties.filter (·.isStatic == isStatic)).filter (·.isNamed)

/-- The methods with a name that are static, or those that are not, in declaration order. -/
def namedMethods (c : Class) (isStatic : Bool) : List Method :=
  (c.methods.filter (·.isStatic == isStatic)).filter (·.isNamed)

/-- The sections of a class in the order in which they are written, each as its fragments. -/
def sections (v : Conventions) (c : Class) : List (List Doc) := [
  c.decorator.toList.map (·.doc),
  [c.header],
  (c.namedProperties true).map (·.classDoc v),
  (c.namedMethods true).map (·.classDoc),
  (c.namedProperties false).map (·.classDoc v),
  c.rosterDocs,
  if c.hasConstructor then [c.constructorDoc v] else [],
  if c.isBaseModel then (BaseModel.methods c).map (·.classDoc) else [],
  (c.namedMethods false).map (·.classDoc),
  [["\x7d"]]]

/-- A nameless member writes nothing, so only the others count. -/
theorem propertiesDoc_eq (v : Conventions) (c : Class) (isStatic : Bool) :
    c.propertiesDoc v isStatic = .join ((c.namedProperties isStatic).map (·.classDoc v)) := by
  have hjoin : Doc.join ((((c.properties.filter (·.isStatic == isStatic)).filter (·.isNamed)).map
      id).map (·.classDoc v)) = c.propertiesDoc v isStatic :=
    join_prune (fun _ => rfl) fun p hp => Property.classDoc_of_nameless hp
  rw [List.map_id] at hjoin
  exact hjoin.symm

theorem methodsDoc_eq (c : Class) (isStatic : Bool) :
    c.methodsDoc isStatic = .join ((c.namedMethods isStatic).map (·.classDoc)) := by
  have hjoin : Doc.join ((((c.methods.filter (·.isStatic == isStatic)).filter (·.isNamed)).map
      id).map (·.classDoc)) = c.methodsDoc isStatic :=
    join_prune (fun _ => rfl) fun m hm => Method.classDoc_of_nameless hm
  rw [List.map_id] at hjoin
  exact hjoin.symm

theorem join_singleton_of_visible (l : Layout) {d : Doc} (h : d.Visible) :
    l.join [l.write d] = l.write d := by
  cases hblank : Text.isBlank (l.write d) with
  | true =>
    rw [l.isBlank_write] at hblank
    rw [h hblank]
    rfl
  | false => rw [l.join_cons_of_visible hblank, l.join_nil, if_pos rfl]

/-- The text of a class is the flat join of its sections. -/
theorem write_doc_eq (l : Layout) (v : Conventions) {c : Class} (h : isBlank c.name = false) :
    l.write (c.doc v) = l.join ((c.sections v).flatten.map l.write) := by
  have hvisible := c.visible_parts v
  rw [forall_mem_parts] at hvisible
  obtain ⟨hdecorator, hheader, -, -, -, -, hconstructor, -, -, hlast⟩ := hvisible
  have hsections : (c.sections v).flatten.map l.write
      = ((c.sections v).map (List.map l.write)).flatten := List.map_flatten
  have hdecorated : l.join ((c.decorator.toList.map (·.doc)).map l.write)
      = l.write ((c.decorator.map (·.doc)).getD []) := by
    cases hd : c.decorator with
    | none => rfl
    | some d =>
      rw [hd] at hdecorator
      exact join_singleton_of_visible l hdecorator
  have hconstructed : l.join ((if c.hasConstructor then [c.constructorDoc v] else []).map l.write)
      = l.write (c.constructorDoc v) := by
    cases hc : c.hasConstructor with
    | false =>
      rw [constructorDoc, hc]
      rfl
    | true => exact join_singleton_of_visible l hconstructor
  have hmodel : l.join ((if c.isBaseModel then (BaseModel.methods c).map (·.classDoc)
      else []).map l.write) = l.write c.modelDoc := by
    unfold modelDoc
    split
    · exact (l.write_join _).symm
    · rfl
  rw [hsections, ← l.join_flatten]
  unfold doc
  rw [h, if_neg (by decide), l.write_join]
  simp only [parts, sections, List.map_append, List.map_cons, List.map_nil, propertiesDoc_eq,
    methodsDoc_eq, hdecorated, hconstructed, hmodel, l.write_join,
    join_singleton_of_visible l hheader, join_singleton_of_visible l hlast]
  rw [List.append_assoc]
  exact l.join_append_congr (l.join_cons_join _ _).symm _

end Class

/-! ### Members are written

The flat join drops what is blank, and that is no member with anything to write. -/

theorem Property.isBlank_classDoc_of_members {v : Conventions} {p : Property}
    (h : p.members v ≠ []) : (p.classDoc v).isBlank = false := by
  obtain ⟨m, rest, hmembers⟩ := List.exists_cons_of_ne_nil h
  have hmem : m ∈ p.members v := by
    rw [hmembers]
    exact List.mem_cons_self
  apply Doc.isBlank_join_of_mem (List.mem_map_of_mem hmem)
  cases m with
  | field name access type value =>
    exact Doc.isBlank_of_mem (m := .text ";") (by simp [PropertyMember.doc]) (by decide)
  | getter name access type body =>
    exact Doc.isBlank_of_mem (m := .text "get ") (by simp [PropertyMember.doc]) (by decide)
  | setter name access type body =>
    exact Doc.isBlank_of_mem (m := .text "set ") (by simp [PropertyMember.doc]) (by decide)

/-- A property shows in a class when it has a name and there is a field, a getter or a setter to
write. -/
theorem Property.isBlank_classDoc_iff {v : Conventions} {p : Property} :
    (p.classDoc v).isBlank = false ↔ isBlank p.name = false
      ∧ (p.declare = true ∨ p.usesAccessors = true ∧ (p.read = true ∨ p.write = true)) := by
  have hmembers : p.members v ≠ [] ↔ isBlank p.name = false
      ∧ (p.declare = true ∨ p.usesAccessors = true ∧ (p.read = true ∨ p.write = true)) := by
    unfold members isNamed
    cases isBlank p.name <;> cases p.declare <;> cases p.usesAccessors <;> cases p.read <;>
      cases p.write <;> simp
  rw [← hmembers]
  refine ⟨fun h hnone => ?_, isBlank_classDoc_of_members⟩
  rw [classDoc, hnone] at h
  cases h

theorem Method.isBlank_classDoc {m : Method} (h : m.isNamed = true) :
    m.classDoc.isBlank = false := by
  have hname : Text.isBlank m.name = false := by simpa [isNamed] using h
  have hheader : Mark.text m.name ∈ m.header := by simp [header]
  unfold classDoc
  rw [if_pos h]
  split
  · exact Doc.isBlank_of_mem (m := .text m.name) (by simp [hheader]) hname
  · apply Doc.isBlank_join_of_mem List.mem_cons_self
    exact Doc.isBlank_of_mem (m := .text m.name) (by simp [hheader]) hname

/-! ## Texts that differ in their lists -/

namespace Class

/-- The two documents are the same piece by piece, but where one has the names of the class `c` for
a roster and the other has those of the class `d`. -/
inductive SameButLists (c d : Class) : Doc → Doc → Prop
  | same (e : Doc) : SameButLists c d e e
  | append {e e' f f' : Doc} :
      SameButLists c d e e' → SameButLists c d f f' → SameButLists c d (e ++ f) (e' ++ f')
  | list (r : Roster) : SameButLists c d (quotedList (r.names c)) (quotedList (r.names d))

namespace SameButLists

variable {c d : Class}

theorem flatMap {α : Type} {xs : List α} {f g : α → Doc}
    (h : ∀ x ∈ xs, SameButLists c d (f x) (g x)) :
    SameButLists c d (xs.flatMap f) (xs.flatMap g) := by
  induction xs with
  | nil => exact .same []
  | cons x rest ih =>
    obtain ⟨hx, hrest⟩ := List.forall_mem_cons.mp h
    rw [List.flatMap_cons, List.flatMap_cons]
    exact hx.append (ih hrest)

theorem intercalate (sep : Doc) {es fs : List Doc} (h : List.Forall₂ (SameButLists c d) es fs) :
    SameButLists c d (sep.intercalate es) (sep.intercalate fs) := by
  induction h with
  | nil => exact .same _
  | cons he hrest ih =>
    cases hrest with
    | nil => simpa using he
    | cons he' hrest =>
      rw [List.intercalate_cons_cons, List.intercalate_cons_cons]
      exact (he.append (.same sep)).append ih

theorem isBlank_quotedList (names : List String) :
    (quotedList names).isBlank = names.isEmpty := by
  cases names with
  | nil => rfl
  | cons n rest =>
    obtain ⟨behind, heq⟩ := Doc.exists_intercalate_eq [Mark.text ",", .space]
      ["'", Mark.text n, "'"] (rest.map fun n => ["'", Mark.text n, "'"])
    refine Doc.isBlank_of_mem (m := .text "'") ?_ (by decide)
    unfold quotedList
    rw [List.map_cons, heq]
    simp

/-- Rosters with the same names show in the same places. -/
theorem isBlank_eq (hnames : ∀ r : Roster, (r.names d).Perm (r.names c)) {e f : Doc}
    (h : SameButLists c d e f) : e.isBlank = f.isBlank := by
  induction h with
  | same e => rfl
  | append _ _ he hf =>
    unfold Doc.isBlank at he hf ⊢
    rw [List.all_append, List.all_append, he, hf]
  | list r => rw [isBlank_quotedList, isBlank_quotedList, (hnames r).isEmpty_eq]

theorem join (hnames : ∀ r : Roster, (r.names d).Perm (r.names c)) {es fs : List Doc}
    (h : List.Forall₂ (SameButLists c d) es fs) : SameButLists c d (.join es) (.join fs) := by
  apply intercalate
  refine List.rel_filter ?_ h
  intro e f hef
  simp [isBlank_eq hnames hef]

end SameButLists

/-! ## Other orders of the members -/

/-- The class with its members declared in other lists. -/
def redeclared (c : Class) (properties : List Property) (methods : List Method) : Class :=
  { c with properties, methods }

variable {c : Class} {ps : List Property} {ms : List Method}

theorem perm_names_redeclared (hps : ps.Perm c.properties) (r : Roster) :
    (r.names (c.redeclared ps ms)).Perm (r.names c) := by
  have hallows : r.allows (c.redeclared ps ms) = r.allows c := by cases r <;> rfl
  unfold Roster.names
  rw [hallows]
  split
  · exact (hps.filter _).map _
  · exact .refl _

section Lists

variable {v : Conventions} (hnames : ∀ r : Roster, (r.names (c.redeclared ps ms)).Perm (r.names c))

include hnames

theorem sameButLists_rosterDocs : List.Forall₂ (SameButLists c (c.redeclared ps ms)) c.rosterDocs
    (c.redeclared ps ms).rosterDocs := by
  have hroster (r : Roster) : SameButLists c (c.redeclared ps ms) (c.rosterDoc r)
      ((c.redeclared ps ms).rosterDoc r) := by
    unfold rosterDoc
    rw [(hnames r).isEmpty_eq]
    simp only [Doc.cat, List.flatten_cons]
    refine .append (.same _) (.append ?_ (.same _))
    split
    · exact .same _
    · exact .append (.same _) (.append (.list r) (.same _))
  have hmodel : (c.redeclared ps ms).isBaseModel = c.isBaseModel := rfl
  unfold rosterDocs
  rw [hmodel]
  split
  · exact .cons (hroster .clones) (.cons (hroster .exports) .nil)
  · exact .nil

/-- The statements of the constructor, but for the names that it enlists. -/
theorem sameButLists_constructorSteps :
    SameButLists c (c.redeclared ps ms) ((c.constructorSteps v).flatMap ConstructorStep.lineDoc)
      (((c.redeclared ps ms).constructorSteps v).flatMap ConstructorStep.lineDoc) := by
  have hkept : (Roster.all.filter fun r => !(r.names (c.redeclared ps ms)).isEmpty)
      = Roster.all.filter fun r => !(r.names c).isEmpty :=
    List.filter_congr fun r _ => by rw [(hnames r).isEmpty_eq]
  have hstep (r : Roster) : SameButLists c (c.redeclared ps ms)
      (ConstructorStep.enlist r.field (r.names c)).lineDoc
      (ConstructorStep.enlist r.field (r.names (c.redeclared ps ms))).lineDoc := by
    simp only [ConstructorStep.lineDoc, ConstructorStep.doc, Doc.cat, List.flatten_cons]
    exact .append (.same _) (.append (.append (.same _) (.append (.list r) (.same _))) (.same _))
  unfold constructorSteps
  rw [hkept]
  simp only [List.flatMap_append, List.flatMap_map]
  exact .append (.append (.same _) (.flatMap fun r _ => hstep r)) (.same _)

theorem sameButLists_constructorDoc : SameButLists c (c.redeclared ps ms) (c.constructorDoc v)
    ((c.redeclared ps ms).constructorDoc v) := by
  have hconstructor : (c.redeclared ps ms).hasConstructor = c.hasConstructor := rfl
  unfold constructorDoc
  rw [hconstructor]
  split
  · simp only [Doc.cat, List.flatten_cons]
    exact .append (.same _) (.append (.same _) (.append (.same _)
      (.append (sameButLists_constructorSteps hnames) (.same _))))
  · exact .same _

end Lists

/-- Another order of the two kinds of members shows in the lists of names alone. -/
theorem sameButLists_redeclared (v : Conventions) (hps : Interleaved (·.isStatic) c.properties ps)
    (hms : Interleaved (·.isStatic) c.methods ms) :
    SameButLists c (c.redeclared ps ms) (c.doc v) ((c.redeclared ps ms).doc v) := by
  have hnames : ∀ r : Roster, (r.names (c.redeclared ps ms)).Perm (r.names c) :=
    perm_names_redeclared hps.perm
  have hproperties (isStatic : Bool) :
      (c.redeclared ps ms).propertiesDoc v isStatic = c.propertiesDoc v isStatic := by
    unfold propertiesDoc
    rw [← hps isStatic]
    rfl
  have hmethods (isStatic : Bool) :
      (c.redeclared ps ms).methodsDoc isStatic = c.methodsDoc isStatic := by
    unfold methodsDoc
    rw [← hms isStatic]
    rfl
  have hsame (ds : List Doc) : List.Forall₂ (SameButLists c (c.redeclared ps ms)) ds ds :=
    List.forall₂_same.mpr fun d _ => .same d
  have hname : (c.redeclared ps ms).name = c.name := rfl
  unfold doc
  rw [hname]
  split
  · exact .same _
  · apply SameButLists.join hnames
    unfold parts
    rw [hproperties, hproperties, hmethods, hmethods]
    refine List.rel_append (List.rel_append (hsame _) (sameButLists_rosterDocs hnames)) ?_
    exact .cons (sameButLists_constructorDoc hnames) (hsame _)

/-- Where two classes have no names for their rosters, nothing is left that could differ. -/
theorem SameButLists.eq_of_names_eq {c d : Class} (hnames : ∀ r : Roster, r.names c = r.names d)
    {e f : Doc} (h : SameButLists c d e f) : e = f := by
  induction h with
  | same e => rfl
  | append _ _ he hf => rw [he, hf]
  | list r => rw [hnames r]

theorem names_of_incapable {c : Class} (hclone : c.canClone = false) (hexport : c.canExport = false)
    (r : Roster) : r.names c = [] := by
  cases r <;> simp [Roster.names, Roster.allows, hclone, hexport]

/-! ## The law of sections -/

/-- A class is written as one flat join: decorator, header, static properties, static methods, the
other properties, the roster fields, the constructor, the methods of a base model, the other
methods and the closing brace. Every named member stands in it once, in declaration order within its
section, and a property is dropped only when neither its field nor an accessor is to be written. So
a class in which the two kinds of members are mixed in another way has the same text if it has no
capability, and otherwise one that differs in the order of the names in its rosters alone. -/
theorem sections_stand_in_order (l : Layout) (v : Conventions) (c : Class)
    (h : isBlank c.name = false) :
    l.write (c.doc v) = l.join ((c.sections v).flatten.map l.write)
    ∧ ((c.namedProperties true ++ c.namedProperties false).Perm (c.properties.filter (·.isNamed))
      ∧ ∀ p ∈ c.properties, isBlank (l.write (p.classDoc v)) = false ↔ isBlank p.name = false
        ∧ (p.declare = true ∨ p.usesAccessors = true ∧ (p.read = true ∨ p.write = true)))
    ∧ ((c.namedMethods true ++ c.namedMethods false).Perm (c.methods.filter (·.isNamed))
      ∧ ∀ m ∈ c.methods, m.isNamed = true → isBlank (l.write m.classDoc) = false)
    ∧ ∀ (ps : List Property) (ms : List Method), Interleaved (·.isStatic) c.properties ps →
        Interleaved (·.isStatic) c.methods ms →
          (c.canClone = false → c.canExport = false →
            l.write ((c.redeclared ps ms).doc v) = l.write (c.doc v))
          ∧ (∀ r : Roster, (r.names (c.redeclared ps ms)).Perm (r.names c))
          ∧ SameButLists c (c.redeclared ps ms) (c.doc v) ((c.redeclared ps ms).doc v) := by
  refine ⟨c.write_doc_eq l v h, ⟨perm_filter_of_kinds _ _ _, ?_⟩, ⟨perm_filter_of_kinds _ _ _, ?_⟩,
    ?_⟩
  · intro p _
    rw [l.isBlank_write, Property.isBlank_classDoc_iff]
  · intro m _ hm
    rw [l.isBlank_write, Method.isBlank_classDoc hm]
  · intro ps ms hps hms
    have hlists := sameButLists_redeclared v hps hms
    refine ⟨?_, perm_names_redeclared hps.perm, hlists⟩
    intro hclone hexport
    have hnames (r : Roster) : r.names c = r.names (c.redeclared ps ms) := by
      rw [names_of_incapable hclone hexport,
        names_of_incapable (c := c.redeclared ps ms) hclone hexport]
    rw [hlists.eq_of_names_eq hnames]

/-- A class without capabilities that declares its static members first, or where they fall. -/
theorem the_static_members_of_a_tally_may_be_declared_first :
    let total := (Property.named "total").asStatic
    let reset := (Method.named "reset").asStatic
    let c : Class := {
      name := "Tally", properties := [.named "a", total, .named "b"]
      methods := [.named "add", reset], decorator := some (.ofType "Entity") }
    let ps := [total, .named "a", .named "b"]
    let ms := [reset, .named "add"]
    isBlank c.name = false
    ∧ (Interleaved (·.isStatic) c.properties ps ∧ Interleaved (·.isStatic) c.methods ms)
    ∧ (c.canClone = false ∧ c.canExport = false)
    ∧ Layout.standard.write ((c.redeclared ps ms).doc ({} : Options).conventions)
      = Layout.standard.write (c.doc ({} : Options).conventions) := by
  intro total reset c ps ms
  have hname : isBlank c.name = false := by decide
  have hps : Interleaved (·.isStatic) c.properties ps := by decide
  have hms : Interleaved (·.isStatic) c.methods ms := by decide
  have hsections := sections_stand_in_order .standard ({} : Options).conventions c hname
  exact ⟨hname, ⟨hps, hms⟩, ⟨rfl, rfl⟩, (hsections.2.2.2 ps ms hps hms).1 rfl rfl⟩

end Class

end ModelScribe
