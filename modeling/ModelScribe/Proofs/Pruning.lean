-- Blank means absent. The test for a blank text stands in many places: in
-- each document of a member, in lists with commas, in rosters, in the choice
-- between a field and its accessors, in the question whether a class has a
-- constructor. All of them answer alike. So whatever is blank may as well be
-- taken out of the descriptors beforehand.
import ModelScribe.Proofs.Generation

namespace ModelScribe

open Text

/-! ## Pruned descriptors -/

def Property.prune (p : Property) : Property :=
  { p with
    value := nonBlank p.value
    getterBody := nonBlank p.getterBody
    setterBody := nonBlank p.setterBody }

/-- Properties or arguments, pruned, without those that have no name. -/
def Property.pruneAll (ps : List Property) : List Property :=
  (ps.filter (·.isNamed)).map (·.prune)

def Method.prune (m : Method) : Method := { m with args := Property.pruneAll m.args }

def EnumMember.prune (m : EnumMember) : EnumMember := { m with value := nonBlank m.value }

def Enumeration.prune (e : Enumeration) : Enumeration :=
  { e with members := (e.members.filter (!isBlank ·.name)).map (·.prune) }

def Outline.prune (o : Outline) : Outline :=
  { o with
    parent := nonBlank o.parent
    properties := Property.pruneAll o.properties
    methods := (o.methods.filter (·.isNamed)).map (·.prune) }

def Interface.prune (i : Interface) : Interface := { toOutline := i.toOutline.prune }

def Class.prune (c : Class) : Class :=
  { c with
    toOutline := c.toOutline.prune
    args := Property.pruneAll c.args
    superArgs := c.superArgs.filter (!isBlank ·)
    implements := c.implements.filter (!isBlank ·)
    decorator := c.decorator.filter (!isBlank ·.type)
    constructorCode := nonBlank c.constructorCode }

def Options.prune (o : Options) : Options := { o with classField := nonBlank o.classField }

/-- An interface without a name counts for its imports alone. -/
def Interface.matters (i : Interface) : Bool := !isBlank i.name || !i.imports.isEmpty

/-- A class without a name counts for its imports, and as a base model for the classes behind
it. -/
def Class.matters (c : Class) : Bool := !isBlank c.name || !c.imports.isEmpty || c.isBaseModel

/-- The program without anything that is blank. -/
def Program.prune (p : Program) : Program where
  options := p.options.prune
  enums := (p.enums.filter (!isBlank ·.name)).map (·.prune)
  interfaces := (p.interfaces.filter (·.matters)).map (·.prune)
  classes := (p.classes.filter (·.matters)).map (·.prune)

/-! ## Lists without their blank entries -/

@[simp] theorem Text.nonBlank_nonBlank (s : Option String) :
    nonBlank (nonBlank s) = nonBlank s := by
  cases s with
  | none => rfl
  | some t => simp [nonBlank]

section Lists

variable {α β : Type} {xs : List α} {keep : α → Bool} {prune : α → α}

/-- What writes nothing may be left out of a list before it is written. -/
theorem filter_map_prune {f : α → β} {kept : β → Bool} (hsame : ∀ x, f (prune x) = f x)
    (hgone : ∀ x, keep x = false → kept (f x) = false) :
    (((xs.filter keep).map prune).map f).filter kept = (xs.map f).filter kept := by
  induction xs with
  | nil => rfl
  | cons x xs ih =>
    cases hx : keep x with
    | true =>
      rw [List.filter_cons_of_pos hx, List.map_cons, List.map_cons, List.map_cons, hsame,
        List.filter_cons, List.filter_cons, ih]
    | false =>
      rw [List.filter_cons_of_neg (by simp [hx]), ih, List.map_cons,
        List.filter_cons_of_neg (by simp [hgone x hx])]

theorem filter_prune {p : α → Bool} (h : ∀ x, p (prune x) = p x) :
    ((xs.filter keep).map prune).filter p = ((xs.filter p).filter keep).map prune := by
  rw [List.filter_map, List.filter_filter, List.filter_filter]
  congr 2
  funext x
  rw [Function.comp_apply, h, Bool.and_comm]

theorem join_prune {f : α → Doc} (hsame : ∀ x, f (prune x) = f x)
    (hgone : ∀ x, keep x = false → (f x).isBlank = true) :
    Doc.join (((xs.filter keep).map prune).map f) = Doc.join (xs.map f) := by
  unfold Doc.join
  rw [filter_map_prune hsame fun x hx => by simp [hgone x hx]]

theorem commaList_prune {f : α → Doc} (hsame : ∀ x, f (prune x) = f x)
    (hgone : ∀ x, keep x = false → (f x).isBlank = true) :
    Doc.commaList (((xs.filter keep).map prune).map f) = Doc.commaList (xs.map f) := by
  unfold Doc.commaList
  rw [filter_map_prune hsame fun x hx => by simp [hgone x hx]]

end Lists

/-! ## Members -/

namespace Property

@[simp] theorem isNamed_prune (p : Property) : p.prune.isNamed = p.isNamed := rfl

@[simp] theorem defaultValue_prune (p : Property) : p.prune.defaultValue = p.defaultValue :=
  nonBlank_nonBlank p.value

theorem argDoc_prune (p : Property) : p.prune.argDoc = p.argDoc := by
  unfold argDoc
  rw [isNamed_prune, defaultValue_prune]
  rfl

theorem argDoc_of_nameless {p : Property} (h : p.isNamed = false) : p.argDoc.isBlank = true := by
  simp [argDoc, h, Doc.isBlank]

theorem paramDoc_of_nameless {p : Property} (h : p.isNamed = false) :
    p.paramDoc.isBlank = true := by
  simp [paramDoc, h, Doc.isBlank]

theorem interfaceDoc_of_nameless {p : Property} (h : p.isNamed = false) :
    p.interfaceDoc.isBlank = true := by
  simp [interfaceDoc, h, Doc.isBlank]

theorem classDoc_of_nameless {v : Conventions} {p : Property} (h : p.isNamed = false) :
    (p.classDoc v).isBlank = true := by
  simp [classDoc, members, h, Doc.isBlank, Doc.join]

@[simp] theorem usesAccessors_prune (p : Property) : p.prune.usesAccessors = p.usesAccessors := by
  simp [usesAccessors, prune]

theorem classDoc_prune (v : Conventions) (p : Property) : p.prune.classDoc v = p.classDoc v := by
  have hplain : p.prune.isPlain = p.isPlain := by
    unfold isPlain
    rw [usesAccessors_prune]
    rfl
  have hfield : p.prune.field v = p.field v := by
    unfold field
    rw [hplain, defaultValue_prune]
    rfl
  have hgetter : p.prune.getter = p.getter := by simp [getter, prune, backingField]
  have hsetter : p.prune.setter v = p.setter v := by
    simp [setter, setterSteps, prune, backingField]
  unfold classDoc members
  rw [hfield, hgetter, hsetter, usesAccessors_prune]
  rfl

theorem argsDoc_pruneAll (args : List Property) :
    Doc.commaList ((pruneAll args).map (·.argDoc)) = Doc.commaList (args.map (·.argDoc)) :=
  commaList_prune argDoc_prune fun _ h => argDoc_of_nameless h

end Property

namespace Method

theorem classDoc_prune (m : Method) : m.prune.classDoc = m.classDoc := by
  have hheader : m.prune.header = m.header := by
    unfold header prune
    rw [Property.argsDoc_pruneAll]
  unfold classDoc
  rw [hheader]
  rfl

theorem classDoc_of_nameless {m : Method} (h : m.isNamed = false) : m.classDoc.isBlank = true := by
  simp [classDoc, h, Doc.isBlank]

theorem interfaceDoc_prune (m : Method) : m.prune.interfaceDoc = m.interfaceDoc := by
  have hparams : Doc.commaList ((Property.pruneAll m.args).map (·.paramDoc))
      = Doc.commaList (m.args.map (·.paramDoc)) :=
    commaList_prune (fun _ => rfl) fun _ h => Property.paramDoc_of_nameless h
  unfold interfaceDoc prune
  rw [hparams]
  rfl

theorem interfaceDoc_of_nameless {m : Method} (h : m.isNamed = false) :
    m.interfaceDoc.isBlank = true := by
  simp [interfaceDoc, h, Doc.isBlank]

end Method

/-! ## Enumerations and interfaces -/

theorem EnumMember.doc_prune (m : EnumMember) : m.prune.doc = m.doc := by
  simp [doc, prune]

theorem Enumeration.doc_prune (e : Enumeration) : e.prune.doc = e.doc := by
  have hmembers : e.prune.membersDoc = e.membersDoc := by
    unfold membersDoc prune
    rw [filter_map_prune EnumMember.doc_prune]
    intro m hm
    have hname : isBlank m.name = true := by simpa using hm
    simp [EnumMember.doc, hname, Doc.isBlank]
  unfold doc
  rw [hmembers]
  rfl

theorem Outline.extendsDoc_prune (o : Outline) : o.prune.extendsDoc = o.extendsDoc := by
  simp [extendsDoc, supertype, prune]

theorem Interface.doc_prune (i : Interface) : i.prune.doc = i.doc := by
  have hproperties : Doc.join (i.prune.properties.map (·.interfaceDoc))
      = Doc.join (i.properties.map (·.interfaceDoc)) :=
    join_prune (fun _ => rfl) fun _ h => Property.interfaceDoc_of_nameless h
  have hmethods : Doc.join (i.prune.methods.map (·.interfaceDoc))
      = Doc.join (i.methods.map (·.interfaceDoc)) :=
    join_prune Method.interfaceDoc_prune fun _ h => Method.interfaceDoc_of_nameless h
  have hextends : i.prune.extendsDoc = i.extendsDoc := i.toOutline.extendsDoc_prune
  unfold doc
  rw [hproperties, hmethods, hextends]
  rfl

/-! ## Classes -/

namespace Class

@[simp] theorem supertype_prune (c : Class) : c.prune.supertype = c.supertype :=
  nonBlank_nonBlank c.parent

theorem names_prune (r : Roster) (c : Class) : r.names c.prune = r.names c := by
  have hallows : r.allows c.prune = r.allows c := by cases r <;> rfl
  have hnamed : (c.prune.properties.filter fun p => p.isNamed && r.admits p).map (·.name)
      = (c.properties.filter fun p => p.isNamed && r.admits p).map (·.name) := by
    have hadmits : ∀ p : Property, (p.prune.isNamed && r.admits p.prune)
        = (p.isNamed && r.admits p) := by
      intro p
      cases r <;> rfl
    have hsplit : (c.prune.properties.filter fun p => p.isNamed && r.admits p)
        = ((c.properties.filter fun p => p.isNamed && r.admits p).filter (·.isNamed)).map
          (·.prune) := filter_prune (p := fun p : Property => p.isNamed && r.admits p) hadmits
    have hkept : ((c.properties.filter fun p => p.isNamed && r.admits p).filter (·.isNamed))
        = c.properties.filter fun p => p.isNamed && r.admits p := by
      refine List.filter_eq_self.mpr fun p hp => ?_
      have hboth := (List.mem_filter.mp hp).2
      simp only [Bool.and_eq_true] at hboth
      exact hboth.1
    rw [hsplit, hkept, List.map_map]
    rfl
  unfold Roster.names
  rw [hallows, hnamed]

theorem propertiesDoc_prune (v : Conventions) (c : Class) (isStatic : Bool) :
    c.prune.propertiesDoc v isStatic = c.propertiesDoc v isStatic := by
  have hsplit : c.prune.properties.filter (·.isStatic == isStatic)
      = ((c.properties.filter (·.isStatic == isStatic)).filter (·.isNamed)).map (·.prune) :=
    filter_prune fun _ => rfl
  unfold propertiesDoc
  rw [hsplit, join_prune (Property.classDoc_prune v) fun _ h => Property.classDoc_of_nameless h]

theorem methodsDoc_prune (c : Class) (isStatic : Bool) :
    c.prune.methodsDoc isStatic = c.methodsDoc isStatic := by
  have hsplit : c.prune.methods.filter (·.isStatic == isStatic)
      = ((c.methods.filter (·.isStatic == isStatic)).filter (·.isNamed)).map (·.prune) :=
    filter_prune fun _ => rfl
  unfold methodsDoc
  rw [hsplit, join_prune Method.classDoc_prune fun _ h => Method.classDoc_of_nameless h]

theorem decoratorDoc_prune (c : Class) :
    (c.prune.decorator.map (·.doc)).getD [] = (c.decorator.map (·.doc)).getD [] := by
  unfold prune
  cases c.decorator with
  | none => rfl
  | some d => cases h : isBlank d.type <;> simp [h, Decorator.doc, Option.filter_some]

theorem header_prune (c : Class) : c.prune.header = c.header := by
  have himplements : c.prune.implementsDoc = c.implementsDoc := by
    simp [implementsDoc, prune, List.filter_filter]
  have hextends : c.prune.extendsDoc = c.extendsDoc := c.toOutline.extendsDoc_prune
  unfold header
  rw [himplements, hextends]
  rfl

theorem argsDoc_prune (c : Class) : c.prune.argsDoc = c.argsDoc :=
  Property.argsDoc_pruneAll c.args

theorem hasConstructor_prune (c : Class) : c.prune.hasConstructor = c.hasConstructor := by
  unfold hasConstructor
  rw [supertype_prune, argsDoc_prune, prune, nonBlank_nonBlank]

/-- The call of the supertype's constructor drops its blank arguments by itself. -/
theorem callSuper_doc_prune (args : List String) :
    (ConstructorStep.callSuper (args.filter (!isBlank ·))).lineDoc
      = (ConstructorStep.callSuper args).lineDoc := by
  have hprune : Doc.commaList (((args.filter (!isBlank ·)).map id).map fun a => [Mark.text a])
      = Doc.commaList (args.map fun a => [Mark.text a]) :=
    commaList_prune (fun _ => rfl) fun a ha => by simpa [Doc.isBlank, Mark.isBlank] using ha
  rw [List.map_id] at hprune
  simp only [ConstructorStep.lineDoc, ConstructorStep.doc, hprune]

theorem constructorDoc_prune (v : Conventions) (c : Class) :
    c.prune.constructorDoc v = c.constructorDoc v := by
  have hsteps : (c.prune.constructorSteps v).flatMap ConstructorStep.lineDoc
      = (c.constructorSteps v).flatMap ConstructorStep.lineDoc := by
    unfold constructorSteps
    simp only [supertype_prune, names_prune, List.flatMap_append]
    congr 2
    · split
      · rw [List.flatMap_cons, List.flatMap_cons]
        congr 1
        exact callSuper_doc_prune c.superArgs
      · rfl
    · unfold prune
      rw [nonBlank_nonBlank]
  unfold constructorDoc
  rw [hasConstructor_prune, argsDoc_prune, hsteps]

theorem rosterDocs_prune (c : Class) : c.prune.rosterDocs = c.rosterDocs := by
  unfold rosterDocs rosterDoc
  simp only [names_prune]
  rfl

/-- A class is written as it is without its blank parts. -/
theorem doc_prune (v : Conventions) (c : Class) : c.prune.doc v = c.doc v := by
  have hparts : c.prune.parts v = c.parts v := by
    unfold parts
    rw [decoratorDoc_prune, header_prune, propertiesDoc_prune, propertiesDoc_prune,
      methodsDoc_prune, methodsDoc_prune, rosterDocs_prune, constructorDoc_prune]
    rfl
  unfold doc
  rw [hparts]
  rfl

theorem settled_prune (seen : Bool) (c : Class) :
    c.prune.settled seen = (c.settled seen).prune := by
  unfold settled
  have hflag : c.prune.isBaseModel = c.isBaseModel := rfl
  rw [hflag]
  split <;> rfl

/-- A class that does not matter writes nothing, and it is no base model, so the classes behind it
are written as they would be without it. -/
theorem filter_docs_prune (v : Conventions) (seen : Bool) (classes : List Class) :
    ((writtenAfter seen ((classes.filter (·.matters)).map (·.prune))).map (·.doc v)).filter
        (!Doc.isBlank ·)
      = ((writtenAfter seen classes).map (·.doc v)).filter (!Doc.isBlank ·) := by
  induction classes generalizing seen with
  | nil => rfl
  | cons c rest ih =>
    cases hmatters : c.matters with
    | true =>
      have hflag : c.prune.isBaseModel = c.isBaseModel := rfl
      rw [List.filter_cons_of_pos hmatters, List.map_cons, writtenAfter_cons, writtenAfter_cons,
        List.map_cons, List.map_cons, List.filter_cons, List.filter_cons, hflag, settled_prune,
        doc_prune, ih]
    | false =>
      obtain ⟨⟨hname, -⟩, hbase⟩ : (isBlank c.name = true ∧ c.imports = [])
          ∧ c.isBaseModel = false := by simpa [matters] using hmatters
      have hblank : ((c.settled seen).doc v).isBlank = true := by
        simp [doc, hname, Doc.isBlank]
      rw [List.filter_cons_of_neg (by simp [hmatters]), ih, writtenAfter_cons, hbase,
        Bool.or_false, List.map_cons, List.filter_cons_of_neg (by simp [hblank])]

end Class

/-! ## Programs -/

/-- Declarations that are left out name no module. -/
theorem flatMap_imports_prune {α : Type} {xs : List α} {keep : α → Bool} {prune : α → α}
    {f : α → List Import} (hsame : ∀ x, f (prune x) = f x)
    (hgone : ∀ x, keep x = false → f x = []) :
    ((xs.filter keep).map prune).flatMap f = xs.flatMap f := by
  induction xs with
  | nil => rfl
  | cons x xs ih =>
    cases hx : keep x with
    | true =>
      rw [List.filter_cons_of_pos hx, List.map_cons, List.flatMap_cons, List.flatMap_cons, hsame,
        ih]
    | false =>
      rw [List.filter_cons_of_neg (by simp [hx]), List.flatMap_cons, hgone x hx, ih,
        List.nil_append]

namespace Program

variable (p : Program)

theorem imports_prune : p.prune.assembly.imports = p.assembly.imports := by
  have hinterfaces : p.prune.interfaces.flatMap (·.imports) = p.interfaces.flatMap (·.imports) := by
    refine flatMap_imports_prune (fun _ => rfl) fun i hi => ?_
    have hnone : isBlank i.name = true ∧ i.imports = [] := by simpa [Interface.matters] using hi
    exact hnone.2
  have hclasses : p.prune.classes.flatMap (·.imports) = p.classes.flatMap (·.imports) := by
    refine flatMap_imports_prune (fun _ => rfl) fun c hc => ?_
    have hnone : (isBlank c.name = true ∧ c.imports = []) ∧ c.isBaseModel = false := by
      simpa [Class.matters] using hc
    exact hnone.1.2
  rw [assembly_eq, assembly_eq, hinterfaces, hclasses]

theorem manifest_prune : p.prune.manifest = p.manifest := by
  have henums : (p.prune.enums.map (·.name)).filter (!isBlank ·)
      = (p.enums.map (·.name)).filter (!isBlank ·) :=
    filter_map_prune (fun _ => rfl) fun _ h => h
  have hinterfaces : (p.prune.interfaces.map (·.name)).filter (!isBlank ·)
      = (p.interfaces.map (·.name)).filter (!isBlank ·) := by
    refine filter_map_prune (fun _ => rfl) fun i hi => ?_
    have hnone : isBlank i.name = true ∧ i.imports = [] := by simpa [Interface.matters] using hi
    simp [hnone.1]
  have hclasses : ((p.prune.classes.filter (!·.isBaseClass)).map (·.name)).filter (!isBlank ·)
      = ((p.classes.filter (!·.isBaseClass)).map (·.name)).filter (!isBlank ·) := by
    have hsplit : p.prune.classes.filter (!·.isBaseClass)
        = ((p.classes.filter (!·.isBaseClass)).filter (·.matters)).map (·.prune) :=
      filter_prune fun _ => rfl
    rw [hsplit]
    refine filter_map_prune (fun _ => rfl) fun c hc => ?_
    have hnone : (isBlank c.name = true ∧ c.imports = []) ∧ c.isBaseModel = false := by
      simpa [Class.matters] using hc
    simp [hnone.1.1]
  unfold manifest
  rw [assembly_eq, assembly_eq, henums, hinterfaces, hclasses]

theorem conventions_prune : p.prune.options.conventions = p.options.conventions := by
  simp [prune, Options.prune, Options.conventions]

theorem filter_blocks_prune :
    p.prune.assembly.blocks.filter (!Doc.isBlank ·)
      = p.assembly.blocks.filter (!Doc.isBlank ·) := by
  have henums : (p.prune.enums.map (·.doc)).filter (!Doc.isBlank ·)
      = (p.enums.map (·.doc)).filter (!Doc.isBlank ·) := by
    refine filter_map_prune Enumeration.doc_prune fun e he => ?_
    have hname : isBlank e.name = true := by simpa using he
    simp [Enumeration.doc, hname, Doc.isBlank]
  have hinterfaces : (p.prune.interfaces.map (·.doc)).filter (!Doc.isBlank ·)
      = (p.interfaces.map (·.doc)).filter (!Doc.isBlank ·) := by
    refine filter_map_prune Interface.doc_prune fun i hi => ?_
    have hnone : isBlank i.name = true ∧ i.imports = [] := by simpa [Interface.matters] using hi
    simp [Interface.doc, hnone.1, Doc.isBlank]
  have hclasses : p.prune.classes = (p.classes.filter (·.matters)).map (·.prune) := rfl
  rw [assembly_eq, assembly_eq, List.filter_append, List.filter_append, List.filter_append,
    List.filter_append, henums, hinterfaces, conventions_prune, written_eq, written_eq, hclasses,
    Class.filter_docs_prune]

/-- Blank means absent, everywhere: a program without its blank members, arguments, entries, values,
bodies and supertypes, and without the nameless declarations that nothing else hangs on, exports the
same names and has the same text, in every layout. -/
theorem a_pruned_program_generates_the_same : p.prune.generate = p.generate := by
  have hblocks : Doc.join p.prune.assembly.blocks = Doc.join p.assembly.blocks := by
    unfold Doc.join
    rw [filter_blocks_prune]
  have hdoc : p.prune.doc = p.doc := by
    unfold doc
    rw [imports_prune, hblocks]
  have hlayout : p.prune.options.layout = p.options.layout := rfl
  unfold generate
  rw [manifest_prune, hdoc, hlayout]

end Program

end ModelScribe
