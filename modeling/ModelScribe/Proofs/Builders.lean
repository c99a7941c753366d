-- Building by calls. What a document states can also be built by calls, each
-- of which sets one field or adds one item. A build makes, builder by
-- builder, the calls that the definition asks for; how the calls of different
-- builders are mixed is its own affair, and a call that would change nothing
-- may be left out. Main statement: every such build of a definition generates
-- what the definition itself generates.
import Mathlib.Data.List.Forall2
import ModelScribe.Proofs.ReadingBack
import ModelScribe.Proofs.TomlReading

namespace ModelScribe

/-! ## Calls in any mixture -/

section

variable {E C : Type} {apply : E → C → E} {builder : C → Nat} {fresh e : E} {wanted cs : List C}

/-- Builder by builder, the two lists have the same calls in the same order. -/
def SameCalls (builder : C → Nat) (cs cs' : List C) : Prop :=
  ∀ b, cs.filter (builder · == b) = cs'.filter (builder · == b)

/-- The entity comes from the fresh one by the calls that are wanted, the calls of different
builders in any mixture. Some builders may not be called at all, if the calls that are wanted
of them change nothing in the fresh entity. -/
def BuiltBy (apply : E → C → E) (builder : C → Nat) (fresh : E) (wanted : List C) (e : E) :
    Prop :=
  ∃ (omits : Nat → Bool) (cs : List C),
    (∀ c ∈ wanted, omits (builder c) → apply fresh c = fresh) ∧
      SameCalls builder cs (wanted.filter fun c => !omits (builder c)) ∧
      cs.foldl apply fresh = e

/-- Calls of different builders may trade places. -/
def Commute (apply : E → C → E) (builder : C → Nat) : Prop :=
  ∀ e c c', builder c ≠ builder c' → apply (apply e c) c' = apply (apply e c') c

/-- A call may be taken before the calls of other builders. -/
theorem foldl_append_cons (hcomm : Commute apply builder) {c : C} {before : List C}
    (hbefore : ∀ c' ∈ before, builder c' ≠ builder c) (after : List C) (e : E) :
    (before ++ c :: after).foldl apply e = (before ++ after).foldl apply (apply e c) := by
  induction before generalizing e with
  | nil => rfl
  | cons c' before ih =>
    obtain ⟨hne, hbefore⟩ := List.forall_mem_cons.mp hbefore
    rw [List.cons_append, List.foldl_cons, ih hbefore, List.cons_append, List.foldl_cons,
      hcomm e c' c hne]

theorem SameCalls.foldl_eq (hcomm : Commute apply builder) (h : SameCalls builder cs wanted)
    (e : E) : cs.foldl apply e = wanted.foldl apply e := by
  induction cs generalizing wanted e with
  | nil =>
    cases wanted with
    | nil => rfl
    | cons c wanted => simpa using h (builder c)
  | cons c cs ih =>
    -- The first call is also the first of its builder among the wanted ones.
    have hc := h (builder c)
    rw [List.filter_cons, if_pos (beq_self_eq_true _)] at hc
    obtain ⟨before, after, rfl, hbefore, -, hafter⟩ := List.filter_eq_cons_iff.mp hc.symm
    have hne : ∀ c' ∈ before, builder c' ≠ builder c := by simpa using hbefore
    rw [List.foldl_cons, foldl_append_cons hcomm hne]
    refine ih (fun b => ?_) _
    by_cases hb : builder c = b
    · subst hb
      rw [List.filter_append, List.filter_eq_nil_iff.mpr hbefore, hafter, List.nil_append]
    · simpa [hb] using h b

theorem filter_filter_builder (keep : Nat → Bool) (b : Nat) (cs : List C) :
    (cs.filter fun c => keep (builder c)).filter (builder · == b)
      = if keep b then cs.filter (builder · == b) else [] := by
  induction cs with
  | nil => simp
  | cons c cs ih => by_cases hb : builder c = b <;> cases hkeep : keep (builder c) <;> simp_all

/-- What a build yields does not depend on its choices. -/
theorem BuiltBy.eq_foldl (hcomm : Commute apply builder)
    (h : BuiltBy apply builder fresh wanted e) : e = wanted.foldl apply fresh := by
  obtain ⟨omits, cs, hidle, hcs, rfl⟩ := h
  let omitted := wanted.filter fun c => omits (builder c)
  let made := wanted.filter fun c => !omits (builder c)
  have homitted : omitted.foldl apply fresh = fresh :=
    List.foldlRecOn (motive := (· = fresh)) omitted apply rfl fun e he c hc => by
      obtain ⟨hwanted, hc⟩ := List.mem_filter.mp hc
      rw [he, hidle c hwanted hc]
  have hsame : SameCalls builder (omitted ++ made) wanted := fun b => by
    rw [List.filter_append, filter_filter_builder omits, filter_filter_builder (!omits ·)]
    cases omits b <;> simp
  rw [hcs.foldl_eq hcomm, ← hsame.foldl_eq hcomm, List.foldl_append, homitted]

theorem builtBy_iff (hcomm : Commute apply builder) :
    BuiltBy apply builder fresh wanted e ↔ e = wanted.foldl apply fresh := by
  constructor
  · exact BuiltBy.eq_foldl hcomm
  · rintro rfl
    exact ⟨fun _ => false, wanted, by simp, by simp [SameCalls], rfl⟩

/-- Calls that append items to a list append them all. -/
theorem foldl_map_append {α : Type} {call : α → C} (set : List α → E)
    (h : ∀ as a, apply (set as) (call a) = set (as ++ [a])) (as bs : List α) :
    (bs.map call).foldl apply (set as) = set (as ++ bs) := by
  induction bs generalizing as with
  | nil => rw [List.append_nil]; rfl
  | cons b bs ih => rw [List.map_cons, List.foldl_cons, h, ih, List.append_assoc]; rfl

end

/-- What is built item by item is fixed, if each item is. -/
theorem forall₂_iff_eq_map {α β : Type} {Built : α → β → Prop} (made : α → β)
    (h : ∀ a b, Built a b ↔ b = made a) {as : List α} {bs : List β} :
    List.Forall₂ Built as bs ↔ bs = as.map made := by
  obtain rfl : Built = (made · = ·) :=
    funext fun a => funext fun b => propext ((h a b).trans eq_comm)
  rw [← List.forall₂_map_left_iff, List.forall₂_eq_eq_eq, eq_comm]

theorem optionRel_iff_eq_map {α β : Type} {Built : α → β → Prop} (made : α → β)
    (h : ∀ a b, Built a b ↔ b = made a) {a : Option α} {b : Option β} :
    Option.Rel Built a b ↔ b = a.map made := by
  cases a <;> cases b <;> simp [h]

/-! ## Properties -/

/-- A call of one of the builders of a property. -/
inductive PropertyCall where
  | ofType (type : String)
  | withValue (value : String)
  | asOptional
  | asStatic
  | readable (read : Bool)
  | writable (write : Bool)
  | declared (declare : Bool)
  | withModifier (modifier : Modifier)
  | cloneable (canClone : Bool)
  | exportable (canExport : Bool)
  | undoable (canUndo : Bool)
  | tracked
  | trackingState (trackState : Bool)
  | trackingDate (trackDate : Bool)
  | withGetter (body : String)
  | withSetter (body : String)

def PropertyCall.apply (p : Property) : PropertyCall → Property
  | .ofType type => p.ofType type
  | .withValue value => p.withValue value
  | .asOptional => p.asOptional
  | .asStatic => p.asStatic
  | .readable read => p.readable read
  | .writable write => p.writable write
  | .declared declare => p.declared declare
  | .withModifier modifier => p.withModifier modifier
  | .cloneable canClone => p.cloneable canClone
  | .exportable canExport => p.exportable canExport
  | .undoable canUndo => p.undoable canUndo
  | .tracked => p.tracked
  | .trackingState trackState => p.trackingState trackState
  | .trackingDate trackDate => p.trackingDate trackDate
  | .withGetter body => p.withGetter body
  | .withSetter body => p.withSetter body

/-- The call of a builder that only turns a flag on. -/
def whenOn {C : Type} (flag : Bool) (call : C) : List C := if flag then [call] else []

theorem PropertyCall.commute : Commute PropertyCall.apply PropertyCall.ctorIdx := by
  intro p c c' h
  cases c <;> cases c' <;> first | rfl | exact absurd rfl h

namespace PropertyDefinition

/-- The calls that the fields of a property ask for. -/
def calls (d : PropertyDefinition) : List PropertyCall :=
  List.flatten [
    [.ofType d.type, .readable d.read, .writable d.write, .declared d.declare,
      .withModifier d.modifier, .cloneable d.canClone, .exportable d.canExport,
      .undoable d.canUndo, .trackingState d.trackState, .trackingDate d.trackDate],
    whenOn d.optional .asOptional, whenOn d.isStatic .asStatic, whenOn d.track .tracked,
    (d.value.map .withValue).toList, (d.getterBody.map .withGetter).toList,
    (d.setterBody.map .withSetter).toList]

def Built (d : PropertyDefinition) : Property → Prop :=
  BuiltBy PropertyCall.apply PropertyCall.ctorIdx (.named d.name) d.calls

theorem foldl_calls (d : PropertyDefinition) :
    d.calls.foldl PropertyCall.apply (.named d.name) = d.property := by
  obtain ⟨name, type, value, optional, isStatic, read, write, declare, modifier, canClone,
    canExport, canUndo, track, trackState, trackDate, getterBody, setterBody⟩ := d
  cases value <;> cases optional <;> cases isStatic <;> cases track <;> cases getterBody <;>
    cases setterBody <;> rfl

theorem built_iff {d : PropertyDefinition} {p : Property} : Built d p ↔ p = d.property := by
  rw [Built, builtBy_iff PropertyCall.commute, foldl_calls]

end PropertyDefinition

/-! ## Methods -/

/-- A call of one of the builders of a method. -/
inductive MethodCall where
  | returning (type : String)
  | withArg (arg : Property)
  | withBody (body : String)
  | asStatic
  | asAbstract
  | withModifier (modifier : Modifier)

def MethodCall.apply (m : Method) : MethodCall → Method
  | .returning type => m.returning type
  | .withArg arg => m.withArg arg
  | .withBody body => m.withBody body
  | .asStatic => m.asStatic
  | .asAbstract => m.asAbstract
  | .withModifier modifier => m.withModifier modifier

theorem MethodCall.commute : Commute MethodCall.apply MethodCall.ctorIdx := by
  intro m c c' h
  cases c <;> cases c' <;> first | rfl | exact absurd rfl h

namespace MethodDefinition

/-- The calls that a method asks for, once its arguments are built. -/
def calls (d : MethodDefinition) (args : List Property) : List MethodCall :=
  List.flatten [
    [.returning d.type, .withBody d.body, .withModifier d.modifier],
    whenOn d.isStatic .asStatic, whenOn d.isAbstract .asAbstract, args.map .withArg]

def Built (d : MethodDefinition) (m : Method) : Prop :=
  ∃ args, List.Forall₂ PropertyDefinition.Built d.args args ∧
    BuiltBy MethodCall.apply MethodCall.ctorIdx (.named d.name) (d.calls args) m

theorem foldl_calls (d : MethodDefinition) :
    (d.calls (d.args.map (·.property))).foldl MethodCall.apply (.named d.name) = d.method := by
  obtain ⟨name, type, args, body, isStatic, isAbstract, modifier⟩ := d
  have hargs (flags : Method) (args : List Property) :
      (args.map .withArg).foldl MethodCall.apply flags
        = { flags with args := flags.args ++ args } :=
    foldl_map_append (fun args => { flags with args }) (fun _ _ => rfl) flags.args args
  simp only [calls, List.flatten_cons, List.foldl_append, List.flatten_nil, List.append_nil, hargs]
  cases isStatic <;> cases isAbstract <;> rfl

theorem built_iff {d : MethodDefinition} {m : Method} : Built d m ↔ m = d.method := by
  simp only [Built,
    forall₂_iff_eq_map PropertyDefinition.property fun _ _ => PropertyDefinition.built_iff,
    exists_eq_left, builtBy_iff MethodCall.commute, foldl_calls]

end MethodDefinition

/-! ## Interfaces -/

/-- A call of one of the builders that classes and interfaces share. -/
inductive OutlineCall where
  | extending (supertype : String)
  | withProperty (p : Property)
  | withMethod (m : Method)
  | withImport (name path : String)

def OutlineCall.apply (o : Outline) : OutlineCall → Outline
  | .extending supertype => o.extending supertype
  | .withProperty p => o.withProperty p
  | .withMethod m => o.withMethod m
  | .withImport name path => o.withImport name path

theorem OutlineCall.commute : Commute OutlineCall.apply OutlineCall.ctorIdx := by
  intro o c c' h
  cases c <;> cases c' <;> first | rfl | exact absurd rfl h

namespace OutlineDefinition

/-- The calls that an outline asks for, once its members are built. -/
def calls (d : OutlineDefinition) (properties : List Property) (methods : List Method) :
    List OutlineCall :=
  List.flatten [
    (d.parent.map .extending).toList, properties.map .withProperty, methods.map .withMethod,
    d.imports.map fun i => .withImport i.name i.path]

theorem foldl_calls (d : OutlineDefinition) :
    (d.calls (d.properties.map (·.property)) (d.methods.map (·.method))).foldl OutlineCall.apply
      { name := d.name } = d.outline := by
  obtain ⟨name, parent, imports, properties, methods⟩ := d
  have hproperties (o : Outline) (properties : List Property) :
      (properties.map .withProperty).foldl OutlineCall.apply o
        = { o with properties := o.properties ++ properties } :=
    foldl_map_append (fun properties => { o with properties }) (fun _ _ => rfl) o.properties _
  have hmethods (o : Outline) (methods : List Method) :
      (methods.map .withMethod).foldl OutlineCall.apply o
        = { o with methods := o.methods ++ methods } :=
    foldl_map_append (fun methods => { o with methods }) (fun _ _ => rfl) o.methods _
  have himports (o : Outline) :
      (imports.map fun i => .withImport i.name i.path).foldl OutlineCall.apply o
        = { o with imports := o.imports ++ imports.map (·.imported) } := by
    have hall : ((imports.map (·.imported)).map fun i => .withImport i.name i.path).foldl
        OutlineCall.apply o = { o with imports := o.imports ++ imports.map (·.imported) } :=
      foldl_map_append (fun imports => { o with imports }) (fun _ _ => rfl) o.imports _
    rwa [List.map_map] at hall
  simp only [calls, List.flatten_cons, List.foldl_append, List.flatten_nil, List.append_nil,
    hproperties, hmethods, himports]
  cases parent <;> rfl

end OutlineDefinition

namespace InterfaceDefinition

def Built (d : InterfaceDefinition) (i : Interface) : Prop :=
  ∃ properties methods, List.Forall₂ PropertyDefinition.Built d.properties properties ∧
    List.Forall₂ MethodDefinition.Built d.methods methods ∧
    BuiltBy (fun i c => ⟨OutlineCall.apply i.toOutline c⟩) OutlineCall.ctorIdx
      (.named d.name) (d.calls properties methods) i

theorem built_iff {d : InterfaceDefinition} {i : Interface} :
    Built d i ↔ i = d.declaration := by
  have hcomm : Commute (fun (i : Interface) c => ⟨OutlineCall.apply i.toOutline c⟩)
      OutlineCall.ctorIdx :=
    fun i c c' h => congrArg Interface.mk (OutlineCall.commute i.toOutline c c' h)
  have hfold (o : Outline) (cs : List OutlineCall) :
      cs.foldl (fun (i : Interface) c => ⟨OutlineCall.apply i.toOutline c⟩) ⟨o⟩
        = ⟨cs.foldl OutlineCall.apply o⟩ :=
    List.foldl_hom Interface.mk fun _ _ => rfl
  simp only [Built,
    forall₂_iff_eq_map PropertyDefinition.property fun _ _ => PropertyDefinition.built_iff,
    forall₂_iff_eq_map MethodDefinition.method fun _ _ => MethodDefinition.built_iff,
    exists_eq_left, exists_and_left, builtBy_iff hcomm, Interface.named, hfold,
    d.foldl_calls, declaration]

end InterfaceDefinition

/-! ## Classes -/

namespace DecoratorDefinition

/-- The options are given one by one. -/
def Built (d : DecoratorDefinition) : Decorator → Prop :=
  BuiltBy (fun c (o : DecoratorOptionDefinition) => c.withOption o.name o.value) (fun _ => 0)
    (.ofType d.type) d.options

theorem built_iff {d : DecoratorDefinition} {c : Decorator} : Built d c ↔ c = d.decorator := by
  rw [Built, builtBy_iff fun _ _ _ h => absurd rfl h, decorator]

end DecoratorDefinition

/-- A call of one of the builders of a class. -/
inductive ClassCall where
  /-- One of those that interfaces have as well. -/
  | outline (call : OutlineCall)
  | withArg (arg : Property)
  | withSuperArg (arg : String)
  | implementing (name : String)
  | asAbstract
  | asBaseClass
  | asBaseModel
  | cloneable (canClone : Bool)
  | exportable (canExport : Bool)
  | undoable (canUndo : Bool)
  | withDecorator (d : Decorator)
  | withConstructorCode (code : String)

namespace ClassCall

def apply (c : Class) : ClassCall → Class
  | .outline call => { c with toOutline := OutlineCall.apply c.toOutline call }
  | .withArg arg => c.withArg arg
  | .withSuperArg arg => c.withSuperArg arg
  | .implementing name => c.implementing name
  | .asAbstract => c.asAbstract
  | .asBaseClass => c.asBaseClass
  | .asBaseModel => c.asBaseModel
  | .cloneable canClone => c.cloneable canClone
  | .exportable canExport => c.exportable canExport
  | .undoable canUndo => c.undoable canUndo
  | .withDecorator d => c.withDecorator d
  | .withConstructorCode code => c.withConstructorCode code

/-- The builders of an outline come first. -/
def builder : ClassCall → Nat
  | .outline call => call.ctorIdx
  | call => 4 + call.ctorIdx

theorem commute : Commute apply builder := by
  intro c call call' h
  cases call with
  | outline call =>
    cases call' with
    | outline call' =>
      exact congrArg (fun o => { c with toOutline := o })
        (OutlineCall.commute c.toOutline call call' h)
    | _ => rfl
  | _ => cases call' <;> first | rfl | exact absurd rfl h

end ClassCall

namespace ClassDefinition

/-- The calls that a class asks for, once its parts are built. -/
def calls (d : ClassDefinition) (properties : List Property) (methods : List Method)
    (args : List Property) (decorator : Option Decorator) : List ClassCall :=
  List.flatten [
    (d.toOutlineDefinition.calls properties methods).map .outline,
    [.cloneable d.canClone, .exportable d.canExport, .undoable d.canUndo],
    whenOn d.isAbstract .asAbstract, whenOn d.isBaseClass .asBaseClass,
    whenOn d.isBaseModel .asBaseModel, args.map .withArg,
    (d.superArgs.map (·.name)).map .withSuperArg, d.implements.map .implementing,
    (decorator.map .withDecorator).toList, (d.constructorCode.map .withConstructorCode).toList]

def Built (d : ClassDefinition) (c : Class) : Prop :=
  ∃ properties methods args decorator,
    List.Forall₂ PropertyDefinition.Built d.properties properties ∧
      List.Forall₂ MethodDefinition.Built d.methods methods ∧
      List.Forall₂ PropertyDefinition.Built d.args args ∧
      Option.Rel DecoratorDefinition.Built d.decorator decorator ∧
      BuiltBy ClassCall.apply ClassCall.builder (.named d.name)
        (d.calls properties methods args decorator) c

theorem foldl_calls (d : ClassDefinition) :
    (d.calls (d.properties.map (·.property)) (d.methods.map (·.method))
      (d.args.map (·.property)) (d.decorator.map (·.decorator))).foldl ClassCall.apply
        (.named d.name) = d.declaration := by
  obtain ⟨o, args, superArgs, implements, isAbstract, isBaseClass, isBaseModel, canClone,
    canExport, canUndo, constructorCode, decorator⟩ := d
  have houtline (c : Class) (calls : List OutlineCall) :
      (calls.map .outline).foldl ClassCall.apply c
        = { c with toOutline := calls.foldl OutlineCall.apply c.toOutline } := by
    induction calls generalizing c with
    | nil => rfl
    | cons call calls ih => exact ih _
  have hargs (c : Class) (args : List Property) : (args.map .withArg).foldl ClassCall.apply c
      = { c with args := c.args ++ args } :=
    foldl_map_append (fun args => { c with args }) (fun _ _ => rfl) c.args _
  have hsuper (c : Class) (names : List String) : (names.map .withSuperArg).foldl ClassCall.apply c
      = { c with superArgs := c.superArgs ++ names } :=
    foldl_map_append (fun superArgs => { c with superArgs }) (fun _ _ => rfl) c.superArgs _
  have himplements (c : Class) : (implements.map .implementing).foldl ClassCall.apply c
      = { c with implements := c.implements ++ implements } :=
    foldl_map_append (fun implements => { c with implements }) (fun _ _ => rfl) c.implements _
  simp only [calls, List.flatten_cons, List.foldl_append, List.flatten_nil, List.append_nil,
    houtline, hargs, hsuper, himplements, Class.named, o.foldl_calls]
  cases isAbstract <;> cases isBaseClass <;> cases isBaseModel <;> cases constructorCode <;>
    cases decorator <;> rfl

theorem built_iff {d : ClassDefinition} {c : Class} : Built d c ↔ c = d.declaration := by
  simp only [Built,
    forall₂_iff_eq_map PropertyDefinition.property fun _ _ => PropertyDefinition.built_iff,
    forall₂_iff_eq_map MethodDefinition.method fun _ _ => MethodDefinition.built_iff,
    optionRel_iff_eq_map DecoratorDefinition.decorator fun _ _ => DecoratorDefinition.built_iff,
    exists_eq_left, exists_and_left, builtBy_iff ClassCall.commute, foldl_calls]

end ClassDefinition

/-! ## Enumerations -/

/-- A call of one of the builders of an enumeration. Both add a member. -/
inductive EnumCall where
  | withMember (name : String)
  | withMemberValue (name value : String)

def EnumCall.apply (e : Enumeration) : EnumCall → Enumeration
  | .withMember name => e.withMember name
  | .withMemberValue name value => e.withMemberValue name value

namespace EnumDefinition

/-- A member for each name, with the value at its position if there is one. -/
def calls (d : EnumDefinition) : List EnumCall :=
  d.names.mapIdx fun i name =>
    match d.values[i]? with
    | some value => .withMemberValue name value
    | none => .withMember name

def Built (d : EnumDefinition) : Enumeration → Prop :=
  BuiltBy EnumCall.apply (fun _ => 0) (.named d.name) d.calls

theorem foldl_calls (names values : List String) (e : Enumeration) :
    (calls { name := e.name, names, values }).foldl EnumCall.apply e
      = { e with members := e.members ++ pair names values } := by
  induction names generalizing values e with
  | nil => simp [calls, pair]
  | cons n names ih =>
    cases values with
    | nil =>
      have hrest := ih [] (e.withMember n)
      simp only [calls, List.mapIdx_cons, List.getElem?_nil, List.foldl_cons, EnumCall.apply]
        at hrest ⊢
      rw [hrest]
      simp [Enumeration.withMember, pair, EnumMember.named]
    | cons v values =>
      have hrest := ih values (e.withMemberValue n v)
      simp only [calls, List.mapIdx_cons, List.getElem?_cons_zero, List.getElem?_cons_succ,
        List.foldl_cons, EnumCall.apply] at hrest ⊢
      rw [hrest]
      simp [Enumeration.withMemberValue, pair, EnumMember.named, EnumMember.withValue]

theorem built_iff {d : EnumDefinition} {e : Enumeration} : Built d e ↔ e = d.enumeration := by
  rw [Built, builtBy_iff fun _ _ _ h => absurd rfl h]
  exact Eq.congr_right (foldl_calls d.names d.values (.named d.name))

end EnumDefinition

/-! ## Programs -/

/-- A call of one of the builders of a program. -/
inductive ProgramCall where
  | addEnum (e : Enumeration)
  | addInterface (i : Interface)
  | addClass (c : Class)

def ProgramCall.apply (p : Program) : ProgramCall → Program
  | .addEnum e => p.addEnum e
  | .addInterface i => p.addInterface i
  | .addClass c => p.addClass c

namespace Definition

/-- The calls that a definition asks for, once its declarations are built. -/
def calls (enums : List Enumeration) (interfaces : List Interface) (classes : List Class) :
    List ProgramCall :=
  List.flatten [enums.map .addEnum, interfaces.map .addInterface, classes.map .addClass]

def Built (d : Definition) (p : Program) : Prop :=
  ∃ enums interfaces classes, List.Forall₂ EnumDefinition.Built d.enums enums ∧
    List.Forall₂ InterfaceDefinition.Built d.interfaces interfaces ∧
    List.Forall₂ ClassDefinition.Built d.classes classes ∧
    BuiltBy ProgramCall.apply ProgramCall.ctorIdx (.withOptions d.options)
      (calls enums interfaces classes) p

theorem commute_calls : Commute ProgramCall.apply ProgramCall.ctorIdx := by
  intro p c c' h
  cases c <;> cases c' <;> first | rfl | exact absurd rfl h

theorem foldl_calls (options : Options) (enums : List Enumeration) (interfaces : List Interface)
    (classes : List Class) :
    (calls enums interfaces classes).foldl ProgramCall.apply (.withOptions options)
      = { options, enums, interfaces, classes } := by
  have henums (p : Program) : (enums.map .addEnum).foldl ProgramCall.apply p
      = { p with enums := p.enums ++ enums } :=
    foldl_map_append (fun enums => { p with enums }) (fun _ _ => rfl) p.enums _
  have hinterfaces (p : Program) : (interfaces.map .addInterface).foldl ProgramCall.apply p
      = { p with interfaces := p.interfaces ++ interfaces } :=
    foldl_map_append (fun interfaces => { p with interfaces }) (fun _ _ => rfl) p.interfaces _
  have hclasses (p : Program) : (classes.map .addClass).foldl ProgramCall.apply p
      = { p with classes := p.classes ++ classes } :=
    foldl_map_append (fun classes => { p with classes }) (fun _ _ => rfl) p.classes _
  simp only [calls, List.flatten_cons, List.foldl_append, List.flatten_nil, List.append_nil,
    henums, hinterfaces, hclasses]
  rfl

theorem built_iff {d : Definition} {p : Program} : Built d p ↔ p = d.program := by
  simp only [Built,
    forall₂_iff_eq_map EnumDefinition.enumeration fun _ _ => EnumDefinition.built_iff,
    forall₂_iff_eq_map InterfaceDefinition.declaration fun _ _ => InterfaceDefinition.built_iff,
    forall₂_iff_eq_map ClassDefinition.declaration fun _ _ => ClassDefinition.built_iff,
    exists_eq_left, exists_and_left, builtBy_iff commute_calls, foldl_calls, program]

end Definition

/-! ## An object with nothing but a name -/

/-- An object that states a name and nothing else. -/
def nameOnly (name : String) : Tree := .table [("name", .text name)]

/-- In both formats, a document that states the tree is read as the entity. -/
def ReadAs {α : Type} (k : Kind) (entity : k.Value → α) (t : Tree) (a : α) : Prop :=
  (∀ document, Json.States t document → (Json.read k document).toOption.map entity = some a) ∧
    ∀ document, Toml.States t document → (Toml.read k document).toOption.map entity = some a

theorem readAs_nameOnly {α : Type} {record : String} {rest : Fields}
    (hdistinct : (Kind.record record (.cons "name" .text rest)).Distinct)
    (hheight : (Kind.record record (.cons "name" .text rest)).height ≤ Json.maxLevels)
    (entity : (Fields.cons "name" .text rest).Values → α) (name : String) :
    ReadAs (.record record (.cons "name" .text rest)) entity (nameOnly name)
      (entity (some name, rest.unstated)) := by
  have hmeaning : (Kind.record record (.cons "name" .text rest)).meaning (nameOnly name)
      = some (some name, rest.unstated) := by
    have hrest := rest.named_of_not_mem (.text name) [] rest.unstated hdistinct.1
    simp [Kind.meaning, nameOnly, Fields.named, Fields.unstated, restated, hrest]
  have htrim : (Kind.record record (.cons "name" .text rest)).trim (nameOnly name)
      = nameOnly name := by
    simp [nameOnly, Kind.trim, Fields.trimNamed]
  constructor
  · intro document h
    rw [Json.read_of_states hdistinct hheight h, hmeaning]
    rfl
  · intro document h
    have hwithin : (nameOnly name).Within (Toml.maxLevels + 1) := by
      simp [nameOnly, Tree.Within, Toml.maxLevels]
    rw [Toml.read_of_states hdistinct h hwithin, htrim, hmeaning]
    rfl

/-! ## Results -/

namespace Definition

/-- Every build of a definition generates what the definition does, and there is one. An object
with nothing but a name is the entity that the name alone builds. -/
theorem every_build_generates_the_same (d : Definition) :
    (∃ p, d.Built p) ∧ (∀ p, d.Built p → p.generate = d.program.generate) ∧
      ∀ name, ReadAs Schema.property (fun v => (Schema.propertyOf v).property)
          (nameOnly name) (.named name) ∧
        ReadAs Schema.method (fun v => (Schema.methodOf v).method) (nameOnly name) (.named name) ∧
        ReadAs (.record "InterfaceDef" Schema.interfaceFields)
          (fun v => (Schema.interfaceOf v).declaration) (nameOnly name) (.named name) ∧
        ReadAs (.record "ClassDef" Schema.classFields) (fun v => (Schema.classOf v).declaration)
          (nameOnly name) (.named name) := by
  refine ⟨⟨d.program, built_iff.mpr rfl⟩, fun p hp => ?_, fun name => ⟨?_, ?_, ?_, ?_⟩⟩
  · rw [built_iff.mp hp]
  · exact readAs_nameOnly distinct_property (by decide) _ name
  · exact readAs_nameOnly distinct_method (by decide) _ name
  · exact readAs_nameOnly distinct_interfaceFields (by decide) _ name
  · exact readAs_nameOnly distinct_classFields (by decide) _ name

/-- A class and an enumeration. -/
def accounts : Definition where
  enums := [{ name := "Role", names := ["Admin", "Guest"], values := ["1"] }]
  classes := [{
    name := "User", parent := some "Base", isAbstract := true, canExport := true,
    properties := [{ name := "id", type := "number", canClone := false }] }]

/-- The class is built first, and its property before its supertype is set. -/
def builtAccounts : Program :=
  let id := ((Property.named "id").cloneable false).ofType "number"
  let user := ((Class.named "User").exportable true).asAbstract
  let user := { user with toOutline := (user.toOutline.withProperty id).extending "Base" }
  ((Program.withOptions {}).addClass user).addEnum
    (((Enumeration.named "Role").withMemberValue "Admin" "1").withMember "Guest")

theorem json_states_id : Json.States (nameOnly "id") "\x7b\"name\":\"id\"\x7d" := by
  have hplain (s : String) (h : s.toList.all Char.isAlphanum) :
      ∀ c ∈ s.toList, Json.grammar.spellsChar c [c] :=
    fun c hc => Json.spellsChar_alphanum (List.all_eq_true.mp h c hc)
  have hid : Json.grammar.Spells (.text "id") _ :=
    .text (Grammar.quotes_tight (hplain _ (by decide)))
  have htable := Grammar.Spells.table (g := Json.grammar) [.tight "name" _ _] (by simp)
    (by simp [Grammar.names_tight (hplain "name" (by decide))]) (List.forall_mem_singleton.mpr hid)
    (separated_tight ..)
  have hstates := Json.States.intro (List.forall_mem_nil _) htable (List.forall_mem_nil _)
  simpa [Member.tight, Member.text, Member.entry, nameOnly, Json.grammar] using hstates

theorem the_accounts_are_built_alike :
    accounts.Built builtAccounts ∧ builtAccounts.generate = accounts.program.generate ∧
      (Json.read Schema.property "\x7b\"name\":\"id\"\x7d").toOption.map
        (fun v => (Schema.propertyOf v).property) = some (.named "id") := by
  have hbuilt : accounts.Built builtAccounts := built_iff.mpr rfl
  obtain ⟨-, hgenerates, hnames⟩ := every_build_generates_the_same accounts
  exact ⟨hbuilt, hgenerates builtAccounts hbuilt, (hnames "id").1.1 _ json_states_id⟩

end Definition

end ModelScribe
