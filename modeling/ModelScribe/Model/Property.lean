-- Properties. One descriptor serves in four places: as a member of a class,
-- as a member of an interface, as an argument with a default value, and as a
-- parameter of a signature that has no body. A property without a name
-- writes nothing in any of them.
--
-- As a class member a property is plain, or it works through accessors. It
-- uses accessors when it is tracked or brings a getter or setter body of its
-- own. Then the declared field is private and its name starts with `_`.
import ModelScribe.Options
import ModelScribe.Modifier

namespace ModelScribe

open Text

/-- A typed field, argument or parameter. -/
structure Property where
  name : String := ""
  type : String := "any"
  /-- The default value, written word for word. -/
  value : Option String := none
  optional : Bool := false
  isStatic : Bool := false
  /-- Accessors include a getter. -/
  read : Bool := true
  /-- Accessors include a setter. -/
  write : Bool := true
  /-- The field itself is declared. -/
  declare : Bool := true
  modifier : Modifier := .pub
  canClone : Bool := true
  canExport : Bool := true
  canUndo : Bool := true
  /-- The setter records that the object changed. -/
  track : Bool := false
  /-- A tracked setter sets the dirty field. -/
  trackState : Bool := true
  /-- A tracked setter sets the time of the last change. -/
  trackDate : Bool := true
  getterBody : Option String := none
  setterBody : Option String := none
  deriving DecidableEq, Repr

namespace Property

instance : Inhabited Property := ⟨{}⟩

/-! ## Building a property -/

/-- A property with nothing but a name. -/
def named (name : String) : Property := { name }

def ofType (p : Property) (type : String) : Property := { p with type }

def withValue (p : Property) (value : String) : Property := { p with value := some value }

def asOptional (p : Property) : Property := { p with optional := true }

def asStatic (p : Property) : Property := { p with isStatic := true }

def readable (p : Property) (read : Bool) : Property := { p with read }

def writable (p : Property) (write : Bool) : Property := { p with write }

def declared (p : Property) (declare : Bool) : Property := { p with declare }

def withModifier (p : Property) (modifier : Modifier) : Property := { p with modifier }

def cloneable (p : Property) (canClone : Bool) : Property := { p with canClone }

def exportable (p : Property) (canExport : Bool) : Property := { p with canExport }

def undoable (p : Property) (canUndo : Bool) : Property := { p with canUndo }

def tracked (p : Property) : Property := { p with track := true }

def trackingState (p : Property) (trackState : Bool) : Property := { p with trackState }

def trackingDate (p : Property) (trackDate : Bool) : Property := { p with trackDate }

def withGetter (p : Property) (body : String) : Property := { p with getterBody := some body }

def withSetter (p : Property) (body : String) : Property := { p with setterBody := some body }

/-! ## Arguments, parameters and interface members -/

/-- The property has a name. -/
def isNamed (p : Property) : Bool := !isBlank p.name

/-- The default value, if it is not blank. -/
def defaultValue (p : Property) : Option String := nonBlank p.value

/-- `name: type`, with a question mark after the name of an optional property. -/
def signature (p : Property) : Doc :=
  [p.name, if p.optional then "?" else "", ":", .space, p.type]

/-- ` = value`, when there is a value. -/
def initializer : Option String → Doc
  | some v => [.space, "=", .space, v]
  | none => []

/-- The property as an argument: its signature and its default value. -/
def argDoc (p : Property) : Doc :=
  if p.isNamed then p.signature ++ initializer p.defaultValue else []

/-- The property as a parameter of a signature without a body: no default value. -/
def paramDoc (p : Property) : Doc :=
  if p.isNamed then p.signature else []

/-- The property as a member of an interface. -/
def interfaceDoc (p : Property) : Doc :=
  if p.isNamed then .cat [[.tab], p.signature, [";"]] else []

/-! ## Class members -/

/-- The property works through a getter and a setter. -/
def usesAccessors (p : Property) : Bool :=
  p.track || (nonBlank p.getterBody).isSome || (nonBlank p.setterBody).isSome

/-- The declared field holds the value itself: there are no accessors, or neither of them
is written. -/
def isPlain (p : Property) : Bool := !p.usesAccessors || (!p.read && !p.write)

/-- The private field behind a pair of accessors. -/
def backingField (p : Property) : String := "_" ++ p.name

end Property

/-- One statement in the body of an accessor. -/
inductive AccessorStep where
  /-- Code of the property's own. -/
  | custom (code : String)
  /-- Hand out a field. -/
  | give (field : String)
  /-- Store the new value in a field. -/
  | assign (field : String)
  /-- Note in a field that the object changed. -/
  | markDirty (field : String)
  /-- Note in a field when the object changed. -/
  | stamp (field : String)
  deriving DecidableEq, Repr

/-- One of the class members that a property stands for. -/
inductive PropertyMember where
  | field (name : String) (access : String) (type : Option String) (value : Option String)
  | getter (name : String) (access : String) (type : String) (body : AccessorStep)
  | setter (name : String) (access : String) (type : String) (body : List AccessorStep)
  deriving DecidableEq, Repr

namespace AccessorStep

/-- The statement as it stands in the body. -/
def doc : AccessorStep → Doc
  | .custom code => [code]
  | .give field => ["return this.", field, ";"]
  | .assign field => ["this.", field, .space, "=", .space, "value;"]
  | .markDirty field => ["this.", field, .space, "=", .space, "true;"]
  | .stamp field => ["this.", field, .space, "=", .space, "(new Date()).getTime();"]

/-- The statement on a line of its own, two units deep. -/
def lineDoc (s : AccessorStep) : Doc := .cat [[.tab, .tab], s.doc, [.line]]

end AccessorStep

namespace PropertyMember

/-- `static` between two spaces, or a single space. -/
def staticWord (isStatic : Bool) : String := if isStatic then " static " else " "

/-- `: type`, when the type is written. -/
def typeDoc : Option String → Doc
  | some t => [":", .space, t]
  | none => []

/-- The member's text in the body of a class. -/
def doc (isStatic : Bool) : PropertyMember → Doc
  | .field name access type value =>
    .cat [[.tab, access, staticWord isStatic, name], typeDoc type, Property.initializer value,
      [";"]]
  | .getter name access type body =>
    .cat [
      [.tab, access, staticWord isStatic, "get ", name, "():", .space, type, .space, "\x7b", .line],
      body.lineDoc,
      [.tab, "\x7d"]]
  | .setter name access type body =>
    .cat [
      [.tab, access, staticWord isStatic, "set ", name, "(value:", .space, type, ")", .space,
        "\x7b", .line],
      body.flatMap AccessorStep.lineDoc,
      [.tab, "\x7d"]]

end PropertyMember

namespace Property

/-- The declared field. Its type is left out when the conventions let the value tell it. -/
def field (c : Conventions) (p : Property) : PropertyMember :=
  let type := if p.defaultValue.isSome && c.inferType then none else some p.type
  if p.isPlain then .field p.name p.modifier.text type p.defaultValue
  else .field p.backingField "private" type p.defaultValue

def getter (p : Property) : PropertyMember :=
  .getter p.name p.modifier.text p.type <|
    match nonBlank p.getterBody with
    | some code => .custom code
    | none => .give p.backingField

/-- What a setter does: the property's own code, or else the assignment followed by the
marks that tracking asks for. -/
def setterSteps (c : Conventions) (p : Property) : List AccessorStep :=
  match nonBlank p.setterBody with
  | some code => [.custom code]
  | none =>
    .assign p.backingField
      :: (if p.track && p.trackState then [.markDirty c.dirtyField] else [])
      ++ (if p.track && p.trackDate then [.stamp c.updatedField] else [])

def setter (c : Conventions) (p : Property) : PropertyMember :=
  .setter p.name p.modifier.text p.type (p.setterSteps c)

/-- The class members that the property stands for, in the order in which they are
written. -/
def members (c : Conventions) (p : Property) : List PropertyMember :=
  if p.isNamed then
    (if p.declare then [p.field c] else [])
      ++ (if p.usesAccessors && p.read then [p.getter] else [])
      ++ (if p.usesAccessors && p.write then [p.setter c] else [])
  else []

/-- What the members of a property are like is told by the three kinds of them. -/
theorem forall_mem_members {c : Conventions} {p : Property} {P : PropertyMember → Prop}
    (hfield : p.isNamed = true → P (p.field c))
    (hgetter : p.isNamed = true → p.usesAccessors = true → P p.getter)
    (hsetter : p.isNamed = true → p.usesAccessors = true → P (p.setter c)) :
    ∀ m ∈ p.members c, P m := by
  intro m hm
  unfold members at hm
  split at hm
  · rename_i hnamed
    simp only [List.mem_append, List.mem_ite_nil_right, List.mem_singleton, Bool.and_eq_true] at hm
    rcases hm with (⟨-, rfl⟩ | ⟨⟨haccessors, -⟩, rfl⟩) | ⟨⟨haccessors, -⟩, rfl⟩
    · exact hfield hnamed
    · exact hgetter hnamed haccessors
    · exact hsetter hnamed haccessors
  · cases hm

/-- The property as a part of a class body. -/
def classDoc (c : Conventions) (p : Property) : Doc :=
  Doc.join ((p.members c).map (·.doc p.isStatic))

end Property

end ModelScribe
