-- Classes. The body of a class has its parts in a fixed order: decorator,
-- header, static properties, static methods, the other properties, the
-- roster fields of a base model, the constructor, the methods of a base
-- model, the other methods. Within a part the declaration order stands.
--
-- A class has a constructor when there is something for it to do: a
-- supertype to call, arguments to take, or code of its own.
import ModelScribe.Model.BaseModel

namespace ModelScribe

open Text

/-! ## Building a class -/

namespace Class

/-- A class with nothing but a name. -/
def named (name : String) : Class := { name }

def withArg (c : Class) (arg : Property) : Class := { c with args := c.args ++ [arg] }

def withSuperArg (c : Class) (arg : String) : Class := { c with superArgs := c.superArgs ++ [arg] }

def implementing (c : Class) (name : String) : Class :=
  { c with implements := c.implements ++ [name] }

def asAbstract (c : Class) : Class := { c with isAbstract := true }

def asBaseClass (c : Class) : Class := { c with isBaseClass := true }

def asBaseModel (c : Class) : Class := { c with isBaseModel := true }

def cloneable (c : Class) (canClone : Bool) : Class := { c with canClone }

def exportable (c : Class) (canExport : Bool) : Class := { c with canExport }

def undoable (c : Class) (canUndo : Bool) : Class := { c with canUndo }

def withDecorator (c : Class) (d : Decorator) : Class := { c with decorator := some d }

def withConstructorCode (c : Class) (code : String) : Class :=
  { c with constructorCode := some code }

end Class

/-! ## Constructors -/

/-- One statement in the body of a constructor. -/
inductive ConstructorStep where
  /-- Call the constructor of the supertype. -/
  | callSuper (args : List String)
  /-- Note the name of the class in a field. -/
  | tagClass (field name : String)
  /-- Append names to the roster that a field holds. -/
  | enlist (field : String) (names : List String)
  /-- Code of the class's own. -/
  | custom (code : String)
  deriving DecidableEq, Repr

/-- Names in quotes, as a list with commas. -/
def quotedList (names : List String) : Doc :=
  [Mark.text ",", Mark.space].intercalate (names.map fun n => ["'", Mark.text n, "'"])

namespace ConstructorStep

/-- The statement as it stands in the body. -/
def doc : ConstructorStep → Doc
  | .callSuper args => .cat [["super("], .commaList (args.map fun a => [Mark.text a]), [");"]]
  | .tagClass field name => ["this.", field, .space, "=", .space, "'", name, "';"]
  | .enlist field names =>
    .cat [
      ["this.", field, .space, "=", .space, "[", .space, "...this.", field, ",", .space],
      quotedList names,
      [.space, "];"]]
  | .custom code => [code]

/-- The statement on a line of its own, two units deep. -/
def lineDoc (s : ConstructorStep) : Doc := .cat [[.tab, .tab], s.doc, [.line]]

end ConstructorStep

namespace Class

/-- The arguments of the constructor, as a list with commas. -/
def argsDoc (c : Class) : Doc := .commaList (c.args.map (·.argDoc))

/-- There is something for a constructor to do. -/
def hasConstructor (c : Class) : Bool :=
  c.supertype.isSome || !c.argsDoc.isEmpty || (nonBlank c.constructorCode).isSome

/-- What the constructor does, in order. The class is only tagged where a supertype may
read the tag, and a roster only grows by names that there are. -/
def constructorSteps (v : Conventions) (c : Class) : List ConstructorStep :=
  (if c.supertype.isSome then
    .callSuper c.superArgs :: (v.discriminator.toList.map fun f => .tagClass f c.name)
  else [])
    ++ (Roster.all.filter fun r => !(r.names c).isEmpty).map (fun r => .enlist r.field (r.names c))
    ++ (nonBlank c.constructorCode).toList.map .custom

def constructorDoc (v : Conventions) (c : Class) : Doc :=
  if c.hasConstructor then
    .cat [
      [.tab, "constructor("], c.argsDoc, [")", .space, "\x7b", .line],
      (c.constructorSteps v).flatMap ConstructorStep.lineDoc,
      [.tab, "\x7d"]]
  else []

/-! ## Roster fields -/

/-- The field of a base model that holds a roster, filled with the names of the class. -/
def rosterDoc (c : Class) (r : Roster) : Doc :=
  .cat [
    [.tab, "protected ", r.field, ":", .space, "string[]", .space, "=", .space],
    if (r.names c).isEmpty then ["[]"]
    else .cat [["[", .space], quotedList (r.names c), [.space, "]"]],
    [";"]]

/-! ## The class as a whole -/

def implementsDoc (c : Class) : Doc :=
  match c.implements.filter (!isBlank ·) with
  | [] => []
  | names => .cat [[" implements "], .commaList (names.map fun n => [Mark.text n])]

/-- The line that opens the class. -/
def header (c : Class) : Doc :=
  .cat [
    ["export", if c.isAbstract then " abstract" else "", " class ", c.name],
    c.extendsDoc, c.implementsDoc, [.space, "\x7b"]]

/-- The properties of a class that are static, or those that are not. -/
def propertiesDoc (v : Conventions) (c : Class) (isStatic : Bool) : Doc :=
  .join ((c.properties.filter (·.isStatic == isStatic)).map (·.classDoc v))

/-- The methods of a class that are static, or those that are not. -/
def methodsDoc (c : Class) (isStatic : Bool) : Doc :=
  .join ((c.methods.filter (·.isStatic == isStatic)).map (·.classDoc))

/-- The roster fields that a base model declares. -/
def rosterDocs (c : Class) : List Doc :=
  if c.isBaseModel then Roster.all.map c.rosterDoc else []

/-- The methods that a base model carries. -/
def modelDoc (c : Class) : Doc :=
  if c.isBaseModel then .join ((BaseModel.methods c).map (·.classDoc)) else []

/-- The parts of the class, in the order in which they are written. -/
def parts (v : Conventions) (c : Class) : List Doc :=
  [(c.decorator.map (·.doc)).getD [], c.header,
    c.propertiesDoc v true, c.methodsDoc true, c.propertiesDoc v false]
    ++ c.rosterDocs
    ++ [c.constructorDoc v, c.modelDoc, c.methodsDoc false, ["\x7d"]]

def doc (v : Conventions) (c : Class) : Doc :=
  if isBlank c.name then [] else .join (c.parts v)

end Class

end ModelScribe
