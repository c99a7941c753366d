-- Definitions: the records that a document states, and the declarations that
-- they become. Most records are carried over field by field. An enumeration is
-- stated as two lists, names and values, that belong together by position;
-- the options of a decorator are given one after the other; and the arguments
-- for a supertype's constructor are stated as properties, of which only the
-- names count.
import ModelScribe.Program

namespace ModelScribe

/-! ## Records -/

/-- A field, argument or parameter as a document states it. -/
structure PropertyDefinition where
  name : String := ""
  type : String := "any"
  value : Option String := none
  optional : Bool := false
  isStatic : Bool := false
  read : Bool := true
  write : Bool := true
  declare : Bool := true
  modifier : Modifier := .pub
  canClone : Bool := true
  canExport : Bool := true
  canUndo : Bool := true
  track : Bool := false
  trackState : Bool := true
  trackDate : Bool := true
  getterBody : Option String := none
  setterBody : Option String := none
  deriving DecidableEq, Repr

/-- A method, or the signature of one, as a document states it. -/
structure MethodDefinition where
  name : String := ""
  type : String := "void"
  args : List PropertyDefinition := []
  body : String := "return;"
  isStatic : Bool := false
  isAbstract : Bool := false
  modifier : Modifier := .pub
  deriving DecidableEq, Repr

/-- An option of a decorator as a document states it. -/
structure DecoratorOptionDefinition where
  name : String := ""
  value : String := ""
  deriving DecidableEq, Repr

/-- A decorator as a document states it. -/
structure DecoratorDefinition where
  type : String := ""
  options : List DecoratorOptionDefinition := []
  deriving DecidableEq, Repr

/-- An enumeration as a document states it. -/
structure EnumDefinition where
  name : String := ""
  names : List String := []
  /-- Values by position; there may be fewer of them than names. -/
  values : List String := []
  deriving DecidableEq, Repr

/-- An import as a document states it. -/
structure ImportDefinition where
  name : String := ""
  path : String := ""
  deriving DecidableEq, Repr

/-- What documents state of interfaces and classes alike. -/
structure OutlineDefinition where
  name : String := ""
  parent : Option String := none
  imports : List ImportDefinition := []
  properties : List PropertyDefinition := []
  methods : List MethodDefinition := []
  deriving DecidableEq, Repr

/-- An interface as a document states it. -/
structure InterfaceDefinition extends OutlineDefinition where
  deriving DecidableEq, Repr

/-- A class as a document states it. -/
structure ClassDefinition extends OutlineDefinition where
  args : List PropertyDefinition := []
  superArgs : List PropertyDefinition := []
  implements : List String := []
  isAbstract : Bool := false
  isBaseClass : Bool := false
  isBaseModel : Bool := false
  canClone : Bool := false
  canExport : Bool := false
  canUndo : Bool := false
  constructorCode : Option String := none
  decorator : Option DecoratorDefinition := none
  deriving DecidableEq, Repr

/-- A whole document. -/
structure Definition where
  options : Options := {}
  enums : List EnumDefinition := []
  interfaces : List InterfaceDefinition := []
  classes : List ClassDefinition := []
  deriving DecidableEq, Repr

/-! ## Declarations -/

def PropertyDefinition.property (d : PropertyDefinition) : Property where
  name := d.name
  type := d.type
  value := d.value
  optional := d.optional
  isStatic := d.isStatic
  read := d.read
  write := d.write
  declare := d.declare
  modifier := d.modifier
  canClone := d.canClone
  canExport := d.canExport
  canUndo := d.canUndo
  track := d.track
  trackState := d.trackState
  trackDate := d.trackDate
  getterBody := d.getterBody
  setterBody := d.setterBody

def MethodDefinition.method (d : MethodDefinition) : Method where
  name := d.name
  type := d.type
  args := d.args.map (·.property)
  body := d.body
  isStatic := d.isStatic
  isAbstract := d.isAbstract
  modifier := d.modifier

/-- The options are given to the decorator one after the other. -/
def DecoratorDefinition.decorator (d : DecoratorDefinition) : Decorator :=
  d.options.foldl (fun c o => c.withOption o.name o.value) (.ofType d.type)

def ImportDefinition.imported (d : ImportDefinition) : Import where
  name := d.name
  path := d.path

def OutlineDefinition.outline (d : OutlineDefinition) : Outline where
  name := d.name
  parent := d.parent
  imports := d.imports.map (·.imported)
  properties := d.properties.map (·.property)
  methods := d.methods.map (·.method)

def InterfaceDefinition.declaration (d : InterfaceDefinition) : Interface where
  toOutline := d.outline

namespace EnumDefinition

/-- The names with the values at their positions; a surplus value belongs to no member. -/
def pair : List String → List String → List EnumMember
  | [], _ => []
  | n :: ns, [] => { name := n } :: pair ns []
  | n :: ns, v :: vs => { name := n, value := some v } :: pair ns vs

def enumeration (d : EnumDefinition) : Enumeration where
  name := d.name
  members := pair d.names d.values

end EnumDefinition

namespace ClassDefinition

def declaration (d : ClassDefinition) : Class where
  toOutline := d.outline
  args := d.args.map (·.property)
  superArgs := d.superArgs.map (·.name)
  implements := d.implements
  isAbstract := d.isAbstract
  isBaseClass := d.isBaseClass
  isBaseModel := d.isBaseModel
  canClone := d.canClone
  canExport := d.canExport
  canUndo := d.canUndo
  decorator := d.decorator.map (·.decorator)
  constructorCode := d.constructorCode

end ClassDefinition

namespace Definition

/-- The program that a document defines. -/
def program (d : Definition) : Program where
  options := d.options
  enums := d.enums.map (·.enumeration)
  interfaces := d.interfaces.map (·.declaration)
  classes := d.classes.map (·.declaration)

end Definition

end ModelScribe
