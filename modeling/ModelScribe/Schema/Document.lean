-- The kinds of a definition document, and the records that they stand for.
-- For every record the fields stand in declaration order with their keys; a
-- field that a document leaves out takes its default.
import ModelScribe.Schema.Kind
import ModelScribe.Definition

namespace ModelScribe.Schema

/-! ## Kinds -/

def optionsFields : Fields :=
  .cons "prettify" .flag <| .cons "tabSize" .byte <| .cons "className" (.optional .text) <|
  .cons "isDirty" .text <| .cons "lastUpdated" .text <| .cons "inferType" .flag .nil

def propertyFields : Fields :=
  .cons "name" .text <| .cons "type" .text <| .cons "value" (.optional .scalar) <|
  .cons "optional" .flag <| .cons "static" .flag <| .cons "read" .flag <| .cons "write" .flag <|
  .cons "declare" .flag <| .cons "modifier" .text <| .cons "canClone" .flag <|
  .cons "canExport" .flag <| .cons "canUndo" .flag <| .cons "track" .flag <|
  .cons "trackState" .flag <| .cons "trackDate" .flag <|
  .cons "getterBody" (.optional .text) <| .cons "setterBody" (.optional .text) .nil

def property : Kind := .record "PropertyDef" propertyFields

def methodFields : Fields :=
  .cons "name" .text <| .cons "type" .text <| .cons "args" (.list property) <|
  .cons "body" .text <| .cons "static" .flag <| .cons "isAbstract" .flag <|
  .cons "modifier" .text .nil

def method : Kind := .record "MethodDef" methodFields

def decoratorOptionFields : Fields := .cons "name" .text <| .cons "value" .scalar .nil

def decoratorFields : Fields :=
  .cons "type" .text <|
  .cons "options" (.list (.record "DecoratorOptionDef" decoratorOptionFields)) .nil

def enumFields : Fields :=
  .cons "name" .text <| .cons "names" (.list .text) <| .cons "values" (.list .scalar) .nil

def importFields : Fields := .cons "name" .text <| .cons "path" .text .nil

def importing : Kind := .record "ImportDef" importFields

def interfaceFields : Fields :=
  .cons "name" .text <| .cons "extends" (.optional .text) <| .cons "import" (.list importing) <|
  .cons "properties" (.list property) <| .cons "methods" (.list method) .nil

def classFields : Fields :=
  .cons "name" .text <| .cons "extends" (.optional .text) <| .cons "import" (.list importing) <|
  .cons "properties" (.list property) <| .cons "methods" (.list method) <|
  .cons "args" (.list property) <| .cons "superArgs" (.list property) <|
  .cons "implements" (.list .text) <| .cons "isAbstract" .flag <| .cons "isBaseClass" .flag <|
  .cons "isBaseModel" .flag <| .cons "canClone" .flag <| .cons "canExport" .flag <|
  .cons "canUndo" .flag <| .cons "constructorCode" (.optional .text) <|
  .cons "decorator" (.optional (.record "DecoratorDef" decoratorFields)) .nil

def definitionFields : Fields :=
  .cons "options" (.record "Options" optionsFields) <|
  .cons "enums" (.list (.record "EnumDef" enumFields)) <|
  .cons "interfaces" (.list (.record "InterfaceDef" interfaceFields)) <|
  .cons "classes" (.list (.record "ClassDef" classFields)) .nil

/-- A whole document. -/
def definition : Kind := .record "Definition" definitionFields

/-! ## Records -/

/-- A flag that is off unless it is stated. -/
def flagOff (stated : Option Bool) : Bool := stated.getD false

/-- A flag that is on unless it is stated. -/
def flagOn (stated : Option Bool) : Bool := stated.getD true

/-- The modifier that is stated, or `public`. -/
def modifierOf (stated : Option String) : Modifier := (stated.map Modifier.ofText).getD .pub

/-- The items of a list, each as a record; a list that is left out is empty. -/
def itemsOf {α β : Type} (record : α → β) (stated : Option (List α)) : List β :=
  (stated.getD []).map record

def optionsOf : optionsFields.Values → Options
  | (prettify, tabSize, classField, dirtyField, updatedField, inferType, ()) =>
    { prettify := flagOn prettify
      tabSize := tabSize.getD 4
      classField := classField.join
      dirtyField := dirtyField.getD "_isDirty"
      updatedField := updatedField.getD "_lastUpdated"
      inferType := flagOff inferType }

def propertyOf : propertyFields.Values → PropertyDefinition
  | (name, type, value, optional, isStatic, read, write, declare, modifier, canClone, canExport,
      canUndo, track, trackState, trackDate, getterBody, setterBody, ()) =>
    { name := name.getD ""
      type := type.getD "any"
      value := value.join
      optional := flagOff optional
      isStatic := flagOff isStatic
      read := flagOn read
      write := flagOn write
      declare := flagOn declare
      modifier := modifierOf modifier
      canClone := flagOn canClone
      canExport := flagOn canExport
      canUndo := flagOn canUndo
      track := flagOff track
      trackState := flagOn trackState
      trackDate := flagOn trackDate
      getterBody := getterBody.join
      setterBody := setterBody.join }

def methodOf : methodFields.Values → MethodDefinition
  | (name, type, args, body, isStatic, isAbstract, modifier, ()) =>
    { name := name.getD ""
      type := type.getD "void"
      args := itemsOf propertyOf args
      body := body.getD "return;"
      isStatic := flagOff isStatic
      isAbstract := flagOff isAbstract
      modifier := modifierOf modifier }

def decoratorOptionOf : decoratorOptionFields.Values → DecoratorOptionDefinition
  | (name, value, ()) => { name := name.getD "", value := value.getD "" }

def decoratorOf : decoratorFields.Values → DecoratorDefinition
  | (type, options, ()) =>
    { type := type.getD "", options := itemsOf decoratorOptionOf options }

def enumOf : enumFields.Values → EnumDefinition
  | (name, names, values, ()) =>
    { name := name.getD "", names := names.getD [], values := values.getD [] }

def importOf : importFields.Values → ImportDefinition
  | (name, path, ()) => { name := name.getD "", path := path.getD "" }

def interfaceOf : interfaceFields.Values → InterfaceDefinition
  | (name, parent, imports, properties, methods, ()) =>
    { name := name.getD ""
      parent := parent.join
      imports := itemsOf importOf imports
      properties := itemsOf propertyOf properties
      methods := itemsOf methodOf methods }

def classOf : classFields.Values → ClassDefinition
  | (name, parent, imports, properties, methods, args, superArgs, implements, isAbstract,
      isBaseClass, isBaseModel, canClone, canExport, canUndo, constructorCode, decorator, ()) =>
    { name := name.getD ""
      parent := parent.join
      imports := itemsOf importOf imports
      properties := itemsOf propertyOf properties
      methods := itemsOf methodOf methods
      args := itemsOf propertyOf args
      superArgs := itemsOf propertyOf superArgs
      implements := implements.getD []
      isAbstract := flagOff isAbstract
      isBaseClass := flagOff isBaseClass
      isBaseModel := flagOff isBaseModel
      canClone := flagOff canClone
      canExport := flagOff canExport
      canUndo := flagOff canUndo
      constructorCode := constructorCode.join
      decorator := decorator.join.map decoratorOf }

/-- The definition that the fields of a document state. -/
def definitionOf : definitionFields.Values → Definition
  | (options, enums, interfaces, classes, ()) =>
    { options := (options.map optionsOf).getD {}
      enums := itemsOf enumOf enums
      interfaces := itemsOf interfaceOf interfaces
      classes := itemsOf classOf classes }

end ModelScribe.Schema
