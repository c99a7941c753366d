-- The methods that every base model carries. `registerProperty`,
-- `registerProperties` and `parseObject` are always there; `clone`,
-- `toObject` and the pair `commit` and `revert` come with the capability
-- that they serve.
import ModelScribe.Model.Roster

namespace ModelScribe.BaseModel

/-! ## Bodies -/

/-- Enters one property in the lists that it may stand in. -/
def registerPropertyBody : String :=
  "if (canClone) \x7b this._clones.push(name); \x7d "
    ++ "if (canExport) \x7b this._exports.push(name); \x7d "
    ++ "if (canUndo) \x7b this.__[name] = this[name]; \x7d"

/-- Enters every property of a list. -/
def registerPropertiesBody : String :=
  "properties.forEach((p) => \x7b "
    ++ "if (!this.isNullOrUndefined(p) && !this.isNullOrEmpty(p.name)) \x7b "
    ++ "const n = p.name; "
    ++ "const c = this.isNullOrUndefined(p.canClone) ? true : p.canClone; "
    ++ "const e = this.isNullOrUndefined(p.canExport) ? true : p.canExport; "
    ++ "const u = this.isNullOrUndefined(p.canUndo) ? true : p.canUndo; "
    ++ "this.registerProperty(n, c, e, u); \x7d \x7d);"

/-- Copies the listed properties to another object. -/
def cloneBody : String :=
  "const o = obj || \x7b\x7d; "
    ++ "if (this._clones !== undefined) "
    ++ "\x7b this._clones.forEach((k) => \x7b o[k] = this[k]; \x7d); \x7d "
    ++ "return o;"

/-- Gathers the listed properties in a plain object. -/
def toObjectBody : String :=
  "const o = \x7b\x7d; "
    ++ "this._exports.forEach((e) => \x7b if (this[e] !== undefined) \x7b "
    ++ "if (this[e]['toObject'] !== undefined) \x7b o[e] = this[e].toObject(); \x7d "
    ++ "else \x7b o[e] = this[e]; \x7d \x7d \x7d); "
    ++ "return o;"

/-- Keeps the values that a later `revert` restores. -/
def snapshotCode : String :=
  " Object.keys(data).forEach((k) => "
    ++ "\x7b if ((this[k] !== undefined)) \x7b this.__[k] = this[k]; \x7d \x7d);"

/-- Reads the object's properties from plain data. -/
def parseObjectBody (canUndo : Bool) : String :=
  "if (!this.isNullOrUndefined(data)) \x7b Utils.parseObject(data, this);"
    ++ (if canUndo then snapshotCode else "") ++ " \x7d"

/-- Makes the current values the ones to go back to. -/
def commitBody : String :=
  "if (!this.isNullOrUndefined(this.__)) \x7b "
    ++ "Object.keys(this.__).forEach((k) => \x7b "
    ++ "if (this[k]['commit'] !== undefined) \x7b this[k].commit(); \x7d "
    ++ "else \x7b this.__[k] = this[k]; \x7d \x7d); \x7d"

/-- Goes back to the kept values. -/
def revertBody : String :=
  "if (!this.isNullOrUndefined(this.__)) \x7b "
    ++ "Object.keys(this.__).forEach((k) => \x7b "
    ++ "if (this[k]['revert'] !== undefined) \x7b this[k].revert(); \x7d "
    ++ "else \x7b this[k] = this.__[k]; \x7d \x7d); \x7d"

/-! ## Methods -/

/-- A flag of `registerProperty`: on unless the caller says otherwise. -/
def flagArg (name : String) : Property := { name, type := "boolean", value := some "true" }

def registerProperty : Method where
  name := "registerProperty"
  args := [
    { name := "name", type := "string" },
    flagArg "canClone", flagArg "canExport", flagArg "canUndo"]
  body := registerPropertyBody

def registerProperties : Method where
  name := "registerProperties"
  args := [{ name := "properties", type := "any[]" }]
  body := registerPropertiesBody

def clone : Method where
  name := "clone"
  type := "any"
  args := [{ name := "obj", optional := true }]
  body := cloneBody

def toObject : Method where
  name := "toObject"
  type := "any"
  body := toObjectBody

def parseObject (canUndo : Bool) : Method where
  name := "parseObject"
  args := [{ name := "data" }]
  body := parseObjectBody canUndo

def commit : Method where
  name := "commit"
  body := commitBody

def revert : Method where
  name := "revert"
  body := revertBody

/-- The methods of a base model with the capabilities of the class. -/
def methods (c : Class) : List Method :=
  [registerProperty, registerProperties]
    ++ (if c.canClone then [clone] else [])
    ++ (if c.canExport then [toObject] else [])
    ++ [parseObject c.canUndo]
    ++ (if c.canUndo then [commit, revert] else [])

end ModelScribe.BaseModel
