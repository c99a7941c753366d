-- Rosters. A base model keeps two lists of property names at run time: those
-- that a copy takes over and those that an export writes. Each class adds
-- its own properties to both lists, as far as the class has the capability
-- and the property does not opt out. The names are settled here, before any
-- text is written, so the fields and the constructor tell the same story.
import ModelScribe.Model.Interface
import ModelScribe.Model.Decorator

namespace ModelScribe

open Text

/-- A class declaration. -/
structure Class extends Outline where
  /-- Arguments of the constructor. -/
  args : List Property := []
  /-- What the constructor hands on to the constructor of the supertype. -/
  superArgs : List String := []
  implements : List String := []
  isAbstract : Bool := false
  /-- Scaffolding for other classes, left out of the manifest. -/
  isBaseClass : Bool := false
  /-- The class carries the machinery for copies, exports and undo. -/
  isBaseModel : Bool := false
  canClone : Bool := false
  canExport : Bool := false
  canUndo : Bool := false
  decorator : Option Decorator := none
  /-- Code at the end of the constructor, word for word. -/
  constructorCode : Option String := none
  deriving DecidableEq, Repr

/-- One of the two lists of names that a base model keeps. -/
inductive Roster where
  | clones
  | exports
  deriving DecidableEq, Repr

namespace Roster

/-- Both rosters, in the order in which they are written. -/
def all : List Roster := [.clones, .exports]

/-- The field that holds the roster. -/
def field : Roster → String
  | .clones => "_clones"
  | .exports => "_exports"

/-- The class has the capability that the roster serves. -/
def allows : Roster → Class → Bool
  | .clones, c => c.canClone
  | .exports, c => c.canExport

/-- The property may stand in the roster. -/
def admits : Roster → Property → Bool
  | .clones, p => p.canClone
  | .exports, p => p.canExport

/-- The names that a class adds to the roster: every named property, static or not, that
may stand in it. -/
def names (r : Roster) (c : Class) : List String :=
  if r.allows c then (c.properties.filter fun p => p.isNamed && r.admits p).map (·.name) else []

end Roster

end ModelScribe
