-- Interfaces, and what they share with classes: a name, a supertype, members
-- and imports.
import ModelScribe.Model.Method
import ModelScribe.Model.Import

namespace ModelScribe

open Text

/-- What classes and interfaces have in common. Lists are in declaration order. -/
structure Outline where
  name : String := ""
  /-- The supertype as given, blank or not. -/
  parent : Option String := none
  imports : List Import := []
  properties : List Property := []
  methods : List Method := []
  deriving DecidableEq, Repr

namespace Outline

/-- The supertype, if it is set and not blank. -/
def supertype (o : Outline) : Option String := nonBlank o.parent

/-- ` extends Super`, or nothing. -/
def extendsDoc (o : Outline) : Doc :=
  match o.supertype with
  | some s => [" extends ", s]
  | none => []

def extending (o : Outline) (supertype : String) : Outline := { o with parent := some supertype }

def withProperty (o : Outline) (p : Property) : Outline :=
  { o with properties := o.properties ++ [p] }

def withMethod (o : Outline) (m : Method) : Outline := { o with methods := o.methods ++ [m] }

def withImport (o : Outline) (name path : String) : Outline :=
  { o with imports := o.imports ++ [{ name, path }] }

end Outline

/-- An interface: properties, then method signatures. -/
structure Interface extends Outline where
  deriving DecidableEq, Repr

namespace Interface

/-- An interface with nothing but a name. -/
def named (name : String) : Interface := { name }

def doc (i : Interface) : Doc :=
  if isBlank i.name then []
  else .join [
    .cat [["export interface ", i.name], i.extendsDoc, [.space, "\x7b"]],
    .join (i.properties.map (·.interfaceDoc)),
    .join (i.methods.map (·.interfaceDoc)),
    ["\x7d"]]

end Interface

end ModelScribe
