-- Programs. A program is a list of enumerations, interfaces and classes with
-- the options of the run. Its text has the imports first and then every
-- declaration, by kind and in declaration order.
--
-- A base model changes what comes after it: every later class that is not a
-- base model itself can be copied and exported, whatever its own flags say.
import ModelScribe.Model.Class
import ModelScribe.Model.Enumeration
import ModelScribe.Manifest

namespace ModelScribe

open Text

structure Program where
  options : Options := {}
  enums : List Enumeration := []
  interfaces : List Interface := []
  classes : List Class := []
  deriving DecidableEq, Repr

/-- What a run yields: the text, and the names that it exports. -/
structure Generated where
  manifest : Manifest := {}
  output : String := ""
  deriving DecidableEq, Repr

/-! ## Inheritance of capabilities -/

namespace Class

/-- The class with the capabilities that a base model passes on. -/
def empowered (c : Class) : Class := { c with canClone := true, canExport := true }

/-- The class as it is written after the given history: `seen` tells whether a base model
has been declared. -/
def settled (seen : Bool) (c : Class) : Class :=
  if seen && !c.isBaseModel then c.empowered else c

end Class

/-! ## Generation -/

/-- How far a generation has come. It takes one declaration after the other. -/
structure Assembly where
  manifest : Manifest := {}
  imports : ImportGroups := []
  /-- The declarations, each before its layout is chosen. -/
  blocks : List Doc := []
  /-- A base model has been declared. -/
  seenBaseModel : Bool := false
  deriving DecidableEq, Repr

namespace Assembly

/-- One more exported name, unless it is blank. -/
def exported (names : List String) (name : String) : List String :=
  if isBlank name then names else names ++ [name]

def addEnum (a : Assembly) (e : Enumeration) : Assembly :=
  { a with
    manifest := { a.manifest with enums := exported a.manifest.enums e.name }
    blocks := a.blocks ++ [e.doc] }

def addInterface (a : Assembly) (i : Interface) : Assembly :=
  { a with
    manifest := { a.manifest with interfaces := exported a.manifest.interfaces i.name }
    imports := ImportGroups.addAll a.imports i.imports
    blocks := a.blocks ++ [i.doc] }

/-- A base model counts as seen from its own declaration on. A base class is written, but
its name is not exported. -/
def addClass (v : Conventions) (a : Assembly) (c : Class) : Assembly :=
  let seen := a.seenBaseModel || c.isBaseModel
  let written := c.settled seen
  { manifest :=
      if c.isBaseClass then a.manifest
      else { a.manifest with classes := exported a.manifest.classes c.name }
    imports := ImportGroups.addAll a.imports written.imports
    blocks := a.blocks ++ [written.doc v]
    seenBaseModel := seen }

end Assembly

namespace Program

/-- A program without declarations. -/
def withOptions (options : Options) : Program := { options }

def addEnum (p : Program) (e : Enumeration) : Program := { p with enums := p.enums ++ [e] }

def addInterface (p : Program) (i : Interface) : Program :=
  { p with interfaces := p.interfaces ++ [i] }

def addClass (p : Program) (c : Class) : Program := { p with classes := p.classes ++ [c] }

/-- All declarations, taken by kind and in order. -/
def assembly (p : Program) : Assembly :=
  p.classes.foldl (.addClass p.options.conventions)
    (p.interfaces.foldl .addInterface (p.enums.foldl .addEnum {}))

/-- The program before its layout is chosen. -/
def doc (p : Program) : Doc :=
  .join [ImportGroups.doc p.assembly.imports, .join p.assembly.blocks]

def manifest (p : Program) : Manifest := p.assembly.manifest

def generate (p : Program) : Generated where
  manifest := p.manifest
  output := p.options.layout.write p.doc

end Program

end ModelScribe
