-- The options of a run. A document may set each of them; what it leaves out
-- takes the default. Two views are read off the options: the layout, which
-- only the last step of a run consults, and the conventions, which are all
-- that a document's words depend on.
import ModelScribe.Layout

namespace ModelScribe

open Text

/-- The settings of a generation run. -/
structure Options where
  /-- Lay the text out over indented lines. -/
  prettify : Bool := true
  /-- Spaces in one indent unit. -/
  tabSize : UInt8 := 4
  /-- The field that a constructor sets to the name of its class. -/
  classField : Option String := none
  /-- The field that a tracked setter sets to `true`. -/
  dirtyField : String := "_isDirty"
  /-- The field that a tracked setter sets to the current time. -/
  updatedField : String := "_lastUpdated"
  /-- Leave the type out of a field that has a default value. -/
  inferType : Bool := false
  deriving DecidableEq, Repr

instance : Inhabited Options := ⟨{}⟩

/-- What the words of a document depend on besides its descriptors. -/
structure Conventions where
  dirtyField : String
  updatedField : String
  /-- The field that names the class of an object, if there is one. -/
  discriminator : Option String
  inferType : Bool
  deriving DecidableEq, Repr

namespace Options

/-- The defaults, but for a compact layout. -/
def compact : Options := { prettify := false }

def layout (o : Options) : Layout := .ofSettings o.prettify o.tabSize

/-- A blank class field counts as none. -/
def conventions (o : Options) : Conventions where
  dirtyField := o.dirtyField
  updatedField := o.updatedField
  discriminator := nonBlank o.classField
  inferType := o.inferType

end Options

end ModelScribe
