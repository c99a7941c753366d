-- Access modifiers. A modifier is one of the three that the target language
-- has, or free text such as `readonly` that is kept word for word.
import ModelScribe.Text.Blank

namespace ModelScribe

open Text

/-- The access modifier of a class member. -/
inductive Modifier where
  | pub
  | prot
  | priv
  /-- Any other text, as given. -/
  | custom (text : String)
  deriving DecidableEq, Repr

namespace Modifier

instance : Inhabited Modifier := ⟨.pub⟩

/-- The word that the generator writes. -/
def text : Modifier → String
  | .pub => "public"
  | .prot => "protected"
  | .priv => "private"
  | .custom t => t

/-- The modifier that a text stands for. White space around one of the three words does
not count, and a blank text means `public`. -/
def ofText (t : String) : Modifier :=
  if trim t = "" ∨ trim t = "public" then .pub
  else if trim t = "protected" then .prot
  else if trim t = "private" then .priv
  else .custom t

end Modifier

end ModelScribe
