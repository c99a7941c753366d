-- Whole programs, read by their characters. Imports, enumerations and
-- interfaces are read as pieces in which no class begins. So a reader that
-- knows only characters finds in the text of a program the classes that it
-- writes, once and in order, and reads each as its descriptor says.
import ModelScribe.Proofs.ProgramText
import ModelScribe.Proofs.ScriptClasses

namespace ModelScribe

open Text Script

/-! ## Legible programs -/

def Enumeration.Legible (e : Enumeration) : Prop :=
  isClassless e.name = true
  ∧ ∀ m ∈ e.members, isBlank m.name = false →
    isLabel m.name = true ∧ ∀ s ∈ nonBlank m.value, isClosed s = true

/-- A parameter, or a member of an interface. -/
def Property.LegibleParam (p : Property) : Prop := isLabel p.name = true ∧ isClosed p.type = true

def Interface.Legible (i : Interface) : Prop :=
  isClassless i.name = true ∧ (∀ s ∈ i.supertype, isClassless s = true)
  ∧ (∀ p ∈ i.properties, p.isNamed = true → p.LegibleParam)
  ∧ ∀ m ∈ i.methods, m.isNamed = true →
    isLabel m.name = true ∧ isClosed m.type = true
    ∧ ∀ a ∈ m.args, a.isNamed = true → a.LegibleParam

def Import.Legible (i : Import) : Prop := isLabel i.name = true ∧ isQuotable i.path = true

/-- Every text of the program is read as one: as a name, a type, a value, a body. -/
structure Program.Legible (p : Program) : Prop where
  conventions : p.options.conventions.Legible
  enums : ∀ e ∈ p.enums, isBlank e.name = false → e.Legible
  interfaces : ∀ i ∈ p.interfaces, isBlank i.name = false → i.Legible
  classes : ∀ c ∈ p.classes, isBlank c.name = false → c.Legible
  imports : ∀ i ∈ p.interfaces.flatMap (·.imports) ++ p.classes.flatMap (·.imports), i.Legible

instance (p : Property) : Decidable p.LegibleParam := inferInstanceAs (Decidable (_ ∧ _))

instance (e : Enumeration) : Decidable e.Legible := inferInstanceAs (Decidable (_ ∧ _))

instance (i : Interface) : Decidable i.Legible := inferInstanceAs (Decidable (_ ∧ _))

instance (i : Import) : Decidable i.Legible := inferInstanceAs (Decidable (_ ∧ _))

namespace Script

variable {d : Doc} {ps : List Piece}

/-! ## Declarations without classes -/

end Script

namespace Program

variable {p : Program}

end Program

end ModelScribe
