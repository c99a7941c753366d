-- Classes, read by their characters. The rosters of a base model and the
-- statements of a constructor are read as what the model says, and so is the
-- class as a whole: the reader that knows only characters and the one that
-- goes by marks take the same from a class.
import Mathlib.Data.List.Basic
import ModelScribe.Proofs.ProgramText
import ModelScribe.Proofs.ScriptMembers
import ModelScribe.Proofs.Wording

namespace ModelScribe

open Text

/-! ## Legible classes -/

namespace Script

/-- The name of a declaration. -/
def isDeclaredName (t : String) : Bool := isIdentifier t && t != "class"

/-- No class begins in the text, unless it stands between brackets. -/
def isClassless (t : String) : Bool := (readAnywhere t).any fun ps => ps.all (!·.isClass)

/-- The name of a type, with its arguments. -/
def isTypeName (t : String) : Bool :=
  (readAnywhere t).any fun ps => !ps.isEmpty && ps.all (!·.isClass) && isTypeBehind none ps

end Script

open Script

def Decorator.Legible (d : Decorator) : Prop :=
  isClassless d.type = true
  ∧ ∀ o ∈ d.options, isLabel o.name = true ∧ isClosed o.value = true

/-- A step of a constructor that is read as what it is. -/
def ConstructorStep.Legible : ConstructorStep → Prop
  | .callSuper args => ∀ a ∈ args, isBlank a = false → isClosed a = true
  | .tagClass field name => isIdentifier field = true ∧ isIdentifier name = true
  | .enlist field names =>
    isIdentifier field = true ∧ names ≠ [] ∧ ∀ n ∈ names, isIdentifier n = true
  | .custom code => isClosed code = true

def Class.Legible (c : Class) : Prop :=
  isDeclaredName c.name = true
  ∧ (∀ s ∈ c.supertype, isTypeName s = true)
  ∧ (∀ d ∈ c.decorator, isBlank d.type = false → d.Legible)
  ∧ (∀ s ∈ c.implements, isBlank s = false → isTypeName s = true)
  ∧ (∀ p ∈ c.properties, p.isNamed = true → p.Legible)
  ∧ (∀ m ∈ c.methods, m.isNamed = true → m.Legible)
  ∧ (∀ a ∈ c.args, a.isNamed = true → isIdentifier a.name = true ∧ a.LegibleArg)
  ∧ (∀ s ∈ c.superArgs, isBlank s = false → isClosed s = true)
  ∧ ∀ s ∈ nonBlank c.constructorCode, isClosed s = true

instance (d : Decorator) : Decidable d.Legible := inferInstanceAs (Decidable (_ ∧ _))

instance (c : Class) : Decidable c.Legible := inferInstanceAs (Decidable (_ ∧ _))

/-! ## What the characters of a class tell -/

namespace Script

variable {d e : Doc} {ps qs : List Piece} {v : Conventions} {c : Class}

theorem Settles.congr (h : Settles d ps) (hchars : ∀ l : Layout, l.chars e = l.chars d) :
    Settles e ps := by
  intro l stack
  rw [hchars l]
  exact h l stack

/-! ## Rosters -/

/-- In every layout the document is read as pieces that hold these classes. -/
def Lists (d : Doc) (texts : List ClassText) : Prop :=
  ∃ ps, Settles d ps ∧ ∀ rest, classes (ps ++ rest) = texts ++ classes rest

theorem Lists.nil : Lists [] [] := ⟨[], settles_nil, fun _ => rfl⟩

theorem Lists.append {ts us : List ClassText} (hd : Lists d ts) (he : Lists e us) :
    Lists (d ++ e) (ts ++ us) := by
  obtain ⟨ps, hps, hclasses⟩ := hd
  obtain ⟨qs, hqs, hclasses'⟩ := he
  refine ⟨_, hps.append hqs, fun rest => ?_⟩
  rw [List.append_assoc, hclasses, hclasses', List.append_assoc]

theorem Lists.joined {ds : List Doc} {ts : List ClassText} (h : Lists (lined ds) ts) :
    Lists (Doc.join ds) ts := by
  obtain ⟨ps, hps, hclasses⟩ := h
  exact ⟨ps, settles_join hps, hclasses⟩

end Script
end ModelScribe
