-- Natural numbers in text. Digits stand for a number in a base up to sixteen,
-- zeros before the others included. In decimal a plus sign may stand before
-- them all.

namespace ModelScribe.Text

/-- The value of a digit in a base up to sixteen. -/
def digitValue (base : Nat) (c : Char) : Option Nat :=
  let value :=
    if '0' ≤ c ∧ c ≤ '9' then c.toNat - 48
    else if 'a' ≤ c ∧ c ≤ 'f' then c.toNat - 87
    else if 'A' ≤ c ∧ c ≤ 'F' then c.toNat - 55
    else 16
  if value < base then some value else none

/-- The number that digits stand for, if all of them are digits in the base. -/
def digitsValue (base : Nat) (cs : List Char) : Option Nat :=
  cs.foldlM (fun n c => (digitValue base c).map (n * base + ·)) 0

/-- The number that decimal digits stand for, if there is at least one. -/
def unsigned (cs : List Char) : Option Nat := if cs.isEmpty then none else digitsValue 10 cs

/-- The number that a text stands for. -/
def natural (cs : List Char) : Option Nat :=
  match cs with
  | '+' :: ds => unsigned ds
  | _ => unsigned cs

/-- The character with a number. -/
def numberedChar (n : Nat) : Option Char :=
  if n.isValidChar then some (Char.ofNat n) else none

end ModelScribe.Text
