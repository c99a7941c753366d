-- The text of a double. Two styles are in use: source text is written without
-- an exponent and without a point after a whole number; messages write a
-- decimal point always, and an exponent with its sign for very large and very
-- small numbers.
import ModelScribe.Decimal.Shortest

namespace ModelScribe.Decimal

/-! ## Decimals -/

/-- The digits of a number, the most significant first. -/
def digitChars (n : Nat) : List Char := Nat.toDigits 10 n

namespace Scaled

/-- The decimal without an exponent. A whole number gets `whole` after its digits. -/
def positional (d : Scaled) (whole : String) : String :=
  let ds := digitChars d.significand
  if 0 ≤ d.exponent then
    String.ofList (ds ++ List.replicate d.exponent.toNat '0') ++ whole
  else
    let places := (-d.exponent).toNat
    if places < ds.length then
      String.ofList (ds.take (ds.length - places) ++ '.' :: ds.drop (ds.length - places))
    else
      String.ofList ('0' :: '.' :: List.replicate (places - ds.length) '0' ++ ds)

/-- The decimal with one digit before the point, and an exponent with its sign. -/
def scientific (d : Scaled) : String :=
  let ds := digitChars d.significand
  let e := d.exponent + ds.length - 1
  let fraction := match ds.drop 1 with
    | [] => []
    | rest => '.' :: rest
  String.ofList (ds.take 1 ++ fraction ++ ['e', if e < 0 then '-' else '+'])
    ++ Nat.repr e.natAbs

end Scaled

/-! ## Doubles -/

/-- The bit of a double that holds its sign. -/
def signBit : Nat := 0x8000000000000000

/-- The sign of a double, with which its text begins. -/
def sign (x : Float) : String := if x.toBits.toNat < signBit then "" else "-"

/-- The bits of a double without its sign. -/
def magnitudeBits (x : Float) : Nat := x.toBits.toNat % signBit

/-- A double as source text: the fewest digits that read back, never an exponent, and no
point after a whole number. -/
def sourceText (x : Float) : String :=
  if x.isNaN then "NaN"
  else if x.isInf then sign x ++ "inf"
  else if magnitudeBits x = 0 then sign x ++ "0"
  else sign x ++ (shortest .up (magnitudeBits x)).positional ""

/-- A finite double in a message: the fewest digits that read back, `.0` after a whole
number, and an exponent from 1e16 on and below 1e-5. -/
def messageText (x : Float) : String :=
  if magnitudeBits x = 0 then sign x ++ "0.0"
  else
    let d := shortest .toEven (magnitudeBits x)
    let point := d.exponent + (digitChars d.significand).length
    sign x ++ (if -5 < point ∧ point ≤ 16 then d.positional ".0" else d.scientific)

end ModelScribe.Decimal
