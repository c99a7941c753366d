-- Numbers as a text states them: digits with or without a point and an
-- exponent, or a name of infinity or of what is no number. A sign may stand
-- before all of these.
import ModelScribe.Text.Natural

namespace ModelScribe.Decimal

/-- The text without a sign at its start. -/
def unsign (cs : List Char) : List Char :=
  match cs with
  | '+' :: cs => cs
  | '-' :: cs => cs
  | _ => cs

/-- Digits, at least one. -/
def areDigits (cs : List Char) : Bool := (Text.unsigned cs).isSome

/-- Digits around a point, which may be missing; one side may be empty, but not both. -/
def isSignificand (cs : List Char) : Bool :=
  let isWhole (c : Char) : Bool := c ≠ '.'
  match cs.dropWhile isWhole with
  | [] => areDigits cs
  | _ :: fraction => areDigits (cs.takeWhile isWhole ++ fraction)

/-- A significand with or without an exponent. -/
def isFinite (cs : List Char) : Bool :=
  let isBase (c : Char) : Bool := c ≠ 'e' && c ≠ 'E'
  isSignificand (cs.takeWhile isBase) &&
    match cs.dropWhile isBase with
    | [] => true
    | _ :: exponent => areDigits (unsign exponent)

/-- The names of what digits do not state, in small letters. -/
def specialNames : List String := ["inf", "infinity", "nan"]

/-- The text states a number. -/
def isNumber (cs : List Char) : Bool :=
  let cs := unsign cs
  specialNames.contains (String.ofList (cs.map Char.toLower)) || isFinite cs

end ModelScribe.Decimal
