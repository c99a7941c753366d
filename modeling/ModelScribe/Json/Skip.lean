-- Skipping a value. The value of a key that nobody asked for is passed over:
-- its syntax is checked, but its strings are not decoded, its numbers may be
-- of any size, and its lists and objects may be nested to any depth. So the
-- brackets that are open are kept in a list, not in the call stack.
import ModelScribe.Json.Lexeme

namespace ModelScribe.Json

/-! ## Strings and numbers -/

/-- Passes over an escape after its backslash. -/
def skipEscape (cs : List Char) : Except Failure (List Char) :=
  match cs with
  | [] => failHere .endInString []
  | 'u' :: rest => (hexQuad rest).andThen fun _ rest => .ok rest
  | c :: rest =>
    if ['"', '\\', '/', 'b', 'f', 'n', 'r', 't'].contains c then .ok rest
    else failAhead .invalidEscape cs

/-- Passes over a string after its opening quote. The first `covered` characters belong to
an escape that has been passed. -/
def skipString (covered : Nat) (cs : List Char) : Except Failure (List Char) :=
  match covered, cs with
  | _, [] => failHere .endInString []
  | covered + 1, _ :: rest => skipString covered rest
  | 0, c :: rest =>
    if c = '"' then .ok rest
    else if c = '\\' then
      match skipEscape rest with
      | .error f => .error f
      | .ok after => skipString (rest.length - after.length) rest
    else if c.toNat < 32 then failHere .controlCharacter (c :: rest)
    else skipString 0 rest

/-- Passes over an exponent after its `e`. -/
def skipExponent (cs : List Char) : Except Failure (List Char) :=
  let cs := match cs with
    | '+' :: rest => rest
    | '-' :: rest => rest
    | _ => cs
  if (cs.takeWhile isDigit).isEmpty then failAhead .invalidNumber cs
  else .ok (cs.dropWhile isDigit)

/-- Passes over what may follow the digits of a number. -/
def skipAfterDigits (cs : List Char) : Except Failure (List Char) :=
  match cs with
  | 'e' :: rest => skipExponent rest
  | 'E' :: rest => skipExponent rest
  | _ => .ok cs

/-- Passes over a number after its sign. -/
def skipNumber (cs : List Char) : Except Failure (List Char) :=
  match cs.takeWhile isDigit with
  | [] => failAhead .invalidNumber cs
  | '0' :: _ :: _ => failAhead .invalidNumber (cs.drop 1)
  | _ =>
    match cs.dropWhile isDigit with
    | '.' :: rest =>
      if (rest.takeWhile isDigit).isEmpty then failAhead .invalidNumber rest
      else skipAfterDigits (rest.dropWhile isDigit)
    | rest => skipAfterDigits rest

/-! ## Brackets -/

/-- An open bracket. -/
inductive Bracket where
  | list
  | object
  deriving DecidableEq, Repr

namespace Bracket

def closing : Bracket → Char
  | .list => ']'
  | .object => '\x7d'

/-- What is wrong when the document ends inside. -/
def endCause : Bracket → Cause
  | .list => .endInList
  | .object => .endInObject

/-- What is wrong when neither a comma nor the closing bracket follows an item. -/
def expectedEnd : Bracket → Cause
  | .list => .expectedListEnd
  | .object => .expectedObjectEnd

end Bracket

/-- Reads the colon after a key. -/
def colon (cs : List Char) : Except Failure (List Char) :=
  match skipSpace cs with
  | [] => failAhead .endInObject []
  | ':' :: rest => .ok rest
  | rest => failAhead .expectedColon rest

/-- Passes over the key before a value, if the value stands in an object. -/
def skipKey (b : Bracket) (cs : List Char) : Except Failure (List Char) :=
  match b with
  | .list => .ok cs
  | .object =>
    match skipSpace cs with
    | [] => failAhead .endInObject []
    | '"' :: rest => (skipString 0 rest).bind colon
    | rest => failAhead .keyNotText rest

/-! ## Values -/

mutual

/-- Passes over a value and the brackets around it. -/
def skipOpen (fuel : Nat) (brackets : List Bracket) (cs : List Char) : Except Failure (List Char) :=
  match fuel with
  | 0 => failHere .endInValue cs
  | fuel + 1 =>
    match skipSpace cs with
    | [] => failAhead .endInValue []
    | 'n' :: rest => (word ['u', 'l', 'l'] rest).bind (skipClose fuel brackets true)
    | 't' :: rest => (word ['r', 'u', 'e'] rest).bind (skipClose fuel brackets true)
    | 'f' :: rest => (word ['a', 'l', 's', 'e'] rest).bind (skipClose fuel brackets true)
    | '"' :: rest => (skipString 0 rest).bind (skipClose fuel brackets true)
    | '-' :: rest => (skipNumber rest).bind (skipClose fuel brackets true)
    | '[' :: rest => skipClose fuel (.list :: brackets) false rest
    | '\x7b' :: rest => skipClose fuel (.object :: brackets) false rest
    | c :: rest =>
      if isDigit c then (skipNumber (c :: rest)).bind (skipClose fuel brackets true)
      else failAhead .expectedValue (c :: rest)

/-- Passes over what remains of the open brackets. `afterItem` tells whether an item of the
innermost bracket comes before. -/
def skipClose (fuel : Nat) (brackets : List Bracket) (afterItem : Bool) (cs : List Char) :
    Except Failure (List Char) :=
  match fuel, brackets with
  | _, [] => .ok cs
  | 0, _ => failHere .endInValue cs
  | fuel + 1, b :: outer =>
    match skipSpace cs with
    | [] => failAhead b.endCause []
    | c :: rest =>
      if c = ',' && afterItem then (skipKey b rest).bind (skipOpen fuel (b :: outer))
      else if c = b.closing then skipClose fuel outer true rest
      else if afterItem then failAhead b.expectedEnd (c :: rest)
      else (skipKey b (c :: rest)).bind (skipOpen fuel (b :: outer))

end

/-- Passes over one value. Every character is looked at once to open and once to close. -/
def skipValue (cs : List Char) : Except Failure (List Char) :=
  skipOpen (2 * cs.length + 2) [] cs

end ModelScribe.Json
