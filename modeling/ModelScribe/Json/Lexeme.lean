-- The lexemes of JSON that are kept: words, strings and numbers. Strings are
-- decoded, with every escape checked. A number is an integer if it is written
-- as one and fits in 64 bits; any other number is a double. Each reader takes
-- the characters from where the lexeme starts and hands back what follows it.
import ModelScribe.Json.Fault
import ModelScribe.Text.Natural

namespace ModelScribe.Json

/-! ## White space and words -/

/-- The white space of JSON: space, line feed, carriage return and tab. -/
def isSpace (c : Char) : Bool := c = ' ' || c = '\n' || c = '\t' || c = '\r'

def skipSpace (cs : List Char) : List Char := cs.dropWhile isSpace

/-- Reads the characters of a word, such as `null`. -/
def word : List Char → List Char → Except Failure (List Char)
  | [], cs => .ok cs
  | _ :: _, [] => failHere .endInValue []
  | w :: ws, c :: cs => if c = w then word ws cs else failAhead .expectedWord (c :: cs)

/-! ## Strings -/

/-- Reads four hexadecimal digits. -/
def hexQuad (cs : List Char) : Step Nat :=
  match cs with
  | a :: b :: c :: d :: rest =>
    match Text.digitsValue 16 [a, b, c, d] with
    | some n => .ok (n, rest)
    | none => .error (.placed .invalidEscape cs 4)
  | _ =>
    if 4 ≤ Text.byteLength cs then .error (.placed .invalidEscape cs 4)
    else failHere .endInString []

/-- The first half of a surrogate pair. -/
def isLeading (n : Nat) : Bool := 0xD800 ≤ n && n < 0xDC00

/-- The second half of a surrogate pair. -/
def isTrailing (n : Nat) : Bool := 0xDC00 ≤ n && n < 0xE000

/-- The character that a surrogate pair stands for. -/
def joinPair (leading trailing : Nat) : Char :=
  Char.ofNat ((leading - 0xD800) * 0x400 + (trailing - 0xDC00) + 0x10000)

/-- Reads the second half of a surrogate pair, with the backslash and the `u` before it. -/
def trailingHalf (leading : Nat) (cs : List Char) : Step Char :=
  match cs with
  | [] => failHere .endInString []
  | '\\' :: 'u' :: rest =>
    (hexQuad rest).andThen fun trailing rest =>
      if isTrailing trailing then .ok (joinPair leading trailing, rest)
      else failHere .loneSurrogate rest
  | ['\\'] => failHere .endInString []
  | '\\' :: rest => failAhead .unfinishedPair rest
  | _ => failAhead .unfinishedPair cs

/-- Reads an escape after its backslash. -/
def escaped (cs : List Char) : Step Char :=
  match cs with
  | [] => failHere .endInString []
  | '"' :: rest => .ok ('"', rest)
  | '\\' :: rest => .ok ('\\', rest)
  | '/' :: rest => .ok ('/', rest)
  | 'b' :: rest => .ok ('\x08', rest)
  | 'f' :: rest => .ok ('\x0c', rest)
  | 'n' :: rest => .ok ('\n', rest)
  | 'r' :: rest => .ok ('\r', rest)
  | 't' :: rest => .ok ('\t', rest)
  | 'u' :: rest =>
    (hexQuad rest).andThen fun n rest =>
      if isTrailing n then failHere .loneSurrogate rest
      else if isLeading n then trailingHalf n rest
      else .ok (Char.ofNat n, rest)
  | _ => failAhead .invalidEscape cs

/-- Reads the characters of a string up to its closing quote. The first `covered` of them
belong to an escape that has been read. -/
def stringBody (text : List Char) (covered : Nat) (cs : List Char) : Step String :=
  match covered, cs with
  | _, [] => failHere .endInString []
  | covered + 1, _ :: rest => stringBody text covered rest
  | 0, c :: rest =>
    if c = '"' then .ok (String.ofList text.reverse, rest)
    else if c = '\\' then
      match escaped rest with
      | .error f => .error f
      | .ok (x, after) => stringBody (x :: text) (rest.length - after.length) rest
    else if c.toNat < 32 then failHere .controlCharacter rest
    else stringBody (c :: text) 0 rest

/-- Reads a string after its opening quote. -/
def string (cs : List Char) : Step String := stringBody [] 0 cs

/-! ## Numbers -/

/-- A number as it is kept. -/
inductive Number where
  | integer (n : Int)
  | real (x : Float)
  deriving Repr

def isDigit (c : Char) : Bool := '0' ≤ c && c ≤ '9'

def digitValue (c : Char) : Nat := c.toNat - 48

/-- Takes digits into a significand as long as it fits in 64 bits: the significand, and
the digits that did not fit. -/
def absorb (significand : Nat) : List Char → Nat × List Char
  | [] => (significand, [])
  | d :: ds =>
    let next := significand * 10 + digitValue d
    if next < 0x10000000000000000 then absorb next ds else (significand, d :: ds)

/-- A significand scaled by a power of ten, step by step in floating point. Nothing if it
is too large for a double. -/
def scaled (fuel : Nat) (f : Float) (exponent : Int) : Option Float :=
  let magnitude := exponent.natAbs
  if magnitude ≤ 308 then
    let power := Float.ofScientific 1 false magnitude
    if 0 ≤ exponent then
      let product := f * power
      if product.isInf then none else some product
    else some (f / power)
  else if f == 0.0 then some f
  else if 0 ≤ exponent then none
  else match fuel with
    | 0 => some 0.0
    | fuel + 1 => scaled fuel (f / Float.ofScientific 1 false 308) (exponent + 308)

/-- The double with the given sign, significand and decimal exponent. -/
def real (negative : Bool) (significand : Nat) (exponent : Int) (rest : List Char) :
    Step Number :=
  match scaled 8 significand.toFloat exponent with
  | none => failHere .numberOutOfRange rest
  | some f => .ok (.real (if negative then -f else f), rest)

/-- The value of the digits of an exponent; if it does not fit in 31 bits, what stands
after the digit that is too many. -/
def exponentValue (value : Nat) : List Char → Except (List Char) Nat
  | [] => .ok value
  | d :: ds =>
    let next := value * 10 + digitValue d
    if next < 0x80000000 then exponentValue next ds else .error ds

/-- Reads an exponent after its `e`, and finishes the number. -/
def exponentPart (negative : Bool) (significand : Nat) (exponent : Int) (cs : List Char) :
    Step Number :=
  let (down, cs) := match cs with
    | '+' :: rest => (false, rest)
    | '-' :: rest => (true, rest)
    | _ => (false, cs)
  let digits := cs.takeWhile isDigit
  let rest := cs.dropWhile isDigit
  if digits.isEmpty then
    match cs with
    | [] => failHere .endInValue []
    | _ => failAhead .invalidNumber cs
  else match exponentValue 0 digits with
    | .ok value =>
      real negative significand (if down then exponent - value else exponent + value) rest
    | .error left =>
      if significand ≠ 0 ∧ !down then failHere .numberOutOfRange (left ++ rest)
      else .ok (.real (if negative then -0.0 else 0.0), rest)

/-- Finishes a number after the digits before and after the point. -/
def afterDigits (negative : Bool) (significand : Nat) (exponent : Int) (cs : List Char) :
    Step Number :=
  match cs with
  | 'e' :: rest => exponentPart negative significand exponent rest
  | 'E' :: rest => exponentPart negative significand exponent rest
  | _ => real negative significand exponent cs

/-- Reads the digits after the point, and finishes the number. -/
def fractionPart (negative : Bool) (significand : Nat) (exponent : Int) (cs : List Char) :
    Step Number :=
  let digits := cs.takeWhile isDigit
  let rest := cs.dropWhile isDigit
  if digits.isEmpty then
    match rest with
    | [] => failHere .endInValue []
    | _ => failAhead .invalidNumber rest
  else
    let (significand, left) := absorb significand digits
    afterDigits negative significand (exponent - (digits.length - left.length : Nat)) rest

/-- The number that an integer literal stands for: an integer if 64 bits hold it, where
the negative ones have a sign bit and the others have none. -/
def integral (negative : Bool) (significand : Nat) : Number :=
  if !negative then .integer significand
  else if 0 < significand ∧ significand ≤ 0x8000000000000000 then .integer (-significand)
  else .real (-significand.toFloat)

/-- Reads a number after its sign. -/
def number (negative : Bool) (cs : List Char) : Step Number :=
  let digits := cs.takeWhile isDigit
  let rest := cs.dropWhile isDigit
  match digits with
  | [] =>
    match cs with
    | [] => failHere .endInValue []
    | _ => failAhead .invalidNumber cs
  | '0' :: _ :: _ => failAhead .invalidNumber (cs.drop 1)
  | digits =>
    let (significand, left) := absorb 0 digits
    match rest with
    | '.' :: after => fractionPart negative significand left.length after
    | 'e' :: after => exponentPart negative significand left.length after
    | 'E' :: after => exponentPart negative significand left.length after
    | _ =>
      if left.isEmpty then .ok (integral negative significand, rest)
      else real negative significand left.length rest

end ModelScribe.Json
