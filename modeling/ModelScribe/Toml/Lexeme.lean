-- The lexemes of TOML: white space, comments, keys, strings, numbers and
-- dates. Each reader takes the characters from where the lexeme starts and
-- hands back what follows it, or nothing if the document is malformed. Only
-- a fault in a key has a place.
import ModelScribe.Text.Natural
import ModelScribe.Toml.Value

namespace ModelScribe.Toml

/-! ## White space and comments -/

def isSpace (c : Char) : Bool := c = ' ' || c = '\t'

/-- A character that neither a comment nor a string may hold as it is. -/
def isControl (c : Char) : Bool := (c.toNat < 32 && c ≠ '\t') || c.toNat = 127

def skipSpace (cs : List Char) : List Char := cs.dropWhile isSpace

/-- Reads a line break. -/
def lineBreak (cs : List Char) : Option (List Char) :=
  match cs with
  | '\n' :: rest => some rest
  | '\r' :: '\n' :: rest => some rest
  | _ => none

/-- Passes over a comment, if one begins here. -/
def skipComment (cs : List Char) : List Char :=
  match cs with
  | '#' :: rest => rest.dropWhile (!isControl ·)
  | _ => cs

/-- Passes over the end of a line, which may hold a comment. -/
def lineEnd (cs : List Char) : Option (List Char) :=
  match skipComment (skipSpace cs) with
  | [] => some []
  | rest => lineBreak rest

/-- Passes over white space, comments and line breaks. `inComment` tells that a comment is
open. -/
def skipLines (inComment : Bool) (cs : List Char) : Option (List Char) :=
  match cs with
  | [] => some []
  | c :: rest =>
    if c = '\n' then skipLines false rest
    else if c = '\r' then if rest.head? = some '\n' then skipLines false rest else none
    else if inComment then if isControl c then none else skipLines true rest
    else if isSpace c then skipLines false rest
    else if c = '#' then skipLines true rest
    else some (c :: rest)

/-! ## Strings -/

/-- Reads so many hexadecimal digits as the number of a character. -/
def codedChar (digits : Nat) (cs : List Char) : Option (Char × List Char) :=
  if (cs.take digits).length < digits then none
  else
    ((Text.digitsValue 16 (cs.take digits)).bind Text.numberedChar).map fun c => (c, cs.drop digits)

/-- Reads an escape after its backslash. -/
def escaped (cs : List Char) : Option (Char × List Char) :=
  match cs with
  | 'b' :: rest => some ('\x08', rest)
  | 't' :: rest => some ('\t', rest)
  | 'n' :: rest => some ('\n', rest)
  | 'f' :: rest => some ('\x0c', rest)
  | 'r' :: rest => some ('\r', rest)
  | 'e' :: rest => some ('\x1b', rest)
  | '"' :: rest => some ('"', rest)
  | '\\' :: rest => some ('\\', rest)
  | 'x' :: rest => codedChar 2 rest
  | 'u' :: rest => codedChar 4 rest
  | 'U' :: rest => codedChar 8 rest
  | _ => none

/-- Reads a string on one line up to its closing quote. With `escapes`, a backslash begins
an escape. The first `covered` characters have been read. -/
def lineString (quote : Char) (escapes : Bool) (text : List Char) (covered : Nat)
    (cs : List Char) : Option (String × List Char) :=
  match covered, cs with
  | _, [] => none
  | covered + 1, _ :: rest => lineString quote escapes text covered rest
  | 0, c :: rest =>
    if c = quote then some (String.ofList text.reverse, rest)
    else if escapes && c = '\\' then
      match escaped rest with
      | some (x, after) =>
        lineString quote escapes (x :: text) (rest.length - after.length) rest
      | none => none
    else if isControl c then none
    else lineString quote escapes (c :: text) 0 rest

/-- Passes over white space and line breaks. -/
def skipBlank (cs : List Char) : List Char :=
  match cs with
  | [] => []
  | '\r' :: '\n' :: rest => skipBlank rest
  | c :: rest => if isSpace c || c = '\n' then skipBlank rest else c :: rest

/-- What follows the white space and line breaks after a backslash at the end of a line, if
the line ends here. -/
def continuedLine (cs : List Char) : Option (List Char) :=
  (lineBreak (skipSpace cs)).map skipBlank

/-- Reads a string over several lines up to its three closing quotes, of which it may
itself end in two more. The first `covered` characters have been read. -/
def blockString (quote : Char) (escapes : Bool) (text : List Char) (covered : Nat)
    (cs : List Char) : Option (String × List Char) :=
  match covered, cs with
  | _, [] => none
  | covered + 1, _ :: rest => blockString quote escapes text covered rest
  | 0, c :: rest =>
    if c = quote then
      let run := 1 + (rest.takeWhile (· = quote)).length
      if run < 3 then
        blockString quote escapes (List.replicate run quote ++ text) (run - 1) rest
      else if run < 6 then
        some (String.ofList (List.replicate (run - 3) quote ++ text).reverse, rest.drop (run - 1))
      else none
    else if escapes && c = '\\' then
      match continuedLine rest with
      | some after => blockString quote escapes text (rest.length - after.length) rest
      | none =>
        match escaped rest with
        | some (x, after) =>
          blockString quote escapes (x :: text) (rest.length - after.length) rest
        | none => none
    else if c = '\r' then
      if rest.head? = some '\n' then blockString quote escapes (c :: text) 0 rest else none
    else if isControl c && c ≠ '\n' then none
    else blockString quote escapes (c :: text) 0 rest

/-- Reads a string after its opening quotes; a line break right after three of them does
not count. -/
def blockStringBody (quote : Char) (escapes : Bool) (cs : List Char) :
    Option (String × List Char) :=
  blockString quote escapes [] 0 ((lineBreak cs).getD cs)

/-! ## Keys -/

/-- What was found, or a fault without a place. -/
def orFault {α : Type} (found : Option α) : Except Fault α :=
  match found with
  | some a => .ok a
  | none => .error none

/-- A character of a key without quotes. -/
def isKeyChar (c : Char) : Bool := c.isAlphanum || c = '_' || c = '-'

/-- A character that ends a word without quotes. -/
def endsWord (c : Char) : Bool :=
  isSpace c || c = '\n' || c = '\r' || c = '#' || c = '.' || c = '=' || c = ','
    || c = '[' || c = ']' || c = '\x7b' || c = '\x7d'

/-- Reads one part of a key. A word that holds a character that no key has is a fault as a
whole. -/
def simpleKey (cs : List Char) : Except Fault (Key × List Char) :=
  let named (found : String × List Char) : Key × List Char :=
    ({ name := found.1, extent := ⟨cs, found.2⟩ }, found.2)
  match cs with
  | '"' :: rest => (orFault (lineString '"' true [] 0 rest)).map named
  | '\'' :: rest => (orFault (lineString '\'' false [] 0 rest)).map named
  | _ =>
    let word := cs.takeWhile (!endsWord ·)
    let rest := cs.dropWhile (!endsWord ·)
    if word.isEmpty then .error none
    else if word.all isKeyChar then .ok (named (String.ofList word, rest))
    else .error (some ⟨cs, rest⟩)

/-- Reads a key of so many parts at most, and the white space after it: the parts before
the last dot, and the last part. -/
def key (limit : Nat) (cs : List Char) : Except Fault ((List Key × Key) × List Char) :=
  match limit with
  | 0 => .error none
  | limit + 1 => do
    let (k, rest) ← simpleKey (skipSpace cs)
    match skipSpace rest with
    | '.' :: rest => do
      let ((path, last), rest) ← key limit rest
      return ((k :: path, last), rest)
    | rest => return (([], k), rest)

/-! ## Numbers -/

/-- The digits without the underscores between them, if every underscore stands between
two digits and there is at least one digit. -/
def plainDigits (base : Nat) (cs : List Char) : Option (List Char) :=
  match cs with
  | [] => none
  | [d] => if (Text.digitValue base d).isSome then some [d] else none
  | d :: '_' :: rest =>
    if (Text.digitValue base d).isSome then (plainDigits base rest).map (d :: ·) else none
  | d :: rest =>
    if (Text.digitValue base d).isSome then (plainDigits base rest).map (d :: ·) else none

/-- The digits of a whole number in decimal: no zero before other digits. -/
def wholeDigits (cs : List Char) : Option (List Char) :=
  match plainDigits 10 cs with
  | some ('0' :: _ :: _) => none
  | found => found

/-- The sign of a number, and what follows it. -/
def splitSign (cs : List Char) : Bool × List Char :=
  match cs with
  | '-' :: rest => (true, rest)
  | '+' :: rest => (false, rest)
  | _ => (false, cs)

/-- An integer in decimal, hexadecimal, octal or binary. -/
def integer (cs : List Char) : Option Value :=
  let inBase (base : Nat) (cs : List Char) : Option Value :=
    ((plainDigits base cs).bind (Text.digitsValue base)).map fun n => .integer n
  match cs with
  | '0' :: 'x' :: rest => inBase 16 rest
  | '0' :: 'o' :: rest => inBase 8 rest
  | '0' :: 'b' :: rest => inBase 2 rest
  | _ =>
    let (negative, rest) := splitSign cs
    ((wholeDigits rest).bind (Text.digitsValue 10)).map fun n =>
      .integer (if negative then -n else n)

/-- The double nearest to `significand * 10 ^ exponent`. Far outside of the range of
doubles the power is not computed. -/
def nearest (negative : Bool) (significand : Nat) (exponent : Int) : Value :=
  let magnitude := exponent + (Nat.toDigits 10 significand).length
  let x :=
    if significand = 0 ∨ magnitude < -400 then 0.0
    else if 400 < magnitude then 1.0 / 0.0
    else Float.ofScientific significand (exponent < 0) exponent.natAbs
  if x.isInf then .overflow else .real (if negative then -x else x)

/-- The exponent of a number after its `e`. -/
def exponentValue (cs : List Char) : Option Int :=
  let (negative, rest) := splitSign cs
  ((plainDigits 10 rest).bind (Text.digitsValue 10)).map fun n => if negative then -n else n

/-- A number with a fraction, an exponent or both, or one of the words for infinity and
for no number. -/
def real (cs : List Char) : Option Value :=
  let (negative, rest) := splitSign cs
  if rest = ['i', 'n', 'f'] then
    some (.real (if negative then -(1.0 / 0.0) else 1.0 / 0.0))
  else if rest = ['n', 'a', 'n'] then some (.real (0.0 / 0.0))
  else do
    let mantissa := rest.takeWhile fun c => c ≠ 'e' && c ≠ 'E'
    let exponent ← match rest.drop mantissa.length with
      | [] => some 0
      | _ :: rest => exponentValue rest
    let whole ← wholeDigits (mantissa.takeWhile (· ≠ '.'))
    let fraction ← match mantissa.dropWhile (· ≠ '.') with
      | [] => some []
      | _ :: rest => plainDigits 10 rest
    let significand ← Text.digitsValue 10 (whole ++ fraction)
    return nearest negative significand (exponent - fraction.length)

/-! ## Dates and times -/

/-- So many digits as a number, and what follows them. -/
def fixedDigits (count : Nat) (cs : List Char) : Option (Nat × List Char) :=
  if (cs.take count).length < count then none
  else (Text.digitsValue 10 (cs.take count)).map fun n => (n, cs.drop count)

/-- What follows the given character. -/
def after (c : Char) (cs : List Char) : Option (List Char) :=
  match cs with
  | x :: rest => if x = c then some rest else none
  | [] => none

/-- The days of a month. -/
def monthLength (year month : Nat) : Nat :=
  if month = 2 then
    if year % 4 = 0 ∧ (year % 100 ≠ 0 ∨ year % 400 = 0) then 29 else 28
  else if month = 4 ∨ month = 6 ∨ month = 9 ∨ month = 11 then 30
  else 31

/-- Passes over a date. -/
def date (cs : List Char) : Option (List Char) := do
  let (year, cs) ← fixedDigits 4 cs
  let (month, cs) ← fixedDigits 2 (← after '-' cs)
  let (day, cs) ← fixedDigits 2 (← after '-' cs)
  if 1 ≤ month ∧ month ≤ 12 ∧ 1 ≤ day ∧ day ≤ monthLength year month then some cs else none

/-- Passes over the fraction of a second, if there is one. -/
def secondFraction (cs : List Char) : Option (List Char) :=
  match cs with
  | '.' :: rest =>
    if (rest.takeWhile Char.isDigit).isEmpty then none else some (rest.dropWhile Char.isDigit)
  | _ => some cs

/-- Passes over a time; the seconds may be left out. -/
def time (cs : List Char) : Option (List Char) := do
  let (hour, cs) ← fixedDigits 2 cs
  let (minute, cs) ← fixedDigits 2 (← after ':' cs)
  if hour ≤ 23 ∧ minute ≤ 59 then
    match cs with
    | ':' :: cs => do
      let (second, cs) ← fixedDigits 2 cs
      if second ≤ 60 then secondFraction cs else none
    | _ => some cs
  else none

/-- Passes over the offset of a time from universal time, if there is one. -/
def offset (cs : List Char) : Option (List Char) :=
  let clock (cs : List Char) : Option (List Char) := do
    let (hour, cs) ← fixedDigits 2 cs
    let (minute, cs) ← fixedDigits 2 (← after ':' cs)
    if hour ≤ 23 ∧ minute ≤ 59 then some cs else none
  match cs with
  | 'Z' :: rest => some rest
  | 'z' :: rest => some rest
  | '+' :: rest => clock rest
  | '-' :: rest => clock rest
  | _ => some cs

/-- A date, a time, or a date with a time after a `T` or a space. -/
def moment (cs : List Char) : Option Value :=
  let whole := match date cs with
    | some [] => some []
    | some (c :: rest) => if c = 'T' ∨ c = 't' ∨ c = ' ' then (time rest).bind offset else none
    | none => time cs
  match whole with
  | some [] => some .moment
  | _ => none

/-! ## Values without brackets or quotes -/

/-- A character of a number, a date or a word. -/
def isAtomChar (c : Char) : Bool :=
  c.isAlphanum || c = '+' || c = '-' || c = '_' || c = '.' || c = ':'

/-- The value that an unquoted word stands for. -/
def atom (cs : List Char) : Option Value :=
  if cs = ['t', 'r', 'u', 'e'] then some (.flag true)
  else if cs = ['f', 'a', 'l', 's', 'e'] then some (.flag false)
  else (integer cs).or ((real cs).or (moment cs))

/-- Reads an unquoted value. A date may be followed by a space and a time. -/
def atomValue (cs : List Char) : Option (Value × List Char) :=
  let word := cs.takeWhile isAtomChar
  let rest := cs.dropWhile isAtomChar
  let dated := match rest with
    | ' ' :: more =>
      if (date word = some []) ∧ more.head?.any Char.isDigit then
        some (word ++ ' ' :: more.takeWhile isAtomChar, more.dropWhile isAtomChar)
      else none
    | _ => none
  match dated with
  | some (word, rest) => (moment word).map fun v => (v, rest)
  | none => (atom word).map fun v => (v, rest)

end ModelScribe.Toml
