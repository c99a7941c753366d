-- The smallest parts of a pattern: characters, escapes and the signs of
-- places. Which of them make sense hangs on the flags: where a pattern is about
-- characters, only the character itself is known, neither its other case nor
-- its class; where it is about bytes, it must not fit a part of a character.
import ModelScribe.Pattern.Flags
import ModelScribe.Text.Natural

namespace ModelScribe.Pattern

/-! ## Tokens -/

/-- What a character or an escape stands for. -/
inductive Token where
  /-- A character. `asByte` tells that it is written as the number of a byte. -/
  | character (c : Char) (asByte : Bool)
  /-- The digits, the spaces or the characters of words, or all others. -/
  | kind (negated : Bool)
  /-- Any character. -/
  | any
  /-- The start or the end of the text or of a line. -/
  | place
  /-- A place where a word begins or ends, or where none does. -/
  | wordPlace
  deriving DecidableEq, Repr

namespace Token

/-- The character is a single byte. -/
def isAscii (c : Char) : Bool := c.toNat < 128

/-- The token makes sense outside sets. -/
def isSound (f : Flags) : Token → Bool
  | .character c asByte => if f.unicode then !f.caseless else !asByte || isAscii c
  | .kind negated => !f.unicode && !negated
  | .any => f.unicode
  | .place => true
  | .wordPlace => !f.unicode

/-- The token makes sense as a member of a set. -/
def isMember (f : Flags) : Token → Bool
  | .character c _ => if f.unicode then !f.caseless else isAscii c
  | .kind negated => !f.unicode && !negated
  | _ => false

/-- The two tokens bound a range of characters. -/
def areBounds : Token → Token → Bool
  | .character first _, .character last _ => first ≤ last
  | _, _ => false

/-! ## Escapes -/

/-- How many digits give the number of a character after a letter. -/
def numberWidth (letter : Char) : Option Nat :=
  if letter = 'x' then some 2
  else if letter = 'u' then some 4
  else if letter = 'U' then some 8
  else none

/-- Reads so many hexadecimal digits, with free text between them. -/
def digits (f : Flags) (width : Nat) (cs : List Char) : Option (List Char × List Char) :=
  match width, f.skip cs with
  | 0, _ => some ([], cs)
  | _ + 1, [] => none
  | width + 1, d :: rest => (digits f width rest).map fun (ds, rest) => (d :: ds, rest)

/-- The token of an escape that is one character long. -/
def ofEscape (c : Char) : Option Token :=
  match c with
  | 'a' => some (.character '\x07' false)
  | 't' => some (.character '\t' false)
  | 'n' => some (.character '\n' false)
  | 'v' => some (.character '\x0b' false)
  | 'f' => some (.character '\x0c' false)
  | 'r' => some (.character '\r' false)
  | 'd' | 's' | 'w' => some (.kind false)
  | 'D' | 'S' | 'W' => some (.kind true)
  | 'A' | 'z' => some .place
  | 'b' | 'B' | '<' | '>' => some .wordPlace
  | _ => if isAscii c && !c.isAlphanum then some (.character c false) else none

/-- Reads an escape after its backslash. -/
def escape (f : Flags) (cs : List Char) : Option (Token × List Char) :=
  match cs with
  | [] => none
  | c :: rest =>
    match numberWidth c with
    | some width => do
      let (ds, rest) ← digits f width rest
      let named ← (Text.digitsValue 16 ds).bind Text.numberedChar
      some (.character named (width = 2), rest)
    | none => (ofEscape c).map fun t => (t, rest)

end Token

end ModelScribe.Pattern
