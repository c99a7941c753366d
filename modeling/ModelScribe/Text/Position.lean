-- Positions in a text. A reader works on the characters that are still to
-- read, so it knows a place by the bytes before it. A report names the line
-- and the column instead: lines count from one and end after their line
-- break, columns count the bytes since the line began. A report that is shown
-- again on the text points one byte back, at the character read last.

namespace ModelScribe.Text

/-- A place in a text: the line, from one, and the bytes of it before the place. -/
structure Position where
  line : Nat
  column : Nat
  deriving DecidableEq, Repr

/-- A stretch of a text, by its first byte and its length. -/
structure Span where
  offset : Nat
  length : Nat
  deriving DecidableEq, Repr

/-- The bytes of a list of characters. -/
def byteLength : List Char → Nat
  | [] => 0
  | c :: cs => c.utf8Size + byteLength cs

/-- The characters from a byte on, if that is between two characters. -/
def dropBytes (bytes : Nat) (cs : List Char) : Option (List Char) :=
  match bytes, cs with
  | 0, cs => some cs
  | _ + 1, [] => none
  | bytes + 1, c :: cs =>
    if bytes + 1 < c.utf8Size then none else dropBytes (bytes + 1 - c.utf8Size) cs

/-- The characters before a byte, if that is between two characters. -/
def takeBytes (bytes : Nat) (cs : List Char) : Option (List Char) :=
  match bytes, cs with
  | 0, _ => some []
  | _ + 1, [] => none
  | bytes + 1, c :: cs =>
    if bytes + 1 < c.utf8Size then none
    else (takeBytes (bytes + 1 - c.utf8Size) cs).map (c :: ·)

/-- The position that is `bytes` after `p`, when the text goes on with the characters. -/
def Position.forward (p : Position) (bytes : Nat) : List Char → Position
  | [] => p
  | c :: cs =>
    if bytes < c.utf8Size then { p with column := p.column + bytes }
    else
      forward (if c = '\n' then ⟨p.line + 1, 0⟩ else { p with column := p.column + c.utf8Size })
        (bytes - c.utf8Size) cs

/-- The position of a byte in a text. -/
def positionAt (cs : List Char) (bytes : Nat) : Position := Position.forward ⟨1, 0⟩ bytes cs

/-- The byte at which a line starts, when the characters begin at byte `start`. A line that
would be empty at the end of the text does not exist, and neither does line 0. -/
def lineStart (start line : Nat) : List Char → Option Nat
  | [] => none
  | c :: cs =>
    if line = 1 then some start
    else lineStart (start + c.utf8Size) (if c = '\n' then line - 1 else line) cs

/-- The byte just before a position, or the start of its line, if the line exists and the
byte is not past the end of the text. -/
def offsetOf (cs : List Char) (p : Position) : Option Nat :=
  (lineStart 0 p.line cs).bind fun start =>
    let offset := start + (p.column - 1)
    if offset ≤ byteLength cs then some offset else none

end ModelScribe.Text
