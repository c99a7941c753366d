-- What can be wrong with a JSON document, and where.
import ModelScribe.Text.Position
import ModelScribe.Decimal.Text
import ModelScribe.Text.Quoted

namespace ModelScribe.Json

open Text

/-! ## Causes -/

/-- Something else than what was expected, as a message describes it. -/
inductive Unexpected where
  | null
  | flag (b : Bool)
  | integer (n : Int)
  | real (x : Float)
  | text (s : String)
  | list
  | object
  deriving Repr

/-- Why a document is refused. -/
inductive Cause where
  | endInList
  | endInObject
  | endInString
  | endInValue
  | expectedColon
  | expectedListEnd
  | expectedObjectEnd
  | expectedWord
  | expectedValue
  | invalidEscape
  | invalidNumber
  | numberOutOfRange
  | controlCharacter
  | keyNotText
  | loneSurrogate
  | unfinishedPair
  | trailingComma
  | trailingCharacters
  | tooDeep
  | wrongType (found : Unexpected) (expected : String)
  | outOfRange (found : Unexpected) (expected : String)
  | duplicateField (key : String)
  | noVariant
  deriving Repr

namespace Unexpected

def describe : Unexpected → String
  | .null => "null"
  | .flag b => "boolean `" ++ (if b then "true" else "false") ++ "`"
  | .integer n => "integer `" ++ Int.repr n ++ "`"
  | .real x => "floating point `" ++ Decimal.messageText x ++ "`"
  | .text s => "string " ++ quoted s
  | .list => "sequence"
  | .object => "map"

end Unexpected

namespace Cause

def message : Cause → String
  | .endInList => "EOF while parsing a list"
  | .endInObject => "EOF while parsing an object"
  | .endInString => "EOF while parsing a string"
  | .endInValue => "EOF while parsing a value"
  | .expectedColon => "expected `:`"
  | .expectedListEnd => "expected `,` or `]`"
  | .expectedObjectEnd => "expected `,` or `\x7d`"
  | .expectedWord => "expected ident"
  | .expectedValue => "expected value"
  | .invalidEscape => "invalid escape"
  | .invalidNumber => "invalid number"
  | .numberOutOfRange => "number out of range"
  | .controlCharacter => "control character (\\u0000-\\u001F) found while parsing a string"
  | .keyNotText => "key must be a string"
  | .loneSurrogate => "lone leading surrogate in hex escape"
  | .unfinishedPair => "unexpected end of hex escape"
  | .trailingComma => "trailing comma"
  | .trailingCharacters => "trailing characters"
  | .tooDeep => "recursion limit exceeded"
  | .wrongType found expected => "invalid type: " ++ found.describe ++ ", expected " ++ expected
  | .outOfRange found expected => "invalid value: " ++ found.describe ++ ", expected " ++ expected
  | .duplicateField key => "duplicate field `" ++ key ++ "`"
  | .noVariant => "data did not match any variant of untagged enum Text"

end Cause

/-! ## Faults -/

/-- A cause and the place at which it is reported. -/
structure Fault where
  cause : Cause
  position : Position
  deriving Repr

def Fault.message (f : Fault) : String :=
  f.cause.message ++ " at line " ++ Nat.repr f.position.line
    ++ " column " ++ Nat.repr f.position.column

/-- How a step of reading fails, with the characters that were still to read. -/
inductive Failure where
  /-- The place is settled: so many bytes into the rest. -/
  | placed (cause : Cause) (rest : List Char) (bytes : Nat)
  /-- The place is still open: the container around it settles it when it is left. -/
  | loose (cause : Cause) (rest : List Char)
  deriving Repr

/-- A step of reading: what was read and the characters still to read, or why it failed. -/
abbrev Step (α : Type) := Except Failure (α × List Char)

/-- Goes on after a step. -/
def Step.andThen {α β : Type} (step : Step α) (next : α → List Char → Except Failure β) :
    Except Failure β :=
  match step with
  | .error f => .error f
  | .ok (a, rest) => next a rest

/-- Fails where the rest begins. -/
def failHere {α : Type} (cause : Cause) (rest : List Char) : Except Failure α :=
  .error (.placed cause rest 0)

/-- Fails one byte into the rest, if there is one: the next character was looked at. -/
def failAhead {α : Type} (cause : Cause) (rest : List Char) : Except Failure α :=
  .error (.placed cause rest 1)

namespace Failure

/-- The fault as it is reported for the document. -/
def fault (document : List Char) : Failure → Fault
  | .placed cause rest bytes =>
    let read := byteLength document - byteLength rest
    ⟨cause, positionAt document (min (byteLength document) (read + bytes))⟩
  | .loose cause rest => ⟨cause, positionAt document (byteLength document - byteLength rest)⟩

end Failure

end ModelScribe.Json
