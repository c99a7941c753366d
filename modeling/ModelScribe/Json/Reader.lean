-- The JSON reader. It reads a document of a given kind from left to right and
-- stops at the first fault. A record may be written as an object, with its
-- fields by name and in any order, or as a list of its fields in declaration
-- order. Fields that are not there are left unstated, and members with other
-- names are passed over; a field must not be stated twice.
--
-- Containers that are read may stand 127 deep. When something inside a
-- container is wrong and no place is settled for it, the reader still tries
-- to leave the container, and the fault is reported where that leads.
import ModelScribe.Json.Skip
import ModelScribe.Schema.Kind

namespace ModelScribe.Json

/-! ## Mismatches -/

/-- Fails at something else than what was expected. A word, a number or a string is read
first, a bracket is not. -/
def mismatch {α : Type} (expected : String) (cs : List Char) : Except Failure α :=
  let wrong (found : Unexpected) (rest : List Char) : Except Failure α :=
    failHere (.wrongType found expected) rest
  let wrongNumber (n : Number) (rest : List Char) : Except Failure α :=
    match n with
    | .integer n => wrong (.integer n) rest
    | .real x => wrong (.real x) rest
  match cs with
  | 'n' :: rest => (word ['u', 'l', 'l'] rest).bind (wrong .null)
  | 't' :: rest => (word ['r', 'u', 'e'] rest).bind (wrong (.flag true))
  | 'f' :: rest => (word ['a', 'l', 's', 'e'] rest).bind (wrong (.flag false))
  | '"' :: rest => (string rest).andThen fun s rest => wrong (.text s) rest
  | '-' :: rest => (number true rest).andThen wrongNumber
  | '[' :: _ => wrong .list cs
  | '\x7b' :: _ => wrong .object cs
  | c :: _ =>
    if isDigit c then (number false cs).andThen wrongNumber else failAhead .expectedValue cs
  | [] => failAhead .endInValue []

/-! ## Texts, flags and small numbers -/

/-- Reads a string. -/
def textValue (cs : List Char) : Step String :=
  match skipSpace cs with
  | '"' :: rest => string rest
  | rest => mismatch Kind.text.expectation rest

/-- Reads `true` or `false`. -/
def flagValue (cs : List Char) : Step Bool :=
  match skipSpace cs with
  | 't' :: rest => (word ['r', 'u', 'e'] rest).map fun rest => (true, rest)
  | 'f' :: rest => (word ['a', 'l', 's', 'e'] rest).map fun rest => (false, rest)
  | rest => mismatch Kind.flag.expectation rest

/-- A number as a byte. -/
def byteOf (n : Number) (rest : List Char) : Step UInt8 :=
  match n with
  | .integer n =>
    if 0 ≤ n ∧ n < 256 then .ok (UInt8.ofNat n.toNat, rest)
    else failHere (.outOfRange (.integer n) Kind.byte.expectation) rest
  | .real x => failHere (.wrongType (.real x) Kind.byte.expectation) rest

/-- Reads an integer from 0 to 255. -/
def byteValue (cs : List Char) : Step UInt8 :=
  match skipSpace cs with
  | '-' :: rest => (number true rest).andThen byteOf
  | c :: rest =>
    if isDigit c then (number false (c :: rest)).andThen byteOf
    else mismatch Kind.byte.expectation (c :: rest)
  | [] => mismatch Kind.byte.expectation []

/-! ## Lists -/

/-- Whether a list goes on, and where its next item is. `first` tells that no item has been
read. -/
def nextItem (first : Bool) (cs : List Char) : Step Bool :=
  match skipSpace cs with
  | [] => failAhead .endInList []
  | ']' :: rest => .ok (false, ']' :: rest)
  | c :: rest =>
    if first then .ok (true, c :: rest)
    else if c = ',' then
      match skipSpace rest with
      | [] => failAhead .endInValue []
      | ']' :: rest => failAhead .trailingComma (']' :: rest)
      | rest => .ok (true, rest)
    else failAhead .expectedListEnd (c :: rest)

/-- Reads items up to the end of a list. -/
def items {α : Type} (item : List Char → Step α) (fuel : Nat) (first : Bool) (cs : List Char) :
    Step (List α) :=
  match fuel with
  | 0 => failHere .endInList cs
  | fuel + 1 =>
    (nextItem first cs).andThen fun more rest =>
      if more then
        (item rest).andThen fun a rest =>
          (items item fuel false rest).andThen fun as rest => .ok (a :: as, rest)
      else .ok ([], rest)

/-- Leaves a list: what stands after it, and the failure if it does not end here. -/
def closeList (cs : List Char) : List Char × Option Failure :=
  match skipSpace cs with
  | [] => ([], some (.placed .endInList [] 1))
  | ']' :: rest => (rest, none)
  | ',' :: rest =>
    match skipSpace rest with
    | ']' :: rest => (']' :: rest, some (.placed .trailingComma (']' :: rest) 1))
    | rest => (rest, some (.placed .trailingCharacters rest 1))
  | rest => (rest, some (.placed .trailingCharacters rest 1))

/-! ## Objects -/

/-- Whether an object goes on, and where its next key is. `first` tells that no member has
been read. -/
def nextKey (first : Bool) (cs : List Char) : Step Bool :=
  let key (cs : List Char) : Step Bool :=
    match cs with
    | [] => failAhead .endInValue []
    | '"' :: rest => .ok (true, '"' :: rest)
    | '\x7d' :: rest => failAhead .trailingComma ('\x7d' :: rest)
    | rest => failAhead .keyNotText rest
  match skipSpace cs with
  | [] => failAhead .endInObject []
  | '\x7d' :: rest => .ok (false, '\x7d' :: rest)
  | c :: rest =>
    if first then key (c :: rest)
    else if c = ',' then key (skipSpace rest)
    else failAhead .expectedObjectEnd (c :: rest)

/-- Reads members up to the end of an object. `member` reads one of them after its key. -/
def members {σ : Type} (member : String → σ → List Char → Step σ) (fuel : Nat) (first : Bool)
    (state : σ) (cs : List Char) : Step σ :=
  match fuel with
  | 0 => failHere .endInObject cs
  | fuel + 1 =>
    (nextKey first cs).andThen fun more rest =>
      if more then
        (string (rest.drop 1)).andThen fun key rest =>
          (member key state rest).andThen fun state rest =>
            members member fuel false state rest
      else .ok (state, rest)

/-- Leaves an object: what stands after it, and the failure if it does not end here. -/
def closeObject (cs : List Char) : List Char × Option Failure :=
  match skipSpace cs with
  | [] => ([], some (.placed .endInObject [] 1))
  | '\x7d' :: rest => (rest, none)
  | ',' :: rest => (',' :: rest, some (.placed .trailingComma (',' :: rest) 1))
  | rest => (rest, some (.placed .trailingCharacters rest 1))

/-! ## Containers -/

/-- Reads what a container holds and leaves the container. A failure whose place is open is
placed where that leads. -/
def enclosed {α : Type} (close : List Char → List Char × Option Failure) (body : Step α) :
    Step α :=
  match body with
  | .ok (a, rest) =>
    match close rest with
    | (rest, none) => .ok (a, rest)
    | (_, some f) => .error f
  | .error (.loose cause rest) => .error (.placed cause (close rest).1 0)
  | .error f => .error f

/-- Enters a container, if there is a level left for it. -/
def entering {α : Type} (levels : Nat) (cs : List Char) (body : Nat → Step α) : Step α :=
  match levels with
  | 0 => failAhead .tooDeep cs
  | levels + 1 => body levels

/-! ## Values of any shape -/

/-- A number as source text. -/
def Number.text : Number → String
  | .integer n => Int.repr n
  | .real x => Decimal.sourceText x

/-- Reads a value of any shape: the text of a string, a number or a flag, and nothing for
the others. -/
def anyValue (fuel levels : Nat) (cs : List Char) : Step (Option String) :=
  let textOf (n : Number) (rest : List Char) : Step (Option String) := .ok (some n.text, rest)
  match skipSpace cs with
  | 'n' :: rest => (word ['u', 'l', 'l'] rest).map fun rest => (none, rest)
  | 't' :: rest => (word ['r', 'u', 'e'] rest).map fun rest => (some "true", rest)
  | 'f' :: rest => (word ['a', 'l', 's', 'e'] rest).map fun rest => (some "false", rest)
  | '"' :: rest => (string rest).andThen fun s rest => .ok (some s, rest)
  | '-' :: rest => (number true rest).andThen textOf
  | '[' :: rest =>
    match levels with
    | 0 => failAhead .tooDeep ('[' :: rest)
    | levels + 1 =>
      enclosed closeList <|
        (items (anyValue fuel levels) fuel true rest).andThen fun _ rest => .ok (none, rest)
  | '\x7b' :: rest =>
    match levels with
    | 0 => failAhead .tooDeep ('\x7b' :: rest)
    | levels + 1 =>
      enclosed closeObject <|
        (members (fun _ _ cs => (colon cs).bind fun cs =>
            (anyValue fuel levels cs).andThen fun _ rest => .ok ((), rest))
          fuel true () rest).andThen fun _ rest => .ok (none, rest)
  | c :: rest =>
    if isDigit c then (number false (c :: rest)).andThen textOf
    else failAhead .expectedValue (c :: rest)
  | [] => failAhead .endInValue []

/-- Reads a string, a number or a flag, as text. -/
def scalarValue (fuel levels : Nat) (cs : List Char) : Step String :=
  (anyValue fuel levels cs).andThen fun text rest =>
    match text with
    | some s => .ok (s, rest)
    | none => .error (.loose .noVariant rest)

/-! ## Kinds -/

/-- Passes over the value of a key that is not a field. -/
def skipMember {σ : Type} (state : σ) (cs : List Char) : Step σ :=
  ((colon cs).bind skipValue).map fun rest => (state, rest)

mutual

/-- Reads a value of the kind. -/
def readKind (fuel levels : Nat) (k : Kind) (cs : List Char) : Step k.Value :=
  match k with
  | .text => textValue cs
  | .flag => flagValue cs
  | .byte => byteValue cs
  | .scalar => scalarValue fuel levels cs
  | .optional k =>
    match skipSpace cs with
    | 'n' :: rest => (word ['u', 'l', 'l'] rest).map fun rest => (none, rest)
    | rest => (readKind fuel levels k rest).andThen fun a rest => .ok (some a, rest)
  | .list k =>
    match skipSpace cs with
    | '[' :: rest =>
      entering levels ('[' :: rest) fun levels =>
        enclosed closeList (items (fun cs => readKind fuel levels k cs) fuel true rest)
    | rest => mismatch (Kind.list k).expectation rest
  | .record name fs =>
    match skipSpace cs with
    | '[' :: rest =>
      entering levels ('[' :: rest) fun levels =>
        enclosed closeList (readPlaces fuel levels fs true rest)
    | '\x7b' :: rest =>
      entering levels ('\x7b' :: rest) fun levels =>
        enclosed closeObject <|
          members (fun key state cs =>
              match readField fuel levels fs key state cs with
              | some step => step
              | none => skipMember state cs)
            fuel true fs.unstated rest
    | rest => mismatch (Kind.record name fs).expectation rest

/-- Reads fields by position, as far as the list goes. -/
def readPlaces (fuel levels : Nat) (fs : Fields) (first : Bool) (cs : List Char) :
    Step fs.Values :=
  match fs with
  | .nil => .ok ((), cs)
  | .cons _ k fs =>
    (nextItem first cs).andThen fun more rest =>
      if more then
        (readKind fuel levels k rest).andThen fun a rest =>
          (readPlaces fuel levels fs false rest).andThen fun as rest => .ok ((some a, as), rest)
      else .ok ((none, fs.unstated), rest)

/-- Reads the field with the given key, if there is one, after its key. -/
def readField (fuel levels : Nat) (fs : Fields) (key : String) (state : fs.Values)
    (cs : List Char) : Option (Step fs.Values) :=
  match fs with
  | .nil => none
  | .cons name k fs =>
    if key = name then
      some <|
        if state.1.isSome then .error (.loose (.duplicateField key) cs)
        else (colon cs).bind fun cs =>
          (readKind fuel levels k cs).andThen fun a rest => .ok ((some a, state.2), rest)
    else
      (readField fuel levels fs key state.2 cs).map fun step =>
        step.andThen fun as rest => .ok ((state.1, as), rest)

end

/-- How deep the containers of a document may stand. -/
def maxLevels : Nat := 127

/-- Reads a whole document. -/
def readAll (k : Kind) (cs : List Char) : Except Failure k.Value :=
  (readKind (cs.length + 1) maxLevels k cs).andThen fun a rest =>
    match skipSpace rest with
    | [] => .ok a
    | rest => failAhead .trailingCharacters rest

/-- The value of a document, or the fault in it. -/
def read (k : Kind) (document : String) : Except Fault k.Value :=
  (readAll k document.toList).mapError (·.fault document.toList)

end ModelScribe.Json
