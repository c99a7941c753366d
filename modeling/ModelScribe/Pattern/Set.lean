-- Sets of characters in square brackets. A set lists its members: characters,
-- ranges, kinds of characters and other sets. Between two lists of members a
-- sign takes what is in both, only in the first, or in one of them alone. The
-- brackets that are open are kept in a list.
import ModelScribe.Pattern.Nesting
import ModelScribe.Pattern.Token

namespace ModelScribe.Pattern

/-! ## Members -/

/-- The names of kinds of characters, as they stand between colons. -/
def kindNames : List String :=
  ["alnum", "alpha", "ascii", "blank", "cntrl", "digit", "graph", "lower", "print", "punct",
    "space", "upper", "word", "xdigit"]

/-- Reads the name of a kind up to its closing bracket. -/
def kindName (cs : List Char) : Option (List Char) :=
  let isName (c : Char) : Bool := c ≠ ':'
  match cs.dropWhile isName with
  | ':' :: ']' :: rest =>
    if kindNames.contains (String.ofList (cs.takeWhile isName)) then some rest else none
  | _ => none

/-- Reads a named kind after its opening bracket, and whether it is negated: `:^alpha:]`. -/
def namedKind (cs : List Char) : Option (Bool × List Char) :=
  match cs with
  | ':' :: '^' :: rest => (kindName rest).map fun rest => (true, rest)
  | ':' :: rest => (kindName rest).map fun rest => (false, rest)
  | _ => none

/-- A named kind makes sense. -/
def isSoundKind (f : Flags) (negated : Bool) : Bool := if f.unicode then !f.caseless else !negated

/-- Reads a character of a set. -/
def setToken (f : Flags) (cs : List Char) : Option (Token × List Char) :=
  match cs with
  | [] => none
  | '\\' :: rest => Token.escape f rest
  | c :: rest => some (.character c false, rest)

/-- Reads a character of a set or a range. A hyphen makes a range unless a bracket or another
hyphen follows it. -/
def setMember (f : Flags) (cs : List Char) : Option (List Char) := do
  let (first, rest) ← setToken f cs
  let alone := if first.isMember f then some rest else none
  match f.skip rest with
  | '-' :: after =>
    if f.peek after = some ']' ∨ f.peek after = some '-' then alone
    else do
      let (last, rest) ← setToken f (f.skip after)
      if first.isMember f && last.isMember f && first.areBounds last then some rest else none
  | _ => alone

/-! ## Sets -/

/-- A set that is open. -/
structure OpenSet where
  /-- The members since the last sign. -/
  members : Nesting := {}
  /-- How deep the part before the last sign is. -/
  before : Option Nat := none
  /-- Only hyphens have been read, which stand for themselves there. -/
  isFresh : Bool := true
  deriving DecidableEq, Repr

namespace OpenSet

/-- The set with one more member. -/
def add (s : OpenSet) (depth : Nat) : OpenSet :=
  { s with members := s.members.add depth, isFresh := false }

/-- How deep the set is inside its brackets. -/
def depth (s : OpenSet) : Nat :=
  match s.before with
  | none => s.members.depth
  | some d => max d s.members.depth + 1

/-- The set after a sign. -/
def next (s : OpenSet) : OpenSet := { before := some s.depth, isFresh := false }

end OpenSet

/-- Reads the start of a set after its bracket. A set of bytes cannot be negated, since what is
left would hold parts of characters. -/
def setStart (f : Flags) (cs : List Char) : Option (List Char) :=
  match f.skip cs with
  | '^' :: rest => if f.unicode then some rest else none
  | rest => some rest

/-- Reads members and signs up to the end of the outermost set. Hands back how deep that is. -/
def setRest (f : Flags) (fuel : Nat) (s : OpenSet) (around : List OpenSet) (cs : List Char) :
    Option (Nat × List Char) :=
  match fuel with
  | 0 => none
  | fuel + 1 =>
    match f.skip cs with
    | [] => none
    | c :: rest =>
      let itself : Token := .character c false
      if s.isFresh ∧ c = '-' then
        if itself.isMember f then setRest f fuel { s.add 0 with isFresh := true } around rest
        else none
      else if s.isFresh ∧ s.members.count = 0 ∧ c = ']' then
        if itself.isMember f then setRest f fuel (s.add 0) around rest else none
      else if c = ']' then
        match around with
        | [] => some (s.depth + 1, rest)
        | outer :: around => setRest f fuel (outer.add (s.depth + 1)) around rest
      else if c = '[' then
        match namedKind rest with
        | some (negated, rest) =>
          if isSoundKind f negated then setRest f fuel (s.add 0) around rest else none
        | none => do setRest f fuel {} (s :: around) (← setStart f rest)
      else if (c = '&' ∨ c = '-' ∨ c = '~') ∧ rest.head? = some c then
        setRest f fuel s.next around (rest.drop 1)
      else do setRest f fuel (s.add 0) around (← setMember f (c :: rest))

/-- Reads a set after its opening bracket. -/
def setAfterBracket (f : Flags) (cs : List Char) : Option (Nat × List Char) := do
  let rest ← setStart f cs
  setRest f (rest.length + 1) {} [] rest

end ModelScribe.Pattern
