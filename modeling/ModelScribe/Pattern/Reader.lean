-- Patterns, also known as regular expressions. All that matters of a pattern
-- here is that it makes sense: groups and sets are closed, something stands
-- before each sign of repetition, every part makes sense under the flags that
-- hold for it, and no part lies too deep. The groups that are open are kept
-- in a list. Repetitions are not counted in braces, since the texts that are
-- read here end before a closing brace.
import ModelScribe.Pattern.Set
import ModelScribe.Text.Alphanumeric

namespace ModelScribe.Pattern

/-! ## Groups -/

/-- A group that is open, or the pattern around all groups. -/
structure OpenGroup where
  flags : Flags := {}
  /-- What there is to choose from before the last vertical bar. -/
  choices : Nesting := {}
  /-- The parts since then, without the last one if that can be repeated. -/
  parts : Nesting := {}
  /-- How deep the last part is, if it can be repeated. -/
  last : Option Nat := none
  deriving DecidableEq, Repr

namespace OpenGroup

/-- All parts since the last vertical bar. -/
def allParts (g : OpenGroup) : Nesting :=
  match g.last with
  | none => g.parts
  | some depth => g.parts.add depth

/-- The group with one more part. -/
def add (g : OpenGroup) (depth : Nat) : OpenGroup :=
  { g with parts := g.allParts, last := some depth }

/-- The group with other flags from here on. What sets them is a part that cannot be
repeated. -/
def withFlags (g : OpenGroup) (f : Flags) : OpenGroup :=
  { g with flags := f, parts := g.allParts.add 0, last := none }

/-- The group with its last part repeated. -/
def repeatLast (g : OpenGroup) : Option OpenGroup :=
  g.last.map fun depth => { g with last := some (depth + 1) }

/-- The group after a vertical bar. -/
def next (g : OpenGroup) : OpenGroup :=
  { flags := g.flags, choices := g.choices.add g.allParts.depth }

/-- How deep the group is inside its parentheses. -/
def depth (g : OpenGroup) : Nat := g.next.choices.depth

end OpenGroup

/-- What an opening parenthesis begins. -/
inductive Opening where
  /-- A group with these flags, which may have a name. -/
  | group (f : Flags) (name : Option (List Char))
  /-- No group, but other flags. -/
  | flags (f : Flags)
  deriving DecidableEq, Repr

namespace Opening

/-- A name that a group can have. -/
def isName (cs : List Char) : Bool :=
  match cs with
  | [] => false
  | c :: rest =>
    (c = '_' || Text.isAlphabetic c) &&
      rest.all fun c => ['_', '.', '[', ']'].contains c || Text.isAlphanumeric c

/-- Reads the name of a group. -/
def named (f : Flags) (cs : List Char) : Option (Opening × List Char) :=
  let name := cs.takeWhile (· ≠ '>')
  match cs.dropWhile (· ≠ '>') with
  | [] => none
  | _ :: rest => if isName name then some (.group f (some name), rest) else none

/-- Reads the letters of flags, for a group after a colon or for what is left of the group
around. -/
def flagged (f : Flags) (cs : List Char) : Option (Opening × List Char) := do
  let isLetter (c : Char) : Bool := c ≠ ':' && c ≠ ')'
  let letters := cs.takeWhile isLetter
  let changed ← f.change letters
  match cs.dropWhile isLetter with
  | ':' :: rest => some (.group changed none, rest)
  | ')' :: rest => if letters.isEmpty then none else some (.flags changed, rest)
  | _ => none

/-- Reads the start of a group after its parenthesis. -/
def ofText (f : Flags) (cs : List Char) : Option (Opening × List Char) :=
  match f.skip cs with
  | '?' :: 'P' :: '<' :: rest => named f rest
  | '?' :: '<' :: rest => named f rest
  | '?' :: rest => flagged f rest
  | rest => some (.group f none, rest)

end Opening

/-! ## Patterns -/

/-- Reads a part that is no group, and how deep it is. -/
def simplePart (f : Flags) (c : Char) (rest : List Char) : Option (Nat × List Char) :=
  let sound (t : Token) (rest : List Char) : Option (Nat × List Char) :=
    if t.isSound f then some (0, rest) else none
  match c with
  | '[' => setAfterBracket f rest
  | '\\' => (Token.escape f rest).bind fun (t, rest) => sound t rest
  | '.' => sound .any rest
  | '^' | '$' => sound .place rest
  | _ => sound (.character c false) rest

/-- Reads parts up to the end of the pattern. Hands back how deep that is. -/
def patternRest (fuel : Nat) (names : List (List Char)) (g : OpenGroup) (around : List OpenGroup)
    (cs : List Char) : Option Nat :=
  match fuel with
  | 0 => none
  | fuel + 1 =>
    match g.flags.skip cs with
    | [] => if around.isEmpty then some g.depth else none
    | c :: rest =>
      if c = '(' then
        match Opening.ofText g.flags rest with
        | none => none
        | some (.flags f, rest) => patternRest fuel names (g.withFlags f) around rest
        | some (.group f name, rest) =>
          if name.any names.contains then none
          else patternRest fuel (name.toList ++ names) { flags := f } (g :: around) rest
      else if c = ')' then
        match around with
        | [] => none
        | outer :: around => patternRest fuel names (outer.add (g.depth + 1)) around rest
      else if c = '|' then patternRest fuel names g.next around rest
      else if c = '*' ∨ c = '+' ∨ c = '?' then do
        let rest := if rest.head? = some '?' then rest.drop 1 else rest
        patternRest fuel names (← g.repeatLast) around rest
      else if c = '\x7b' then none
      else do
        let (depth, rest) ← simplePart g.flags c rest
        patternRest fuel names (g.add depth) around rest

/-- How deep the parts of a pattern lie, if the pattern makes sense otherwise. -/
def depth (cs : List Char) : Option Nat := patternRest (cs.length + 1) [] {} [] cs

/-- How deep the parts of a pattern may lie. -/
def maxDepth : Nat := 250

/-- The text is a pattern that makes sense. -/
def isPattern (cs : List Char) : Bool := (depth cs).any (· ≤ maxDepth)

end ModelScribe.Pattern
