-- The flags of a pattern. They say how the text after them is read, and a
-- pattern can change them on its way: `(?i-x)`. Only three of them decide
-- whether a pattern makes sense. Where white space is free, so are comments.
import ModelScribe.Text.Blank

namespace ModelScribe.Pattern

/-! ## Flags -/

/-- How a pattern is read. -/
structure Flags where
  /-- Letters stand for their other case too. -/
  caseless : Bool := false
  /-- The pattern is about characters, not about bytes. -/
  unicode : Bool := true
  /-- White space and comments say nothing. -/
  spaced : Bool := false
  deriving DecidableEq, Repr

namespace Flags

/-- The letters of the flags that change what a pattern fits, but not whether it makes
sense: line by line, dots for line breaks, least repetitions, line breaks of two characters. -/
def otherLetters : List Char := ['m', 's', 'U', 'R']

/-- Switches the flag with a letter on or off. -/
def switch (on : Bool) (f : Flags) (letter : Char) : Option Flags :=
  if letter = 'i' then some { f with caseless := on }
  else if letter = 'u' then some { f with unicode := on }
  else if letter = 'x' then some { f with spaced := on }
  else if otherLetters.contains letter then some f
  else none

/-- Switches the flags on whose letters come before a hyphen, and those off whose letters come
after it. Nothing may come twice, and the hyphen not last. -/
def change (f : Flags) (letters : List Char) : Option Flags :=
  if letters.Nodup ∧ letters.getLast? ≠ some '-' then do
    let f ← (letters.takeWhile (· ≠ '-')).foldlM (switch true) f
    ((letters.dropWhile (· ≠ '-')).drop 1).foldlM (switch false) f
  else none

/-! ## Free text -/

/-- Passes over white space and comments, which begin with a number sign and end with their
line. -/
def skipFree (inComment : Bool) (cs : List Char) : List Char :=
  match cs with
  | [] => []
  | c :: rest =>
    if inComment then skipFree (c ≠ '\n') rest
    else if Text.isSpace c then skipFree false rest
    else if c = '#' then skipFree true rest
    else c :: rest

/-- Passes over what says nothing. -/
def skip (f : Flags) (cs : List Char) : List Char := if f.spaced then skipFree false cs else cs

/-- The next character that says something, as a hyphen in a set looks for it: beyond white
space and one number sign, but not beyond a comment. -/
def peek (f : Flags) (cs : List Char) : Option Char :=
  if f.spaced then
    match cs.dropWhile Text.isSpace with
    | '#' :: rest => (rest.dropWhile Text.isSpace).head?
    | rest => rest.head?
  else cs.head?

end Flags

end ModelScribe.Pattern
