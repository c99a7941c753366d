-- How deep the parts of a pattern lie in one another. Parts in a row and parts
-- to choose from count as a level, but only if there are several of them.

namespace ModelScribe.Pattern

/-- Parts side by side: how many there are, and how deep the deepest is. -/
structure Nesting where
  count : Nat := 0
  deepest : Nat := 0
  deriving DecidableEq, Repr

namespace Nesting

/-- The parts and one more, which is so deep. -/
def add (n : Nesting) (depth : Nat) : Nesting := ⟨n.count + 1, max n.deepest depth⟩

/-- How deep the parts are together. -/
def depth (n : Nesting) : Nat := if n.count ≤ 1 then n.deepest else n.deepest + 1

end Nesting

end ModelScribe.Pattern
