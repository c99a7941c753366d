-- Imports. Every entity lists the symbols that it needs and the modules they
-- come from. The preamble of a program has one statement for each module, in
-- the order in which the modules are first named; a symbol that is asked for
-- twice is listed twice.
import ModelScribe.Layout

namespace ModelScribe

/-- One symbol and the module that it comes from. -/
structure Import where
  name : String := ""
  path : String := ""
  deriving DecidableEq, Repr

/-- Symbols grouped by module path. -/
abbrev ImportGroups := List (String × List String)

namespace ImportGroups

/-- Adds a symbol to the group of its path; a new path starts a group at the end. -/
def add (path symbol : String) : ImportGroups → ImportGroups
  | [] => [(path, [symbol])]
  | (p, symbols) :: rest =>
    if p = path then (p, symbols ++ [symbol]) :: rest else (p, symbols) :: add path symbol rest

/-- The groups after a list of imports. -/
def addAll (groups : ImportGroups) (imports : List Import) : ImportGroups :=
  imports.foldl (fun groups i => groups.add i.path i.name) groups

/-- The groups of a list of imports. -/
def ofImports (imports : List Import) : ImportGroups := addAll [] imports

/-- The import statement for one path. -/
def statement (group : String × List String) : Doc :=
  .cat [
    ["import", .space, "\x7b", .space],
    [Mark.text ",", Mark.space].intercalate (group.2.map fun s => [Mark.text s]),
    [.space, "\x7d", .space, "from", .space, "'", group.1, "';"]]

/-- The preamble: one statement to a line. -/
def doc (groups : ImportGroups) : Doc := .join (groups.map statement)

end ImportGroups

end ModelScribe
