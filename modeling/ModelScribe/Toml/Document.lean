-- TOML documents. A document is a table, stated line by line: a line gives a
-- key its value, or a header opens a table for the lines after it. The
-- document is read as a whole before anything in it is looked at, so a
-- malformed line anywhere spoils it all. A key that cannot stand where it
-- does is a fault at its place; no other fault of this kind has a place.
import ModelScribe.Toml.Lexeme

namespace ModelScribe.Toml

/-! ## Values -/

/-- A value and the stretch of the document that it takes. -/
abbrev Located := Extent × Value

/-- A value that begins at `cs` and ends at `rest`. -/
def locate (cs rest : List Char) (v : Value) : Located := (⟨cs, rest⟩, v)

/-- A reader of values, which hands back what follows the value. -/
abbrev ValueReader := List Char → Except Fault (Located × List Char)

/-- Reads the items of a list up to its closing bracket; a comma may follow the last. -/
def items (item : ValueReader) (fuel : Nat) (cs : List Char) :
    Except Fault (List Located × List Char) :=
  match fuel with
  | 0 => .error none
  | fuel + 1 =>
    match skipLines false cs with
    | none => .error none
    | some (']' :: rest) => .ok ([], rest)
    | some cs => do
      let (v, rest) ← item cs
      match skipLines false rest with
      | some (',' :: rest) => do
        let (vs, rest) ← items item fuel rest
        return (v :: vs, rest)
      | some (']' :: rest) => return ([v], rest)
      | _ => .error none

/-- How many parts a dotted key may have. -/
def maxParts : Nat := 80

/-- Reads a key, an equals sign and a value, and adds them to a table. `gap` passes over
what may stand around the equals sign. -/
def keyed (item : ValueReader) (gap : List Char → Option (List Char)) (es : Entries)
    (cs : List Char) : Except Fault (Entries × List Char) := do
  let ((path, last), rest) ← key maxParts cs
  let rest ← orFault ((gap rest).bind (after '='))
  let ((extent, v), rest) ← item (← orFault (gap rest))
  return (← es.insert path last extent v, rest)

/-- Reads the entries of an inline table up to its closing brace. They may be spread over
lines, and a comma may follow the last. -/
def inlineEntries (item : ValueReader) (fuel : Nat) (es : Entries) (cs : List Char) :
    Except Fault (Entries × List Char) :=
  match fuel with
  | 0 => .error none
  | fuel + 1 =>
    match skipLines false cs with
    | none => .error none
    | some ('\x7d' :: rest) => .ok (es, rest)
    | some cs => do
      let (es, rest) ← keyed item (skipLines false) es cs
      match skipLines false rest with
      | some (',' :: rest) => inlineEntries item fuel es rest
      | some ('\x7d' :: rest) => return (es, rest)
      | _ => .error none

/-- Reads a value, whose brackets may stand so many levels deep. -/
def value (fuel levels : Nat) (cs : List Char) : Except Fault (Located × List Char) :=
  let text (found : Option (String × List Char)) : Except Fault (Located × List Char) :=
    (orFault found).map fun (s, rest) => (locate cs rest (.text s), rest)
  match cs with
  | '"' :: '"' :: '"' :: rest => text (blockStringBody '"' true rest)
  | '"' :: rest => text (lineString '"' true [] 0 rest)
  | '\'' :: '\'' :: '\'' :: rest => text (blockStringBody '\'' false rest)
  | '\'' :: rest => text (lineString '\'' false [] 0 rest)
  | '[' :: rest =>
    match levels with
    | 0 => .error none
    | levels + 1 =>
      (items (value fuel levels) fuel rest).map fun (vs, rest) =>
        (locate cs rest (.list false vs), rest)
  | '\x7b' :: rest =>
    match levels with
    | 0 => .error none
    | levels + 1 =>
      (inlineEntries (value fuel levels) fuel [] rest).map fun (es, rest) =>
        (locate cs rest (.table .inline es), rest)
  | _ => (orFault (atomValue cs)).map fun (v, rest) => (locate cs rest v, rest)

/-- How deep brackets may stand. -/
def maxLevels : Nat := 80

/-! ## Headers -/

/-- The header of a table, or of an item in a list of tables. -/
structure Header where
  path : List Key
  last : Key
  isItem : Bool
  extent : Extent
  deriving Repr

/-- Reads a header after its opening brackets, and the end of its line. -/
def header (isItem : Bool) (cs rest : List Char) : Except Fault (Header × List Char) := do
  let ((path, last), rest) ← key maxParts rest
  let rest ← orFault (after ']' rest)
  let rest ← if isItem then orFault (after ']' rest) else .ok rest
  return ({ path, last, isItem, extent := ⟨cs, rest⟩ }, ← orFault (lineEnd rest))

/-- A document of which a part has been read: the tables that are complete, and the table
that is open, with its header if it has one. -/
structure Draft where
  root : Entries := []
  header : Option Header := none
  current : Entries := []

namespace Draft

/-- What a path leads to, through tables and the last items of lists of tables. -/
def lookup : List Key → Key → Entries → Option Value
  | [], k, es => (es.get? k.name).map (·.2)
  | p :: path, k, es =>
    match es.get? p.name with
    | some (_, .table _ inner) => lookup path k inner
    | some (_, .list true vs) =>
      match vs.getLast? with
      | some (_, .table _ inner) => lookup path k inner
      | _ => none
    | _ => none

/-- The tables of the document once the open table is complete. -/
def close (d : Draft) : Except Fault Entries :=
  match d.header with
  | none => .ok d.current
  | some h =>
    let table : Located := (h.extent, .table .header d.current)
    d.root.descend false
      (fun _ es =>
        if h.isItem then
          match es.get? h.last.name with
          | none => .ok (es.put h.last.name (h.extent, .list true [table]))
          | some (extent, .list true vs) =>
            .ok (es.put h.last.name (extent, .list true (vs ++ [table])))
          | some _ => .error (some h.last.extent)
        else .ok (es.put h.last.name table))
      h.path .header

/-- Opens the table of a header. A table may be opened once; if headers of tables inside it
came before, it begins with them. -/
def openTable (h : Header) (root : Entries) : Except Fault Draft :=
  if h.isItem then .ok { root, header := some h }
  else match lookup h.path h.last root with
    | none => .ok { root, header := some h }
    | some (.table .implied inner) => .ok { root, header := some h, current := inner }
    | some _ => .error (some h.last.extent)

end Draft

/-! ## Documents -/

/-- Reads the lines of a document. -/
def lines (limit fuel : Nat) (d : Draft) (cs : List Char) : Except Fault Draft :=
  match fuel with
  | 0 => .error none
  | fuel + 1 =>
    match skipLines false cs with
    | none => .error none
    | some [] => .ok d
    | some ('[' :: '[' :: rest) => do
      let (h, rest) ← header true ('[' :: '[' :: rest) rest
      lines limit fuel (← Draft.openTable h (← d.close)) rest
    | some ('[' :: rest) => do
      let (h, rest) ← header false ('[' :: rest) rest
      lines limit fuel (← Draft.openTable h (← d.close)) rest
    | some cs => do
      let (current, rest) ← keyed (value limit maxLevels) (some ∘ skipSpace) d.current cs
      lines limit fuel { d with current } (← orFault (lineEnd rest))

/-- The table that a document states, if it is well formed. A byte order mark at its start
does not count. -/
def parse (document : List Char) : Except Fault Entries :=
  let cs := match document with
    | '\ufeff' :: rest => rest
    | _ => document
  let limit := cs.length + 1
  (lines limit limit {} cs).bind Draft.close

end ModelScribe.Toml
