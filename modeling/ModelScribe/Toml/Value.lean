-- The values of a TOML document. A table remembers how it came to be, since
-- that decides what may still be added to it: a table with a header of its
-- own, a table that only the header of another table implies, a table that
-- dotted keys build up, and an inline table, which is complete.

namespace ModelScribe.Toml

/-! ## Values -/

/-- A stretch of the document, as a reader meets it: what is still to read at its start and
what is still to read at its end. -/
structure Extent where
  start : List Char
  stop : List Char
  deriving DecidableEq, Repr

/-- Where a fault of the document stands, if that is settled. -/
abbrev Fault := Option Extent

/-- How a table came to be. -/
inductive Origin where
  /-- By a header, or as the document itself. -/
  | header
  /-- By the header of a table inside it. -/
  | implied
  /-- By dotted keys. -/
  | dotted
  | inline
  deriving DecidableEq, Repr

inductive Value where
  | text (s : String)
  | flag (b : Bool)
  | integer (n : Int)
  | real (x : Float)
  /-- A number that is too large for a double. -/
  | overflow
  /-- A date, a time, or both. -/
  | moment
  /-- A list, or, with headers of their own for the items, a list of tables. -/
  | list (ofTables : Bool) (items : List (Extent × Value))
  | table (origin : Origin) (entries : List (String × Extent × Value))

/-- The entries of a table, in the order of their keys. -/
abbrev Entries := List (String × Extent × Value)

/-- A key, or one part of a dotted key. -/
structure Key where
  name : String
  extent : Extent
  deriving DecidableEq, Repr

/-! ## Building tables -/

namespace Entries

/-- The value under a key. -/
def get? (es : Entries) (name : String) : Option (Extent × Value) := List.lookup name es

/-- Puts a value under a key, in place of the value that is there. -/
def put (name : String) (v : Extent × Value) : Entries → Entries
  | [] => [(name, v)]
  | e :: es =>
    if name < e.1 then (name, v) :: e :: es
    else if name = e.1 then (name, v) :: es
    else e :: put name v es

/-- Changes the table at the end of a path. Tables on the way that are not there yet are
added; a list of tables stands for its last item. Dotted keys must not lead into a table
that has a header, and nothing leads into an inline table or another value; a fault stands
at the part of the path that leads there. -/
def descend (dotted : Bool) (change : Origin → Entries → Except Fault Entries) :
    List Key → Origin → Entries → Except Fault Entries
  | [], origin, es => change origin es
  | k :: path, _, es =>
    match es.get? k.name with
    | none =>
      let origin := if dotted then .dotted else .implied
      (descend dotted change path origin []).map fun inner =>
        es.put k.name (k.extent, .table origin inner)
    | some (extent, .table origin inner) =>
      if origin = .inline ∨ (dotted ∧ origin = .header) then .error (some k.extent)
      else (descend dotted change path origin inner).map fun inner =>
        es.put k.name (extent, .table origin inner)
    | some (extent, .list true items) =>
      match items.getLast? with
      | some (itemExtent, .table origin inner) =>
        (descend dotted change path origin inner).map fun inner =>
          es.put k.name
            (extent, .list true (items.dropLast ++ [(itemExtent, .table origin inner)]))
      | _ => .error (some k.extent)
    | some _ => .error (some k.extent)

/-- Adds a value under a key, whose last part is given apart. The key must be new, and a
dotted key must lead to a table of dotted keys. -/
def insert (path : List Key) (key : Key) (extent : Extent) (v : Value) (es : Entries) :
    Except Fault Entries :=
  let dotted := !path.isEmpty
  descend dotted
    (fun origin es =>
      if decide (origin = .dotted) != dotted ∨ (es.get? key.name).isSome then
        .error (some key.extent)
      else .ok (es.put key.name (extent, v)))
    path .header es

end Entries

end ModelScribe.Toml
