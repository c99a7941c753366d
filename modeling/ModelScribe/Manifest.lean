-- The manifest of a program: the names that it exports, by kind. It can be
-- shown as JSON, on one line or on many, and as a plain listing.
import ModelScribe.Json.Text

namespace ModelScribe

/-- The exported names, in declaration order. -/
structure Manifest where
  /-- Classes, without those that are scaffolding. -/
  classes : List String := []
  enums : List String := []
  interfaces : List String := []
  deriving DecidableEq, Repr

namespace Manifest

def isEmpty (m : Manifest) : Bool :=
  m.enums.isEmpty && m.interfaces.isEmpty && m.classes.isEmpty

/-- The three lists under their keys. -/
def entries (m : Manifest) : List (String × List String) :=
  [("classes", m.classes), ("enums", m.enums), ("interfaces", m.interfaces)]

/-- The manifest as JSON on one line. -/
def json (m : Manifest) : String :=
  "\x7b" ++ ",".intercalate (m.entries.map fun e => Json.quote e.1 ++ ":" ++ Json.stringList e.2)
    ++ "\x7d"

/-- The manifest as JSON with one item to a line. -/
def prettyJson (m : Manifest) : String :=
  Json.block "\x7b" "\x7d" "" <|
    m.entries.map fun e => Json.quote e.1 ++ ": " ++ Json.block "[" "]" "  " (e.2.map Json.quote)

/-- The names of one kind under their heading, or nothing when there are none. -/
def group (heading : String) (names : List String) : List String :=
  if names.isEmpty then [] else (heading ++ ":") :: names.map ("  " ++ ·)

/-- The manifest as lines to read. -/
def lines (m : Manifest) : List String :=
  if m.isEmpty then ["No declarations exported"]
  else group "Enums" m.enums ++ group "Interfaces" m.interfaces
    ++ group "Classes" m.classes

/-- The lines, each with its line break. -/
def listing (m : Manifest) : String := String.join (m.lines.map (· ++ "\n"))

end Manifest

end ModelScribe
