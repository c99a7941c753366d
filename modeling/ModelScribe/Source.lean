-- Sources. A definition is written in one of two formats. A source that is
-- refused yields a report: what is wrong, in which file, and at which stretch
-- of it.
import ModelScribe.Json.Reader
import ModelScribe.Toml.Reader
import ModelScribe.Schema.Document

namespace ModelScribe

open Text

/-! ## Formats -/

/-- The format of a definition. -/
inductive SourceFormat where
  | json
  | toml
  deriving DecidableEq, Repr

namespace SourceFormat

/-- The name that a source in this format has when it is in no file. -/
def defaultName : SourceFormat → String
  | .json => "definition.json"
  | .toml => "definition.toml"

end SourceFormat

/-! ## Errors -/

/-- What is wrong with a source. -/
inductive Refusal where
  | json (fault : Json.Fault)
  | toml (span : Option Span)
  deriving Repr

/-- Why there is no definition. -/
inductive LoadError where
  /-- The name of the file does not tell a format. -/
  | unsupported (path : String)
  /-- The file is missing, or it is no text. -/
  | unreadable (path : String)
  /-- The source is refused. -/
  | refused (name source : String) (refusal : Refusal)
  deriving Repr

namespace Definition

/-- The definition that a source states. -/
def parse (format : SourceFormat) (source : String) : Except Refusal Definition :=
  match format with
  | .json => ((Json.read Schema.definition source).mapError Refusal.json).map Schema.definitionOf
  | .toml => ((Toml.read Schema.definition source).mapError Refusal.toml).map Schema.definitionOf

/-- The definition that a source with a name states. -/
def parseNamed (format : SourceFormat) (name source : String) : Except LoadError Definition :=
  (parse format source).mapError (.refused name source)

end Definition

/-! ## Reports -/

namespace LoadError

def message : LoadError → String
  | .unsupported path => "unsupported definition format '" ++ path ++ "'"
  | .unreadable path => "failed to read '" ++ path ++ "'"
  | .refused _ _ (.json _) => "failed to parse definition as JSON"
  | .refused _ _ (.toml _) => "failed to parse definition as TOML"

/-- The code under which the error can be looked up. -/
def code : LoadError → Option String
  | .unsupported _ => some "modelgen::unsupported_format"
  | .unreadable _ => none
  | .refused _ _ (.json _) => some "modelgen::json_parse_error"
  | .refused _ _ (.toml _) => some "modelgen::toml_parse_error"

/-- What to do about it. -/
def help : LoadError → Option String
  | .unsupported _ => some "definitions must be .json or .toml files"
  | _ => none

/-- The file that a refused source is in. -/
def file : LoadError → Option String
  | .refused name _ _ => some name
  | _ => none

/-- The fault in a JSON source, in words. -/
def detail : LoadError → Option String
  | .refused _ _ (.json fault) => some fault.message
  | _ => none

/-- The stretch of the source that the report points at. -/
def span : LoadError → Option Span
  | .refused _ source (.json fault) =>
    (offsetOf source.toList fault.position).map fun offset => ⟨offset, 0⟩
  | .refused _ _ (.toml span) => span
  | _ => none

/-- What is written at a stretch of the source. -/
def labels (e : LoadError) : List (String × Span) :=
  e.span.toList.map fun span => ("parse error here", span)

end LoadError

end ModelScribe
