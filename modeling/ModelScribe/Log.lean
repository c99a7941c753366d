-- The log of a run. Each event has a level, the part of the program that
-- reports it, a message and fields; a line of the log shows all four.
import ModelScribe.Program
import ModelScribe.Text.Quoted

namespace ModelScribe

open Text

/-! ## Events -/

/-- How much an event matters, the gravest first. -/
inductive LogLevel where
  | error
  | warn
  | info
  | debug
  | trace
  deriving DecidableEq, Repr

namespace LogLevel

def name : LogLevel → String
  | .error => "ERROR"
  | .warn => "WARN"
  | .info => "INFO"
  | .debug => "DEBUG"
  | .trace => "TRACE"

/-- How many levels of gravity a filter must let through for this one to show. -/
def rank : LogLevel → Nat
  | .error => 1
  | .warn => 2
  | .info => 3
  | .debug => 4
  | .trace => 5

end LogLevel

/-- The value of a field. -/
inductive LogValue where
  /-- Text in quotes. -/
  | quoted (text : String)
  /-- A path, as it is. -/
  | path (text : String)
  | count (n : Nat)
  deriving DecidableEq, Repr

structure LogEvent where
  level : LogLevel
  /-- The part of the program that reports the event. -/
  target : String
  message : String
  fields : List (String × LogValue)
  deriving DecidableEq, Repr

namespace LogValue

def text : LogValue → String
  | .quoted t => Text.quoted t
  | .path t => t
  | .count n => Nat.repr n

end LogValue

namespace LogEvent

/-- The event has a field of this name; its message is one of them. -/
def hasField (e : LogEvent) (name : String) : Bool :=
  name == "message" || e.fields.any (·.1 == name)

/-- The event as a line of the log, without the time. -/
def line (e : LogEvent) : String :=
  " ".intercalate <|
    [e.level.name, e.target ++ ":", e.message] ++ e.fields.map fun f => f.1 ++ "=" ++ f.2.text

end LogEvent

/-! ## The events of a generation -/

namespace Program

/-- The part of the program that turns declarations into text. -/
def generatorTarget : String := "modelgen_typescript::generator"

def renderingEvent (kind name : String) : LogEvent where
  level := .debug
  target := generatorTarget
  message := "rendering"
  fields := [("kind", .quoted kind), ("name", .quoted name)]

/-- A class is given the capabilities of a base model before it. -/
def empoweredEvent (name : String) : LogEvent where
  level := .debug
  target := generatorTarget
  message := "base model declared earlier, forcing clone and export"
  fields := [("name", .quoted name)]

/-- The events of the classes, after the given history. -/
def classEvents (seen : Bool) : List Class → List LogEvent
  | [] => []
  | c :: rest =>
    renderingEvent "class" c.name
      :: (if seen && !c.isBaseModel then [empoweredEvent c.name] else [])
      ++ classEvents (seen || c.isBaseModel) rest

/-- What a generation reports, in order. -/
def events (p : Program) : List LogEvent :=
  p.enums.map (renderingEvent "enum" ·.name)
    ++ p.interfaces.map (renderingEvent "interface" ·.name)
    ++ classEvents false p.classes
    ++ [{ level := .trace
          target := generatorTarget
          message := "assembling output"
          fields := [
            ("enums", .count p.manifest.enums.length),
            ("interfaces", .count p.manifest.interfaces.length),
            ("classes", .count p.manifest.classes.length),
            ("import_paths", .count p.assembly.imports.length)] }]

end Program

end ModelScribe
