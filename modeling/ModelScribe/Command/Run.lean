-- Runs of the program. What a run prints and what it saves is settled before
-- anything is saved; if saving fails, the run fails and has printed nothing.
--
-- Some texts are drawn by the libraries that the program uses, and they stand
-- here in short: the help and usage texts, the drawn form of an error report,
-- and the scripts that complete commands in a shell, of which nothing is
-- printed. Of the log, time stamps and colours are left out.
import ModelScribe.Command.Arguments
import ModelScribe.Command.FileTree
import ModelScribe.Command.LogFilter

namespace ModelScribe

/-! ## Plans -/

/-- What a run is going to do. -/
inductive Plan where
  /-- Stop with this exit code, after printing a text and a report. -/
  | stop (code : Nat) (text report : String)
  /-- Report the events, print the text and succeed. -/
  | print (events : List LogEvent) (text : String)
  /-- Report the events and save the text in a file; then report that, with the names that the
  text exports, and succeed. -/
  | save (events : List LogEvent) (path text : String) (manifest : Manifest)

/-- The name and version of the program. -/
def versionLine : String := "modelgen 0.1.0\n"

/-- How to call the program, in short. The text that the argument parser draws is longer. -/
def usage : String :=
  "Usage: modelgen [-v] generate DEFINITION [-o OUTPUT] [--compact] [--tab-size N]\n"
    ++ "       modelgen [-v] list DEFINITION [--json]\n"
    ++ "       modelgen completions SHELL\n"

/-- The options of a definition as the command line overrides them. -/
def Options.override (o : Options) (compact : Bool) (tabSize : Option UInt8) : Options :=
  { o with
    prettify := o.prettify && !compact
    tabSize := tabSize.getD o.tabSize }

/-- A text has been saved. -/
def savedEvent (path text : String) : LogEvent where
  level := .info
  target := "modelgen::commands::generate"
  message := "wrote output"
  fields := [("path", .path path), ("bytes", .count text.utf8ByteSize)]

/-- An error as it is reported: its message, the fault in words and the advice. The stretch of
the source that the report would show is left to `LoadError.labels`. -/
def LoadError.report (e : LoadError) : String :=
  "Error: " ++ e.message ++ "\n"
    ++ String.join ((e.detail.toList ++ e.help.toList).map fun line => "  " ++ line ++ "\n")

/-- The report that a file could not be saved. -/
def unsavedReport (path : String) : String := "Error: Failed to write " ++ path ++ "\n"

namespace Plan

/-- What a command is going to do, where `readText` gives the text of a file. -/
def ofCommand (readText : String → Option String) : Command → Plan
  | .generate definition output compact tabSize =>
    match Definition.load readText definition with
    | .error e => .stop 1 "" e.report
    | .ok d =>
      let program := { d with options := d.options.override compact tabSize }.program
      let generated := program.generate
      match output with
      | none => .print program.events (generated.output ++ "\n")
      | some path => .save program.events path generated.output generated.manifest
  | .list definition json =>
    match Definition.load readText definition with
    | .error e => .stop 1 "" e.report
    | .ok d =>
      let manifest := d.program.manifest
      .print d.program.events
        (if json then manifest.prettyJson ++ "\n" else manifest.listing)
  -- the script that would be printed is not modelled
  | .completions _ => .stop 0 "" ""

/-- What a request comes to. -/
def ofRequest (readText : String → Option String) : Request → Plan
  | .help => .stop 0 usage ""
  | .version => .stop 0 versionLine ""
  | .misuse => .stop 2 "" usage
  | .run _ command => ofCommand readText command

end Plan

/-! ## Outcomes -/

/-- What a run leaves behind. -/
structure Outcome where
  code : Nat
  stdout : String
  /-- The text of the log and of other reports. -/
  stderr : String
  files : FileTree

/-- The events that the filter lets through, as text. -/
def logText (filter : LogFilter) (events : List LogEvent) : String :=
  String.join ((events.filter filter.shows).map (·.line ++ "\n"))

/-- What is reported once a text has been saved. -/
def savedReport (path : String) (manifest : Manifest) : String :=
  "Generated " ++ path ++ "\n" ++ manifest.listing

/-- The lines of the reports. -/
def Outcome.reportLines (o : Outcome) : List String :=
  ((o.stderr.toList.splitOn '\n').map String.ofList).dropLast

/-- Carries a plan out in a file tree. -/
def Plan.perform (filter : LogFilter) (t : FileTree) : Plan → Outcome
  | .stop code text report => { code, stdout := text, stderr := report, files := t }
  | .print events text =>
    { code := 0, stdout := text, stderr := logText filter events, files := t }
  | .save events path text manifest =>
    match t.writeText path text with
    | none =>
      { code := 1, stdout := "", stderr := logText filter events ++ unsavedReport path, files := t }
    | some after =>
      { code := 0, stdout := ""
        stderr := logText filter (events ++ [savedEvent path text]) ++ savedReport path manifest
        files := after }

/-- The filter for the log of a request. Without a filter the request cannot be served; one
that runs no command logs nothing. -/
def Request.filter (environment : Option String) : Request → Option LogFilter
  | .run verbosity _ => LogFilter.ofSettings environment verbosity
  | _ => some []

/-- What a request comes to when its log has no filter. -/
def Plan.unfiltered : Plan :=
  .stop 101 "" "Error: A part of the log filter begins or ends inside a character\n"

/-- Runs the program in a file tree. -/
def run (environment : Option String) (args : List String) (t : FileTree) : Outcome :=
  let request := Request.ofArguments args
  match request.filter environment with
  | none => Plan.unfiltered.perform [] t
  | some filter => (Plan.ofRequest t.readText request).perform filter t

end ModelScribe
