-- The command line program. It reads and writes real files and leaves every
-- decision to the plan of the run.
import ModelScribe.Command.Run

open ModelScribe

/-- The text of a file, if there is one. -/
def fileText (path : String) : IO (Option String) := do
  try
    return some (← IO.FS.readFile path)
  catch _ =>
    return none

/-- The file that a request reads. -/
def definitionPath : Request → Option String
  | .run _ (.generate definition _ _ _) => some definition
  | .run _ (.list definition _) => some definition
  | _ => none

/-- Carries a plan out, with the log that the filter lets through. -/
def perform (filter : LogFilter) (plan : Plan) : IO UInt32 := do
  match plan with
  | .stop code text report =>
    IO.print text
    IO.eprint report
    return UInt32.ofNat code
  | .print events text =>
    IO.eprint (logText filter events)
    IO.print text
    return 0
  | .save events path text manifest =>
    IO.eprint (logText filter events)
    try
      IO.FS.writeFile path text
      IO.eprint (logText filter [savedEvent path text] ++ savedReport path manifest)
      return 0
    catch _ =>
      IO.eprint (unsavedReport path)
      return 1

def main (args : List String) : IO UInt32 := do
  let request := Request.ofArguments args
  match request.filter (← IO.getEnv "RUST_LOG") with
  | none => perform [] Plan.unfiltered
  | some filter =>
    let source ← match (definitionPath request).filter fun p => (Path.format p).isSome with
      | some path => fileText path
      | none => pure none
    perform filter (Plan.ofRequest (fun _ => source) request)
