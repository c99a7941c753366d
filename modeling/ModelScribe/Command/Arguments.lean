-- The arguments of the command line. Options may stand before and after the
-- name of the command, long ones with `--` and short ones with `-`, several
-- short ones in one argument. After `--` everything is a plain argument. The
-- arguments are looked at in order, and the first that makes no sense, or asks
-- for help, settles what becomes of the line.
import ModelScribe.Options
import ModelScribe.Text.Natural

namespace ModelScribe

/-! ## Commands -/

/-- A shell for which completions can be written. -/
inductive Shell where
  | bash
  | elvish
  | fish
  | powershell
  | zsh
  deriving DecidableEq, Repr

inductive Command where
  /-- Write the text that a definition stands for. -/
  | generate (definition : String) (output : Option String) (compact : Bool)
      (tabSize : Option UInt8)
  /-- Show the names that a definition exports. -/
  | list (definition : String) (json : Bool)
  | completions (shell : Shell)
  deriving DecidableEq, Repr

/-- The name of a command. -/
inductive CommandName where
  | generate
  | list
  | completions
  deriving DecidableEq, Repr

/-- What a command line asks for. -/
inductive Request where
  | run (verbosity : Nat) (command : Command)
  | help
  | version
  /-- The command line makes no sense. -/
  | misuse
  deriving DecidableEq, Repr

/-! ## Options -/

/-- An option of the command line. -/
inductive OptionName where
  | verbose
  | help
  | version
  | output
  | compact
  | tabSize
  | json
  deriving DecidableEq, Repr

namespace OptionName

def long : OptionName → String
  | .verbose => "verbose"
  | .help => "help"
  | .version => "version"
  | .output => "output"
  | .compact => "compact"
  | .tabSize => "tab-size"
  | .json => "json"

def short : OptionName → Option Char
  | .verbose => some 'v'
  | .help => some 'h'
  | .version => some 'V'
  | .output => some 'o'
  | _ => none

/-- The option is followed by a value. -/
def takesValue : OptionName → Bool
  | .output => true
  | .tabSize => true
  | _ => false

/-- The option may be given more than once. -/
def repeats : OptionName → Bool
  | .verbose => true
  | _ => false

end OptionName

/-- What is found on the command line before a command's name, or after it. -/
structure Findings where
  /-- Options with their values, in order. -/
  options : List (OptionName × String) := []
  /-- The argument of the command. -/
  plain : Option String := none
  deriving DecidableEq, Repr

namespace Findings

def has (f : Findings) (o : OptionName) : Bool := f.options.any (·.1 = o)

def count (f : Findings) (o : OptionName) : Nat := (f.options.filter (·.1 = o)).length

def value? (f : Findings) (o : OptionName) : Option String := f.options.lookup o

end Findings

/-! ## Values -/

/-- An indent width: an integer from 0 to 255 in decimal, with or without a sign. -/
def parseTabSize (s : String) : Option UInt8 :=
  match s.toList with
  | '-' :: cs => (Text.unsigned cs).bind fun n => if n = 0 then some 0 else none
  | cs => (Text.natural cs).bind fun n => if n < 256 then some (UInt8.ofNat n) else none

/-- The value makes sense for the option. -/
def OptionName.accepts (o : OptionName) (value : String) : Bool :=
  match o with
  | .output => !value.isEmpty
  | .tabSize => (parseTabSize value).isSome
  | _ => true

def Shell.ofName (name : String) : Option Shell :=
  if name = "bash" then some .bash
  else if name = "elvish" then some .elvish
  else if name = "fish" then some .fish
  else if name = "powershell" then some .powershell
  else if name = "zsh" then some .zsh
  else none

namespace CommandName

def ofText (name : String) : Option CommandName :=
  if name = "generate" then some .generate
  else if name = "list" then some .list
  else if name = "completions" then some .completions
  else none

/-- The argument makes sense for the command: the path of a definition, or the name of a
shell. -/
def accepts : CommandName → String → Bool
  | .completions, arg => (Shell.ofName arg).isSome
  | _, arg => !arg.isEmpty

end CommandName

/-! ## Reading options -/

/-- What becomes of the options in one argument. -/
inductive ArgumentResult where
  | ok (found : List (OptionName × String))
  /-- The last option waits for its value in the next argument. -/
  | pending (found : List (OptionName × String)) (option : OptionName)
  /-- The line asks for help or for the version, whatever follows. -/
  | halt (request : Request)

namespace ArgumentResult

/-- Puts an option in front. -/
def cons (entry : OptionName × String) : ArgumentResult → ArgumentResult
  | .ok found => .ok (entry :: found)
  | .pending found o => .pending (entry :: found) o
  | .halt r => .halt r

/-- An option without a value. -/
def flag (o : OptionName) (rest : ArgumentResult) : ArgumentResult :=
  match o with
  | .help => .halt .help
  | .version => .halt .version
  | _ => rest.cons (o, "")

end ArgumentResult

/-- The options in an argument with one dash. -/
def shortOptions (known : List OptionName) : List Char → ArgumentResult
  | [] => .ok []
  | c :: cs =>
    match known.find? (·.short = some c) with
    | none => .halt .misuse
    | some o =>
      if o.takesValue then
        match cs with
        | [] => .pending [] o
        | '=' :: value => .ok [(o, String.ofList value)]
        | value => .ok [(o, String.ofList value)]
      else .flag o (shortOptions known cs)

/-- The option in an argument with two dashes. -/
def longOption (known : List OptionName) (cs : List Char) : ArgumentResult :=
  let name := String.ofList (cs.takeWhile (· ≠ '='))
  let value := cs.dropWhile (· ≠ '=')
  match known.find? (·.long = name) with
  | none => .halt .misuse
  | some o =>
    match o.takesValue, value with
    | true, [] => .pending [] o
    | true, _ :: value => .ok [(o, String.ofList value)]
    | false, [] => .flag o (.ok [])
    | false, _ :: _ => .halt .misuse

/-- The argument gives options: it starts with a dash and is more than that. -/
def isOption (arg : String) : Bool := arg.startsWith "-" && arg ≠ "-"

/-- The options that may stand after the name of a command, or before it. -/
def optionsAfter : Option CommandName → List OptionName
  | none => [.verbose, .help, .version]
  | some .generate => [.verbose, .help, .output, .compact, .tabSize]
  | some .list => [.verbose, .help, .json]
  | some .completions => [.verbose, .help]

namespace Findings

/-- Adds options to what was found, unless one of them is given twice or its value makes no
sense. -/
def addAll (f : Findings) : List (OptionName × String) → Option Findings
  | [] => some f
  | (o, value) :: rest =>
    if (f.has o && !o.repeats) || !o.accepts value then none
    else addAll { f with options := f.options ++ [(o, value)] } rest

/-- Adds a plain argument to what was found after a command's name, unless there is one or
it makes no sense. -/
def addPlain (name : CommandName) (f : Findings) (arg : String) : Option Findings :=
  if f.plain.isNone && name.accepts arg then some { f with plain := some arg } else none

end Findings

/-- Reads arguments after the name of a command up to their end, or before it up to the
name, which is handed back with those after it. -/
def readArguments (command : Option CommandName) (f : Findings) :
    List String → Except Request (Findings × List String)
  | [] => .ok (f, [])
  | arg :: rest =>
    if arg = "--" then
      match command with
      | none => if rest.isEmpty then .ok (f, []) else .error .misuse
      | some name =>
        match rest.foldlM (Findings.addPlain name) f with
        | some f => .ok (f, [])
        | none => .error .misuse
    else if isOption arg then
      let result :=
        if arg.startsWith "--" then longOption (optionsAfter command) (arg.toList.drop 2)
        else shortOptions (optionsAfter command) (arg.toList.drop 1)
      match result with
      | .halt r => .error r
      | .ok found =>
        match f.addAll found with
        | some f => readArguments command f rest
        | none => .error .misuse
      | .pending found o =>
        match rest with
        | [] => .error .misuse
        | value :: rest =>
          if isOption value then .error .misuse
          else match f.addAll (found ++ [(o, value)]) with
            | some f => readArguments command f rest
            | none => .error .misuse
    else
      match command with
      | none => .ok (f, arg :: rest)
      | some name =>
        match f.addPlain name arg with
        | some f => readArguments command f rest
        | none => .error .misuse

/-! ## Command lines -/

/-- The command with the findings after its name. -/
def commandOf (name : CommandName) (f : Findings) : Option Command :=
  f.plain.bind fun arg =>
    match name with
    | .generate =>
      some (.generate arg (f.value? .output) (f.has .compact)
        ((f.value? .tabSize).bind parseTabSize))
    | .list => some (.list arg (f.has .json))
    | .completions => (Shell.ofName arg).map .completions

/-- What a command line asks for. The verbosity counts after the command's name; if none is
given there, it counts before. -/
def Request.ofArguments (args : List String) : Request :=
  match readArguments none {} args with
  | .error r => r
  | .ok (_, []) => .misuse
  | .ok (before, name :: rest) =>
    if name = "help" then
      match rest with
      | [] => .help
      | [topic] => if topic = "help" ∨ (CommandName.ofText topic).isSome then .help else .misuse
      | _ => .misuse
    else match CommandName.ofText name with
      | none => .misuse
      | some name =>
        match readArguments (some name) {} rest with
        | .error r => r
        | .ok (f, _) =>
          match commandOf name f with
          | none => .misuse
          | some command =>
            let inner := f.count .verbose
            .run (if inner = 0 then before.count .verbose else inner) command

end ModelScribe
