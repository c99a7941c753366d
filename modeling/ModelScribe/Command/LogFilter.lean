-- Log filters. A filter is a list of rules with commas between them. A rule
-- gives a level to the events of a part of the program, to the events that
-- have a field, or to all: `part=level`, `part[{field}]=level`, `level`. Of
-- the rules that an event fits, the one that says most about it decides
-- whether the event is grave enough to show. A field may be asked for by its
-- value too, and a span by its name; no event of this program answers that.
import ModelScribe.Decimal.Literal
import ModelScribe.Log
import ModelScribe.Pattern.Reader
import ModelScribe.Text.Blank
import ModelScribe.Text.Position

namespace ModelScribe

/-! ## Rules -/

/-- How grave an event must be to show. The rule is for the parts of the program whose names
begin with the target, and for the events that have the field; level 0 shows nothing. -/
structure LogRule where
  target : String := ""
  field : Option String := none
  level : Nat
  deriving DecidableEq, Repr

namespace LogRule

/-- The rule is for this event. -/
def fits (r : LogRule) (e : LogEvent) : Bool :=
  r.target.toList.isPrefixOf e.target.toList && r.field.all e.hasField

/-- The rule says more about an event that fits it than another rule that the event fits: its
target is longer, or else it names a field. Of two fields the greater decides. -/
def outranks (r s : LogRule) : Bool :=
  if r.target.length = s.target.length then
    match r.field, s.field with
    | some f, some g => g < f
    | some _, none => true
    | none, _ => false
  else s.target.length < r.target.length

end LogRule

/-- What a filter asks for between two of its commas. -/
inductive LogDirective where
  | rule (r : LogRule)
  /-- Something about spans, of which this program reports none. -/
  | aboutSpans
  deriving DecidableEq, Repr

/-- The rule of a directive. -/
def LogDirective.rule? : LogDirective → Option LogRule
  | .rule r => some r
  | .aboutSpans => none

abbrev LogFilter := List LogRule

namespace LogFilter

/-! ## Levels -/

/-- The level that shows everything. -/
def traceLevel : Nat := 5

/-- The level that a text names, by a word or by a number. -/
def levelOf (cs : List Char) : Option Nat :=
  let word := String.ofList (cs.map Char.toLower)
  match Text.natural cs with
  | some n => if n ≤ traceLevel then some n else none
  | none =>
    if word = "off" then some 0
    else if word = "error" then some 1
    else if word = "warn" then some 2
    else if word = "info" then some 3
    else if word = "debug" then some 4
    else if word = "trace" then some traceLevel
    else none

/-! ## Fields -/

/-- What a directive asks of a field. -/
structure FieldQuery where
  name : String
  hasValue : Bool
  deriving DecidableEq, Repr

/-- The value that a field is to have makes sense: it is a number or a pattern. -/
def acceptsValue (cs : List Char) : Bool := Decimal.isNumber cs || Pattern.isPattern cs

/-- The field that a text asks for, by its name or by its name and value. -/
def FieldQuery.ofText (cs : List Char) : Option FieldQuery :=
  let name := String.ofList (cs.takeWhile (· ≠ '='))
  match cs.dropWhile (· ≠ '=') with
  | [] => if cs.isEmpty then none else some { name, hasValue := false }
  | _ :: value =>
    if acceptsValue (value.takeWhile (· ≠ '=')) then some { name, hasValue := true } else none

/-! ## Reading directives -/

/-- Why a filter cannot be read. -/
inductive FilterFault where
  /-- A directive does not make sense. -/
  | senseless
  /-- A part of a directive would begin or end inside a character. -/
  | splitCharacter
  deriving DecidableEq, Repr

/-- A directive as it is read. Its signs are looked for in the text without the blanks around
it. Its parts are cut out of the whole text, from so many bytes on as there are before the
signs: so blanks at the start move every part. -/
structure DirectiveText where
  whole : List Char
  deriving DecidableEq, Repr

namespace DirectiveText

/-- The text in which signs are looked for. -/
def trimmed (d : DirectiveText) : List Char := Text.trimChars d.whole

/-- How many bytes there are before a rest of the trimmed text. -/
def place (d : DirectiveText) (rest : List Char) : Nat :=
  Text.byteLength d.trimmed - Text.byteLength rest

/-- The end of the whole text, from where a rest of the trimmed text begins. -/
def cutFrom (d : DirectiveText) (rest : List Char) : Except FilterFault (List Char) :=
  match Text.dropBytes (d.place rest) d.whole with
  | some cs => .ok cs
  | none => .error .splitCharacter

/-- The part of the whole text between where two rests of the trimmed text begin. -/
def cut (d : DirectiveText) (rest after : List Char) : Except FilterFault (List Char) := do
  match Text.takeBytes (d.place after - d.place rest) (← d.cutFrom rest) with
  | some cs => .ok cs
  | none => .error .splitCharacter

/-- The level after an equals sign; without a level everything shows. -/
def statedLevel (d : DirectiveText) (rest : List Char) : Except FilterFault Nat := do
  let cs ← d.cutFrom rest
  match if cs.isEmpty then some traceLevel else levelOf cs with
  | some level => .ok level
  | none => .error .senseless

/-- The level after the brackets of a directive. -/
def levelAfterBrackets (d : DirectiveText) (rest : List Char) : Except FilterFault Nat :=
  match rest with
  | [] => .ok traceLevel
  | '=' :: rest => d.statedLevel rest
  | _ => .error .senseless

/-- The directive for a target, from after its opening bracket on: the name of a span, a
field in braces, or both. Only a field without a value, and not within a span, tells events
apart. -/
def bracketed (d : DirectiveText) (target : String) (cs : List Char) :
    Except FilterFault LogDirective :=
  let afterName := cs.dropWhile fun c => c ≠ ']' && c ≠ '\x7b'
  match afterName with
  | ']' :: rest => do
    let _ ← d.cut cs afterName
    let _ ← d.levelAfterBrackets rest
    return .aboutSpans
  | '\x7b' :: inside => do
    let span ← d.cut cs afterName
    let afterField := inside.dropWhile (· ≠ '\x7d')
    if afterField.isEmpty then .error .senseless
    else
      match FieldQuery.ofText (← d.cut inside afterField), afterField with
      | some field, _ :: ']' :: rest => do
        let level ← d.levelAfterBrackets rest
        if span.isEmpty && !field.hasValue then
          return .rule { target, field := some field.name, level }
        else return .aboutSpans
      | _, _ => .error .senseless
  | _ => .error .senseless

/-- A character with which a directive may begin. -/
def mayOpen (c : Char) : Bool := c = '[' || c = '-' || c = ':' || c = '_' || Text.isAlphanumeric c

/-- The directive that a text states. A target without a level shows everything. -/
def read (d : DirectiveText) : Except FilterFault LogDirective :=
  let afterTarget := d.trimmed.dropWhile fun c => c ≠ '=' && c ≠ '['
  if !d.trimmed.head?.any mayOpen then .error .senseless
  else match afterTarget with
    | [] =>
      match levelOf d.whole with
      | some level => .ok (.rule { level })
      | none => .ok (.rule { target := String.ofList d.whole, level := traceLevel })
    | sign :: rest => do
      let target := String.ofList (← d.cut d.trimmed afterTarget)
      if sign = '=' then return .rule { target, level := ← d.statedLevel rest }
      else d.bracketed target rest

end DirectiveText

/-! ## Reading filters -/

/-- The filter that a text describes, or the first fault in it. Without any directive it shows
errors only. -/
def ofText (s : String) : Except FilterFault LogFilter :=
  let texts := (s.toList.splitOn ',').filter (!·.isEmpty)
  if texts.isEmpty then .ok [{ level := 1 }]
  else do
    let directives ← texts.mapM fun cs => (DirectiveText.mk cs).read
    return directives.filterMap LogDirective.rule?

/-- The filter for a number of requests to say more. -/
def ofVerbosity (n : Nat) : LogFilter :=
  [{ level := if n = 0 then 2 else if n = 1 then 4 else traceLevel }]

/-- The filter of a run: the environment's own, if it has one that makes sense. With one that
splits a character there can be no run. -/
def ofSettings (environment : Option String) (verbosity : Nat) : Option LogFilter :=
  match environment.map ofText with
  | none => some (ofVerbosity verbosity)
  | some (.ok f) => some f
  | some (.error .senseless) => some (ofVerbosity verbosity)
  | some (.error .splitCharacter) => none

/-! ## Deciding -/

/-- The rule that decides about an event: of those that it fits, the one that outranks the
others, and of equal ones the last. -/
def deciding (f : LogFilter) (e : LogEvent) : Option LogRule :=
  (f.filter (·.fits e)).foldl
    (fun best r => if best.any (·.outranks r) then best else some r)
    none

/-- The filter lets the event through. -/
def shows (f : LogFilter) (e : LogEvent) : Bool :=
  (f.deciding e).any fun r => e.level.rank ≤ r.level

end LogFilter

end ModelScribe
