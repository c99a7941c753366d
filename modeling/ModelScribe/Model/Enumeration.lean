-- Enumerations: a name and a list of members, each with a value of its own
-- or numbered by the target language. Members without a name are left out,
-- and with them the comma that would follow.
import ModelScribe.Layout

namespace ModelScribe

open Text

/-- One member of an enumeration. -/
structure EnumMember where
  name : String
  value : Option String := none
  deriving DecidableEq, Repr

structure Enumeration where
  name : String
  members : List EnumMember := []
  deriving DecidableEq, Repr

namespace EnumMember

/-- A member that the target language numbers. -/
def named (name : String) : EnumMember := { name }

def withValue (m : EnumMember) (value : String) : EnumMember := { m with value := some value }

/-- The name, and the value if it is not blank. -/
def doc (m : EnumMember) : Doc :=
  if isBlank m.name then []
  else match nonBlank m.value with
    | some v => [m.name, .space, "=", .space, v]
    | none => [m.name]

end EnumMember

namespace Enumeration

/-- An enumeration without members. -/
def named (name : String) : Enumeration := { name }

def withMember (e : Enumeration) (name : String) : Enumeration :=
  { e with members := e.members ++ [.named name] }

def withMemberValue (e : Enumeration) (name value : String) : Enumeration :=
  { e with members := e.members ++ [(EnumMember.named name).withValue value] }

/-- The members that have a name, one to a line. -/
def membersDoc (e : Enumeration) : Doc :=
  [Mark.text ",", Mark.line].intercalate
    (((e.members.map (·.doc)).filter (!Doc.isBlank ·)).map (Mark.tab :: ·))

def doc (e : Enumeration) : Doc :=
  if isBlank e.name then []
  else .join [["export enum ", e.name, .space, "\x7b"], e.membersDoc, ["\x7d"]]

end Enumeration

end ModelScribe
