-- Kinds. A kind says what a document may state at one place, whatever the
-- format of the document: a text, a flag, a small number, a list, or a record
-- of named fields. A reader of a format is one function on kinds, and the
-- value that it yields has the type that the kind gives it, so no reader can
-- yield anything else.

namespace ModelScribe

mutual

/-- What may be stated at one place of a document. -/
inductive Kind where
  /-- A string. -/
  | text
  /-- `true` or `false`. -/
  | flag
  /-- An integer from 0 to 255. -/
  | byte
  /-- A string, a number or a flag, kept as the text that it is written as. -/
  | scalar
  /-- Absent, in a format that can say so, or the given kind. -/
  | optional (k : Kind)
  | list (k : Kind)
  /-- A record of fields, stated by name or, in declaration order, by position. -/
  | record (name : String) (fields : Fields)

/-- The fields of a record, in declaration order. -/
inductive Fields where
  | nil
  | cons (key : String) (kind : Kind) (rest : Fields)

end

mutual

/-- What a place of this kind holds once it is read. -/
@[reducible] def Kind.Value : Kind → Type
  | .text => String
  | .flag => Bool
  | .byte => UInt8
  | .scalar => String
  | .optional k => Option k.Value
  | .list k => List k.Value
  | .record _ fs => fs.Values

/-- The fields that were stated, each with its value. -/
@[reducible] def Fields.Values : Fields → Type
  | .nil => Unit
  | .cons _ k rest => Option k.Value × rest.Values

end

/-- No field is stated. -/
def Fields.unstated : (fs : Fields) → fs.Values
  | .nil => ()
  | .cons _ _ rest => (none, rest.unstated)

/-- The names of the fields. -/
def Fields.keys : Fields → List String
  | .nil => []
  | .cons key _ rest => key :: rest.keys

/-- How a message names what it expected. -/
def Kind.expectation : Kind → String
  | .text => "a string"
  | .flag => "a boolean"
  | .byte => "u8"
  | .scalar => "untagged enum Text"
  | .optional k => k.expectation
  | .list _ => "a sequence"
  | .record name _ => "struct " ++ name

end ModelScribe
