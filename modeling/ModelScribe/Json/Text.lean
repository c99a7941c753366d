-- JSON texts. A string is written between quotes, with a backslash before a
-- quote or a backslash and an escape for each control character; every other
-- character stands for itself. Lists and objects are written on one line, or
-- with one item to a line.

namespace ModelScribe.Json

/-! ## Strings -/

/-- A hexadecimal digit, in lower case. -/
def hexDigit (n : Nat) : Char := if n < 10 then Char.ofNat (48 + n) else Char.ofNat (87 + n)

/-- How one character is written in a string. -/
def escape (c : Char) : List Char :=
  if c = '"' then ['\\', '"']
  else if c = '\\' then ['\\', '\\']
  else if c = '\n' then ['\\', 'n']
  else if c = '\r' then ['\\', 'r']
  else if c = '\t' then ['\\', 't']
  else if c.toNat = 8 then ['\\', 'b']
  else if c.toNat = 12 then ['\\', 'f']
  else if c.toNat < 32 then ['\\', 'u', '0', '0', hexDigit (c.toNat / 16), hexDigit (c.toNat % 16)]
  else [c]

/-- A string between quotes. -/
def quote (s : String) : String := String.ofList ('"' :: s.toList.flatMap escape ++ ['"'])

/-! ## Lists and objects -/

/-- A list of strings on one line. -/
def stringList (xs : List String) : String := "[" ++ ",".intercalate (xs.map quote) ++ "]"

/-- Items between brackets, one to a line, two spaces deeper than the brackets. -/
def block (opening closing indentation : String) (items : List String) : String :=
  match items with
  | [] => opening ++ closing
  | items =>
    opening ++ "\n" ++ ",\n".intercalate (items.map fun i => indentation ++ "  " ++ i) ++ "\n"
      ++ indentation ++ closing

end ModelScribe.Json
