-- Decorators. A decorator is a call before a class, with one object of
-- options as its argument. Every option is written, with a comma after each
-- but the last.
import ModelScribe.Layout

namespace ModelScribe

open Text

/-- One `name: value` entry in the options of a decorator. -/
structure DecoratorOption where
  name : String := ""
  value : String := ""
  deriving DecidableEq, Repr

/-- A call such as `@Entity` with its options, written before a class. -/
structure Decorator where
  type : String := ""
  options : List DecoratorOption := []
  deriving DecidableEq, Repr

namespace DecoratorOption

def doc (o : DecoratorOption) : Doc := [.tab, o.name, ":", .space, o.value]

end DecoratorOption

namespace Decorator

/-- A decorator without options. -/
def ofType (type : String) : Decorator := { type }

def withOption (d : Decorator) (name value : String) : Decorator :=
  { d with options := d.options ++ [{ name, value }] }

/-- The option lines. -/
def optionsDoc (d : Decorator) : Doc :=
  [Mark.text ",", Mark.line].intercalate (d.options.map (·.doc))

/-- The decorator in front of a class. A compact layout needs a space before the word that
follows. -/
def doc (d : Decorator) : Doc :=
  if isBlank d.type then []
  else .join [["@", d.type, "(\x7b"], d.optionsDoc, ["\x7d)", .gap]]

end Decorator

end ModelScribe
