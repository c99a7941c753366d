-- Methods. A method of a class has a body unless it is abstract; a method of
-- an interface never has one. A method without a name writes nothing.
import ModelScribe.Model.Property

namespace ModelScribe

open Text

/-- A typed method, or the signature of one. -/
structure Method where
  name : String := ""
  /-- The type of the result. -/
  type : String := "void"
  args : List Property := []
  body : String := "return;"
  isStatic : Bool := false
  isAbstract : Bool := false
  modifier : Modifier := .pub
  deriving DecidableEq, Repr

namespace Method

instance : Inhabited Method := ⟨{}⟩

/-! ## Building a method -/

/-- A method with nothing but a name. -/
def named (name : String) : Method := { name }

def returning (m : Method) (type : String) : Method := { m with type }

def withArg (m : Method) (arg : Property) : Method := { m with args := m.args ++ [arg] }

def withBody (m : Method) (body : String) : Method := { m with body }

def asStatic (m : Method) : Method := { m with isStatic := true }

def asAbstract (m : Method) : Method := { m with isAbstract := true }

def withModifier (m : Method) (modifier : Modifier) : Method := { m with modifier }

/-! ## Documents -/

/-- The method has a name. -/
def isNamed (m : Method) : Bool := !isBlank m.name

/-- The line that opens the method in a class: modifiers, name, arguments and result. -/
def header (m : Method) : Doc :=
  .cat [
    [.tab, if m.isAbstract then "abstract " else "", m.modifier.text,
      if m.isStatic then " static" else "", " ", m.name, "("],
    .commaList (m.args.map (·.argDoc)),
    ["):", .space, m.type]]

/-- The method as a part of a class body. -/
def classDoc (m : Method) : Doc :=
  if m.isNamed then
    if m.isAbstract then .cat [m.header, [";"]]
    else .join [.cat [m.header, [.space, "\x7b"]], [.tab, .tab, m.body], [.tab, "\x7d"]]
  else []

/-- The method as a member of an interface. -/
def interfaceDoc (m : Method) : Doc :=
  if m.isNamed then
    .cat [
      [.tab, m.name, "("],
      .commaList (m.args.map (·.paramDoc)),
      ["):", .space, m.type, ";"]]
  else []

end Method

end ModelScribe
