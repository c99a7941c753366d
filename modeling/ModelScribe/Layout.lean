-- Layout. The generator never writes white space of its own: it composes
-- documents from marks, and a layout says at the very end what each mark
-- becomes. So the pretty and the compact text of a program come from one
-- and the same document, and only the layout's own characters can differ.
import ModelScribe.Text.Blank

namespace ModelScribe

open Text

/-! ## Layouts -/

/-- How a document is laid out: over indented lines, with an indent unit of the given
number of spaces, or as densely as possible. -/
inductive Layout where
  | pretty (tabSize : UInt8)
  | compact
  deriving DecidableEq, Repr

namespace Layout

/-- The layout for two independent settings: the width only counts in a pretty layout. -/
def ofSettings (prettify : Bool) (tabSize : UInt8) : Layout :=
  if prettify then .pretty tabSize else .compact

/-- Lines indented by four spaces. -/
def standard : Layout := .pretty 4

def isPretty : Layout → Bool
  | .pretty _ => true
  | .compact => false

def newline : Layout → String
  | .pretty _ => "\n"
  | .compact => ""

def space : Layout → String
  | .pretty _ => " "
  | .compact => ""

/-- One indent unit. -/
def tab : Layout → String
  | .pretty n => String.ofList (List.replicate n.toNat ' ')
  | .compact => ""

/-- Indentation that is `level` units deep. -/
def indent (l : Layout) (level : Nat) : String :=
  String.ofList (List.replicate level l.tab.toList).flatten

/-- What stands between two items of a list. -/
def comma (l : Layout) : String := "," ++ l.space

/-- What stands between two joined fragments. -/
def separator (l : Layout) : String := l.newline

/-- The fragments that are not blank, in order, with the separator between them. This is
where what renders to nothing disappears from its container. -/
def join (l : Layout) (fragments : List String) : String :=
  l.separator.intercalate (fragments.filter (!isBlank ·))

end Layout

/-! ## Documents -/

/-- One piece of a document. -/
inductive Mark where
  /-- Characters written as they are. -/
  | text (s : String)
  /-- The space of a pretty layout. -/
  | space
  /-- The line break of a pretty layout. -/
  | line
  /-- One indent unit of a pretty layout. -/
  | tab
  /-- A separator that only a compact layout needs: a pretty one breaks the line there. -/
  | gap
  deriving DecidableEq, Repr

instance : Coe String Mark := ⟨.text⟩

/-- A document before its layout is chosen. -/
abbrev Doc := List Mark

/-- A mark that leaves no visible character in any layout. -/
def Mark.isBlank : Mark → Bool
  | .text s => Text.isBlank s
  | _ => true

namespace Doc

/-- Documents one after the other, with nothing between them. -/
abbrev cat (ds : List Doc) : Doc := ds.flatten

/-- A document that is blank in every layout. -/
def isBlank (d : Doc) : Bool := d.all Mark.isBlank

/-- The documents that are not blank, one to a line. -/
def join (ds : List Doc) : Doc :=
  [Mark.line].intercalate (ds.filter (!isBlank ·))

/-- The documents that are not blank, as a list with commas. -/
def commaList (ds : List Doc) : Doc :=
  [Mark.text ",", Mark.space].intercalate (ds.filter (!isBlank ·))

end Doc

namespace Layout

/-- What a mark becomes. -/
def mark (l : Layout) : Mark → String
  | .text s => s
  | .space => l.space
  | .line => l.newline
  | .tab => l.tab
  | .gap => if l.isPretty then "" else " "

/-- The characters of a document in this layout. -/
def chars (l : Layout) (d : Doc) : List Char := d.flatMap fun m => (l.mark m).toList

/-- The text of a document in this layout. -/
def write (l : Layout) (d : Doc) : String := String.ofList (l.chars d)

@[simp] theorem toList_write (l : Layout) (d : Doc) : (l.write d).toList = l.chars d := by
  simp [write]

@[simp] theorem chars_nil (l : Layout) : l.chars [] = [] := rfl

@[simp] theorem chars_append (l : Layout) (d e : Doc) :
    l.chars (d ++ e) = l.chars d ++ l.chars e := by
  simp [chars]

@[simp] theorem chars_cons (l : Layout) (m : Mark) (d : Doc) :
    l.chars (m :: d) = (l.mark m).toList ++ l.chars d := by
  simp [chars]

end Layout

end ModelScribe
