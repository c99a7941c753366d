-- Reading the target language by its characters. A text falls into words,
-- texts in quotes, signs, and groups between brackets. Comments are skipped,
-- and of a pattern no more is kept than that there is one. The reader goes
-- over the characters once and keeps a stack: a piece is put on it, and a
-- closing bracket makes one group of all that stands above the opening one.
--
-- A slash divides, or begins a pattern. What stands before it tells which, and
-- the reader gives up where that takes more than a look at the last pieces.
import Mathlib.Data.List.Induction
import Mathlib.Tactic.SplitIfs
import ModelScribe.Text.Alphanumeric
import ModelScribe.Text.Blank

namespace ModelScribe

open Text

namespace Script

/-! ## Pieces -/

/-- One piece of a text. -/
inductive Piece where
  | word (s : String)
  /-- The characters between two quotes. -/
  | quoted (s : String)
  /-- A character that belongs to no word and is no bracket. -/
  | sign (c : Char)
  /-- What stands between two brackets, with the opening one. -/
  | group (bracket : Char) (items : List Piece)
  /-- A pattern, or a text with a backslash. What it stands for is not read. -/
  | literal

/-- A letter, a digit, `_` or `$`. -/
def isWordChar (c : Char) : Bool :=
  c.isAlphanum || c == '_' || c == '$' || (0x80 ≤ c.toNat && isAlphabetic c)

/-- The text has the shape of a name: word characters, of which the first is no digit. -/
def isIdentifier (s : String) : Bool :=
  match s.toList with
  | [] => false
  | c :: cs => isWordChar c && !c.isDigit && cs.all isWordChar

/-- The text may stand between single quotes as it is. -/
def isQuotable (t : String) : Bool :=
  t.toList.all fun c => c != '\'' && c != '\\' && c != '\n' && c != '\r'

/-- What the stack holds. -/
inductive Item where
  | piece (p : Piece)
  /-- A bracket that is still open. A backtick stands for the braces of code in a template. -/
  | opened (bracket : Char)

inductive Mode where
  | plain
  /-- The topmost piece is a word that may go on. -/
  | word
  /-- Behind this quote, with the characters since then. -/
  | quoted (quote : Char) (cs : List Char)
  /-- Behind a backslash as well. -/
  | escaped (quote : Char) (cs : List Char)
  /-- In a template, behind a dollar sign. -/
  | dollar (cs : List Char)
  | slash
  /-- In a comment that ends with the line. -/
  | lineComment
  /-- In a comment that ends with a star and a slash, behind a star or not. -/
  | blockComment (star : Bool)
  /-- In a pattern, perhaps within a set of characters, perhaps behind a backslash. -/
  | pattern (inSet escaped : Bool)

/-- Within quotes of any kind. -/
def Mode.isQuoted : Mode → Bool
  | .quoted _ _ => true
  | .escaped _ _ => true
  | .dollar _ => true
  | _ => false

structure State where
  mode : Mode := .plain
  /-- The last piece is on top. -/
  stack : List Item := []

def isLineEnd (c : Char) : Bool := c == '\n' || c == '\r' || c == '\u2028' || c == '\u2029'

def isOpening (c : Char) : Bool := c == '(' || c == '[' || c == '\x7b'

/-- The bracket that a closing one belongs to. -/
def openingOf (c : Char) : Option Char :=
  if c = ')' then some '(' else if c = ']' then some '[' else if c = '\x7d' then some '\x7b'
  else none

/-! ### Brackets -/

/-- The pieces above the last open bracket, that bracket, and the stack below it. -/
def unwind (above : List Piece) : List Item → Option (List Piece × Char × List Item)
  | [] => none
  | .piece p :: stack => unwind (p :: above) stack
  | .opened bracket :: stack => some (above, bracket, stack)

/-- Makes a group of what stands above the last open bracket, which must be the given one. A
template goes on behind the code in it. -/
def close (bracket : Char) (stack : List Item) : Option State :=
  (unwind [] stack).bind fun (above, opening, below) =>
    if opening = bracket then some { stack := .piece (.group bracket above) :: below }
    else if opening = '\x60' ∧ bracket = '\x7b' then
      some { mode := .quoted '\x60' [], stack := .piece (.group '\x60' above) :: below }
    else none

/-! ### Slashes -/

/-- A sign that an operand follows. -/
def opensOperand (c : Char) : Bool :=
  ['=', ',', ';', ':', '?', '&', '|', '*', '%', '^', '~'].contains c

/-- An open bracket or such a sign: no operand ends with it. -/
def Item.precedesOperand : Item → Bool
  | .opened _ => true
  | .piece (.sign c) => opensOperand c
  | .piece _ => false

def Item.isOpened : Item → Bool
  | .opened _ => true
  | .piece _ => false

def Item.isDot : Item → Bool
  | .piece (.sign c) => c == '.'
  | _ => false

def Item.isAmong (words : List String) : Item → Bool
  | .piece (.word w) => words.contains w
  | _ => false

/-- Behind these items an operand may begin. -/
def atOperand (stack : List Item) : Bool := stack.head?.all Item.precedesOperand

/-- Whether a slash behind these items divides, as it does behind an operand. There is no answer
where a word, a sign or a group can be the end of an operand and need not. -/
def divides : List Item → Option Bool
  | .piece (.word w) :: below =>
    if ["return", "typeof", "instanceof", "in", "new", "delete", "void", "throw", "case", "do",
      "else"].contains w then (if below.head?.any Item.isDot then none else some false)
    else if ["of", "yield", "await", "break", "continue", "debugger"].contains w
      || below.head?.any (Item.isAmong ["break", "continue"]) then none
    else some true
  | .piece (.quoted _) :: _ => some true
  | .piece .literal :: _ => some true
  | .piece (.group bracket _) :: below =>
    if bracket == '\x7b' || bracket == '('
      && below.head?.any (Item.isAmong ["if", "while", "for", "with", "await"]) then none
    else some true
  | .piece (.sign c) :: below => if opensOperand c || atOperand below then some false else none
  | .opened _ :: _ => some false
  | [] => some false

/-! ### Steps -/

/-- Ends a text in quotes. -/
def quotedPiece (cs : List Char) : Piece :=
  if cs.contains '\\' then .literal else .quoted (String.ofList cs)

/-- Takes a character between quotes. Only a template, between backticks, may have more than one
line and code in it. -/
def stepQuoted (quote : Char) (cs : List Char) (stack : List Item) (c : Char) : Option State :=
  if c = quote then some { stack := .piece (quotedPiece cs) :: stack }
  else if c = '\\' then some { mode := .escaped quote cs, stack }
  else if quote = '\x60' ∧ c = '$' then some { mode := .dollar cs, stack }
  else if quote ≠ '\x60' ∧ (c = '\n' ∨ c = '\r') then none
  else some { mode := .quoted quote (cs ++ [c]), stack }

/-- Takes a character of a pattern. -/
def stepPattern (inSet escaped : Bool) (stack : List Item) (c : Char) : Option State :=
  if isLineEnd c then none
  else if escaped then some { mode := .pattern inSet false, stack }
  else if c = '\\' then some { mode := .pattern inSet true, stack }
  else if inSet then some { mode := .pattern (c != ']') false, stack }
  else if c = '/' then some { stack := .piece .literal :: stack }
  else some { mode := .pattern (c == '[') false, stack }

/-- Takes a character that belongs to no word. -/
def stepSign (stack : List Item) (c : Char) : Option State :=
  if isSpace c then some { stack }
  else if c = '\'' ∨ c = '"' ∨ c = '\x60' then some { mode := .quoted c [], stack }
  else if c = '/' then some { mode := .slash, stack }
  else if c = '\\' then none
  else if isOpening c then some { stack := .opened c :: stack }
  else
    match openingOf c with
    | some bracket => close bracket stack
    | none => some { stack := .piece (.sign c) :: stack }

def stepPlain (stack : List Item) (c : Char) : Option State :=
  if isWordChar c then some { mode := .word, stack := .piece (.word (.singleton c)) :: stack }
  else stepSign stack c

/-- Takes one character. -/
def step (s : State) (c : Char) : Option State :=
  match s.mode with
  | .plain => stepPlain s.stack c
  | .word =>
    if isWordChar c then
      match s.stack with
      | .piece (.word w) :: stack => some { s with stack := .piece (.word (w.push c)) :: stack }
      | _ => none
    else stepSign s.stack c
  | .quoted quote cs => stepQuoted quote cs s.stack c
  | .escaped quote cs => some { s with mode := .quoted quote (cs ++ ['\\', c]) }
  | .dollar cs =>
    if c = '\x7b' then some { stack := .opened '\x60' :: .piece (quotedPiece cs) :: s.stack }
    else stepQuoted '\x60' (cs ++ ['$']) s.stack c
  | .slash =>
    if c = '/' then some { s with mode := .lineComment }
    else if c = '*' then some { s with mode := .blockComment false }
    else
      match divides s.stack with
      | some true => stepPlain (.piece (.sign '/') :: s.stack) c
      | some false => stepPattern false false s.stack c
      | none => none
  | .lineComment => some (if isLineEnd c then { s with mode := .plain } else s)
  | .blockComment star =>
    some { s with mode := if star && c == '/' then .plain else .blockComment (c == '*') }
  | .pattern inSet escaped => stepPattern inSet escaped s.stack c

def run (s : State) (cs : List Char) : Option State := cs.foldlM step s

/-- The pieces on a stack without open brackets, the first in front. -/
def piecesOf (above : List Piece) : List Item → Option (List Piece)
  | [] => some above
  | .piece p :: stack => piecesOf (p :: above) stack
  | .opened _ :: _ => none

/-- The text ends where a piece may end. -/
def State.isReady (s : State) : Bool :=
  match s.mode with
  | .plain => true
  | .word => true
  | _ => false

/-- The pieces of a text, if it can be read and every bracket, quote and comment is closed. -/
def read (t : String) : Option (List Piece) :=
  ((run {} t.toList).filter State.isReady).bind fun s => piecesOf [] s.stack

/-! ### Texts without slashes -/

def Mode.isSlash : Mode → Bool
  | .slash => true
  | _ => false

/-- Takes one character, but none behind a slash: what it does then may depend on what stands
before the text. -/
def stepAnywhere (s : State) (c : Char) : Option State :=
  if s.mode.isSlash then none else step s c

def runAnywhere (s : State) (cs : List Char) : Option State := cs.foldlM stepAnywhere s

/-- The pieces of a text that has no slash outside quotes. -/
def readAnywhere (t : String) : Option (List Piece) :=
  ((runAnywhere {} t.toList).filter State.isReady).bind fun s => piecesOf [] s.stack

/-! ## Running -/

@[simp] theorem run_nil (s : State) : run s [] = some s := rfl

theorem run_cons (s : State) (c : Char) (cs : List Char) :
    run s (c :: cs) = (step s c).bind (run · cs) := List.foldlM_cons

theorem run_append (s : State) (cs ds : List Char) :
    run s (cs ++ ds) = (run s cs).bind (run · ds) := List.foldlM_append

theorem run_append_of_eq {s s' : State} {cs : List Char} (h : run s cs = some s')
    (ds : List Char) : run s (cs ++ ds) = run s' ds := by
  rw [run_append, h, Option.bind_some]

theorem stepAnywhere_eq_some {s s' : State} {c : Char} :
    stepAnywhere s c = some s' ↔ s.mode.isSlash = false ∧ step s c = some s' := by
  unfold stepAnywhere
  cases s.mode.isSlash <;> simp

/-- White space between pieces changes nothing. -/
theorem run_spaces {cs : List Char} (h : ∀ c ∈ cs, isSpace c = true ∧ isWordChar c = false)
    (stack : List Item) : run { stack } cs = some { stack } := by
  induction cs with
  | nil => rfl
  | cons c cs ih =>
    obtain ⟨⟨hspace, hword⟩, hcs⟩ := List.forall_mem_cons.mp h
    have hstep : step { stack } c = some { stack } := by
      simp [step, stepPlain, stepSign, hspace, hword]
    rw [run_cons, hstep]
    exact ih hcs

/-- The reader with more below its stack. -/
def State.over (s : State) (below : List Item) : State := { s with stack := s.stack ++ below }

theorem unwind_append {above ps : List Piece} {stack rest : List Item} {bracket : Char}
    (h : unwind above stack = some (ps, bracket, rest)) (below : List Item) :
    unwind above (stack ++ below) = some (ps, bracket, rest ++ below) := by
  induction stack generalizing above with
  | nil => cases h
  | cons item stack ih =>
    cases item with
    | piece p => exact ih h
    | opened b =>
      cases h
      rfl

theorem close_append {bracket : Char} {stack : List Item} {s : State}
    (h : close bracket stack = some s) (below : List Item) :
    close bracket (stack ++ below) = some (s.over below) := by
  unfold close at h ⊢
  obtain ⟨⟨above, opening, rest⟩, hunwind, h⟩ := Option.bind_eq_some_iff.mp h
  rw [unwind_append hunwind, Option.bind_some]
  simp only at h ⊢
  split_ifs at h ⊢ <;> cases h <;> rfl

theorem stepQuoted_append {quote : Char} {cs : List Char} {stack : List Item} {c : Char} {s : State}
    (h : stepQuoted quote cs stack c = some s) (below : List Item) :
    stepQuoted quote cs (stack ++ below) c = some (s.over below) := by
  unfold stepQuoted at h ⊢
  split_ifs at h ⊢ <;> cases h <;> rfl

theorem stepPattern_append {inSet escaped : Bool} {stack : List Item} {c : Char} {s : State}
    (h : stepPattern inSet escaped stack c = some s) (below : List Item) :
    stepPattern inSet escaped (stack ++ below) c = some (s.over below) := by
  unfold stepPattern at h ⊢
  split_ifs at h ⊢ <;> cases h <;> rfl

theorem stepSign_append {stack : List Item} {c : Char} {s : State}
    (h : stepSign stack c = some s) (below : List Item) :
    stepSign (stack ++ below) c = some (s.over below) := by
  unfold stepSign at h ⊢
  split_ifs at h ⊢
  · cases h; rfl
  · cases h; rfl
  · cases h; rfl
  · cases h; rfl
  · cases hbracket : openingOf c with
    | none =>
      rw [hbracket] at h
      cases h
      rfl
    | some bracket =>
      rw [hbracket] at h
      exact close_append h below

theorem stepPlain_append {stack : List Item} {c : Char} {s : State}
    (h : stepPlain stack c = some s) (below : List Item) :
    stepPlain (stack ++ below) c = some (s.over below) := by
  unfold stepPlain at h ⊢
  split_ifs at h ⊢
  · cases h; rfl
  · exact stepSign_append h below

theorem atOperand_append {below : List Item} (h : atOperand below = true) (stack : List Item) :
    atOperand (stack ++ below) = atOperand stack := by
  cases stack with
  | nil => exact h
  | cons item stack => rfl

theorem any_head?_append {p : Item → Bool}
    (hp : ∀ item, item.precedesOperand = true → p item = false) {below : List Item}
    (h : atOperand below = true) (stack : List Item) :
    (stack ++ below).head?.any p = stack.head?.any p := by
  cases stack with
  | cons item stack => rfl
  | nil =>
    cases below with
    | nil => rfl
    | cons item below => exact hp item h

theorem isDot_of_precedesOperand {item : Item} (h : item.precedesOperand = true) :
    item.isDot = false := by
  cases item with
  | opened b => rfl
  | piece p =>
    cases p with
    | sign c =>
      rw [Item.isDot, beq_eq_false_iff_ne]
      rintro rfl
      cases h
    | _ => rfl

theorem isAmong_of_precedesOperand (words : List String) {item : Item}
    (h : item.precedesOperand = true) : item.isAmong words = false := by
  cases item with
  | opened b => rfl
  | piece p =>
    cases p with
    | word w => cases h
    | _ => rfl

/-- Where an operand may begin, what stands before it does not count. -/
theorem divides_append {below : List Item} (h : atOperand below = true) (stack : List Item) :
    divides (stack ++ below) = divides stack := by
  have hdot := any_head?_append (fun _ => isDot_of_precedesOperand) h
  have hword (words : List String) :=
    any_head?_append (fun _ => isAmong_of_precedesOperand words) h
  cases stack with
  | nil =>
    cases below with
    | nil => rfl
    | cons item below =>
      cases item with
      | opened b => rfl
      | piece p =>
        have hp : (Item.piece p).precedesOperand = true := h
        cases p with
        | sign c =>
          rw [Item.precedesOperand] at hp
          rw [List.nil_append, divides, hp]
          rfl
        | _ => cases hp
  | cons item stack =>
    cases item with
    | opened b => rfl
    | piece p => cases p <;> simp only [List.cons_append, divides, atOperand_append h, hdot, hword]

/-- A step that the reader takes, it takes whatever stands below, unless it has to look there. -/
theorem step_over {s s' : State} {c : Char} (h : step s c = some s') {below : List Item}
    (hbelow : s.mode.isSlash = false ∨ atOperand below = true) :
    step (s.over below) c = some (s'.over below) := by
  obtain ⟨mode, stack⟩ := s
  cases mode with
  | plain => exact stepPlain_append h below
  | word =>
    simp only [step, State.over] at h ⊢
    split_ifs at h ⊢
    · split at h
      · cases h; rfl
      · cases h
    · exact stepSign_append h below
  | quoted quote cs => exact stepQuoted_append h below
  | escaped quote cs => cases h; rfl
  | dollar cs =>
    simp only [step, State.over] at h ⊢
    split_ifs at h ⊢
    · cases h; rfl
    · exact stepQuoted_append h below
  | slash =>
    have hsame : divides (stack ++ below) = divides stack := by
      rcases hbelow with hslash | hbelow
      · cases hslash
      · exact divides_append hbelow stack
    simp only [step, State.over, hsame] at h ⊢
    split_ifs at h ⊢
    · cases h; rfl
    · cases h; rfl
    · split at h
      · exact stepPlain_append h below
      · exact stepPattern_append h below
      · cases h
  | lineComment =>
    simp only [step, State.over] at h ⊢
    split_ifs at h ⊢ <;> cases h <;> rfl
  | blockComment star => cases h; rfl
  | pattern inSet escaped => exact stepPattern_append h below

theorem run_over_of_runAnywhere {s s' : State} {cs : List Char} (h : runAnywhere s cs = some s')
    (below : List Item) : run (s.over below) cs = some (s'.over below) := by
  induction cs generalizing s with
  | nil =>
    cases h
    rfl
  | cons c cs ih =>
    obtain ⟨s₁, hstep, hrun⟩ := Option.bind_eq_some_iff.mp h
    obtain ⟨hslash, hstep⟩ := stepAnywhere_eq_some.mp hstep
    rw [run_cons, step_over hstep (Or.inl hslash), Option.bind_some]
    exact ih hrun

/-! ## Putting pieces on a stack -/

/-- The stack with more pieces on it, the last on top. -/
def push (ps : List Piece) (stack : List Item) : List Item := (ps.map .piece).reverse ++ stack

@[simp] theorem push_nil (stack : List Item) : push [] stack = stack := rfl

theorem push_append (ps qs : List Piece) (stack : List Item) :
    push (ps ++ qs) stack = push qs (push ps stack) := by
  simp [push]

theorem unwind_push (ps : List Piece) (bracket : Char) (stack : List Item) (above : List Piece) :
    unwind above (push ps (.opened bracket :: stack)) = some (ps ++ above, bracket, stack) := by
  induction ps using List.reverseRecOn generalizing above with
  | nil => rfl
  | append_singleton ps p ih =>
    rw [push_append]
    exact (ih (p :: above)).trans (by simp)

theorem close_push (ps : List Piece) (bracket : Char) (stack : List Item) :
    close bracket (push ps (.opened bracket :: stack))
      = some { stack := .piece (.group bracket ps) :: stack } := by
  unfold close
  rw [unwind_push]
  simp

theorem piecesOf_push (ps above : List Piece) :
    piecesOf above (push ps []) = some (ps ++ above) := by
  induction ps using List.reverseRecOn generalizing above with
  | nil => rfl
  | append_singleton ps p ih =>
    rw [push_append]
    exact (ih (p :: above)).trans (by simp)

/-- Where a piece may end, only a word character can tell a word that goes on from a piece that
begins. -/
theorem run_of_isReady {s : State} (hs : s.isReady = true) {c : Char}
    (hc : isWordChar c = false) (cs : List Char) :
    run s (c :: cs) = run { stack := s.stack } (c :: cs) := by
  obtain ⟨mode, stack⟩ := s
  have hstep : step { mode, stack } c = step { stack } c := by
    cases mode with
    | plain => rfl
    | word => simp [step, stepPlain, hc]
    | _ => cases hs
  rw [run_cons, run_cons, hstep]

end Script
end ModelScribe
