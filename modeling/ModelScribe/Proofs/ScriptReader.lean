-- A reader of classes that knows nothing of marks. It takes the pieces of a
-- text, finds each word `class`, and goes over the group in braces behind it,
-- member by member. A field ends at its semicolon, everything else at its
-- semicolon or at the braces of its body. Braces that belong to a type are
-- told from those of a body by the sign before them.
import ModelScribe.Proofs.ClassText

namespace ModelScribe

open Text

namespace Script

/-! ## Kinds of pieces -/

/-- The semicolon that ends a statement or a field. -/
def Piece.isEnd : Piece → Bool
  | .sign c => c == ';'
  | _ => false

/-- What a group in braces holds. -/
def Piece.inBraces : Piece → Option (List Piece)
  | .group '\x7b' items => some items
  | _ => none

/-- The word that opens a class. -/
def Piece.isClass : Piece → Bool
  | .word w => w == "class"
  | _ => false

/-! ## Types -/

/-- The sign that stands last. That of an arrow counts as the equals sign that it begins with. -/
def lastSign (last : Option Char) : Piece → Option Char
  | .sign c => if c == '>' && last == some '=' then last else some c
  | _ => none

/-- Behind such a sign braces belong to a type. -/
def awaitsType (last : Option Char) : Bool :=
  last.any fun c => [':', '|', '&', '<', ',', '?', '='].contains c

/-- Goes on over a piece of a type, up to a semicolon or to braces that are no part of it. -/
def typeStep (last : Option Char) (p : Piece) : Option (Option Char) :=
  if p.isEnd || (p.inBraces.isSome && !awaitsType last) then none else some (lastSign last p)

/-- Behind this sign the pieces are types, and end where a type may end. -/
def isTypeBehind (last : Option Char) (ps : List Piece) : Bool :=
  (ps.foldlM typeStep last).any (!awaitsType ·)

/-- The first braces that belong to no type, behind this sign. -/
def blockBehind (last : Option Char) : List Piece → Option (List Piece)
  | [] => none
  | p :: rest =>
    match p.inBraces with
    | some items => if awaitsType last then blockBehind none rest else some items
    | none => blockBehind (lastSign last p) rest

/-! ## Statements -/

/-- `super(…)`, a text in a field, a field spread with names behind it, or any other code. -/
def statementOf : List Piece → Statement
  | [.word "super", .group '(' _] => .callSuper
  | [.word "this", .sign '.', .word field, .sign '=', .quoted s] => .setText field s
  | [.word "this", .sign '.', .word target, .sign '=', .group '['
      (.sign '.' :: .sign '.' :: .sign '.' :: .word "this" :: .sign '.' :: .word source
        :: .sign ',' :: items)] =>
    ((names items).map (.spread target source)).getD .verbatim
  | _ => .verbatim

/-- The statements in a list of pieces; the first has begun with the given ones. -/
def statementsFrom (begun : List Piece) : List Piece → List Statement
  | [] => if begun.isEmpty then [] else [statementOf begun]
  | p :: rest =>
    if p.isEnd then (if begun.isEmpty then [] else [statementOf begun]) ++ statementsFrom [] rest
    else statementsFrom (begun ++ [p]) rest

def statements (ps : List Piece) : List Statement := statementsFrom [] ps

/-! ## Members -/

/-- What follows the first equals sign that is not the head of an arrow. -/
def valueOf : List Piece → Option (List Piece)
  | [] => none
  | .sign '=' :: .sign '>' :: rest => valueOf rest
  | .sign '=' :: rest => some rest
  | _ :: rest => valueOf rest

/-- The field that words and what follows them declare for every object. -/
def fieldOf (words : List String) (ps : List Piece) : Option (String × FieldValue) :=
  if "static" ∈ words.dropLast then none
  else words.getLast?.map fun name => (name, ((valueOf ps).map FieldValue.ofPieces).getD .code)

/-- The member that the reader is in the middle of. -/
inductive Member where
  /-- Words and nothing else so far. -/
  | head (words : List String)
  /-- A field: its words and the pieces behind them. -/
  | field (words : List String) (ps : List Piece)
  /-- Something with arguments, behind them and this sign. -/
  | call (isConstructor : Bool) (last : Option Char)
  | other

structure Scan where
  member : Member := .head []
  fields : List (String × FieldValue) := []
  /-- The statements of each constructor. -/
  bodies : List (List Statement) := []

namespace Scan

/-- Between two members. -/
def next (s : Scan) : Scan := { s with member := .head [] }

def declare (s : Scan) (words : List String) (ps : List Piece) : Scan :=
  { s.next with fields := s.fields ++ (fieldOf words ps).toList }

/-- Takes one piece in the body of a class. -/
def step (s : Scan) (p : Piece) : Scan :=
  match s.member with
  | .head words =>
    match p with
    | .word w => { s with member := .head (words ++ [w]) }
    | .sign _ =>
      if p.isEnd then s.declare words []
      else if words.isEmpty then { s with member := .other }
      else { s with member := .field words [p] }
    | .group '(' _ => { s with member := .call (words.getLast? == some "constructor") none }
    | .group '\x7b' _ => s.next
    | _ => { s with member := .other }
  | .field words ps =>
    if p.isEnd then s.declare words ps else { s with member := .field words (ps ++ [p]) }
  | .call isConstructor last =>
    if p.isEnd then s.next
    else
      match p.inBraces with
      | some items =>
        if awaitsType last then { s with member := .call isConstructor none }
        else { s.next with bodies := s.bodies ++ if isConstructor then [statements items] else [] }
      | none => { s with member := .call isConstructor (lastSign last p) }
  | .other => if p.isEnd || p.inBraces.isSome then s.next else s

def run (s : Scan) (ps : List Piece) : Scan := ps.foldl step s

end Scan

/-! ## Classes -/

/-- Behind such a piece the name of a supertype is complete. -/
def Piece.endsName : Piece → Bool
  | .word w => w == "implements"
  | .sign c => c == '<'
  | p => p.inBraces.isSome

/-- The name of a supertype, which is empty where an expression stands for it. -/
def superName : List Piece → String
  | .word s :: p :: _ => if p.endsName then s else ""
  | _ => ""

/-- The supertype that follows the name of a class. -/
def parentOf : List Piece → Option String
  | .word w :: rest => if w == "extends" then some (superName rest) else none
  | _ => none

/-- The class that stands behind its word, up to the braces of its body. -/
def classBehind : List Piece → Option ClassText
  | .word name :: rest =>
    (blockBehind none rest).map fun items =>
      let scan := Scan.run {} items
      { name, parent := parentOf rest, fields := scan.fields, body := scan.bodies.head? }
  | _ => none

/-- All classes in a list of pieces. -/
def classes : List Piece → List ClassText
  | [] => []
  | p :: rest => if p.isClass then (classBehind rest).toList ++ classes rest else classes rest

/-- What stands between the arguments of a member and its body or semicolon, or between the name
of a class and its body. -/
def Between (ps : List Piece) : Prop := isTypeBehind none ps = true

theorem exists_of_between {ps : List Piece} (h : Between ps) :
    ∃ last, ps.foldlM typeStep none = some last ∧ awaitsType last = false := by
  unfold Between isTypeBehind at h
  rw [Option.any_eq_true] at h
  simpa using h

theorem between_of_foldlM {ps : List Piece} {last : Option Char}
    (h : ps.foldlM typeStep none = some last) (hlast : awaitsType last = false) : Between ps := by
  unfold Between isTypeBehind
  rw [h, Option.any_some, hlast]
  rfl

theorem lastSign_of_inBraces {p : Piece} {items : List Piece} (h : p.inBraces = some items)
    (last : Option Char) : lastSign last p = none := by
  cases p with
  | group b ps => rfl
  | _ => cases h

theorem typeStep_eq_some {last next : Option Char} {p : Piece} :
    typeStep last p = some next
      ↔ p.isEnd = false ∧ (p.inBraces = none ∨ awaitsType last = true)
        ∧ lastSign last p = next := by
  unfold typeStep
  cases p.isEnd <;> cases p.inBraces <;> cases awaitsType last <;> simp

/-- What follows the words of a field: nothing, or a sign and more, without a semicolon. -/
structure FieldTail (ps : List Piece) : Prop where
  begins : ps = [] ∨ ∃ c rest, ps = .sign c :: rest
  noEnd : ∀ p ∈ ps, p.isEnd = false

/-- The pieces are whole members. They declare these fields for every object and hold
constructors with these bodies. -/
def Skims (ps : List Piece) (fields : List (String × FieldValue)) (bodies : List (List Statement)) :
    Prop :=
  ∀ fs bs, Scan.run { fields := fs, bodies := bs } ps
    = { fields := fs ++ fields, bodies := bs ++ bodies }

namespace Scan

theorem run_append (s : Scan) (ps qs : List Piece) : run s (ps ++ qs) = run (run s ps) qs :=
  List.foldl_append

theorem run_words (words more : List String) (fs : List (String × FieldValue))
    (bs : List (List Statement)) :
    run { member := .head words, fields := fs, bodies := bs } (more.map .word)
      = { member := .head (words ++ more), fields := fs, bodies := bs } := by
  induction more generalizing words with
  | nil => rw [List.append_nil]; rfl
  | cons w more ih => exact (ih (words ++ [w])).trans (by simp)

theorem run_field {ps : List Piece} (h : ∀ p ∈ ps, p.isEnd = false) (words : List String)
    (begun : List Piece) (fs : List (String × FieldValue)) (bs : List (List Statement)) :
    run { member := .field words begun, fields := fs, bodies := bs } ps
      = { member := .field words (begun ++ ps), fields := fs, bodies := bs } := by
  induction ps generalizing begun with
  | nil => rw [List.append_nil]; rfl
  | cons p ps ih =>
    obtain ⟨hp, hps⟩ := List.forall_mem_cons.mp h
    have hstep : step { member := .field words begun, fields := fs, bodies := bs } p
        = { member := .field words (begun ++ [p]), fields := fs, bodies := bs } := by
      simp [step, hp]
    exact (congrArg (run · ps) hstep).trans ((ih hps (begun ++ [p])).trans (by simp))

/-- Over the pieces of a type the member goes on. -/
theorem run_call {ps : List Piece} {last last' : Option Char}
    (h : ps.foldlM typeStep last = some last') (isConstructor : Bool)
    (fs : List (String × FieldValue)) (bs : List (List Statement)) :
    run { member := .call isConstructor last, fields := fs, bodies := bs } ps
      = { member := .call isConstructor last', fields := fs, bodies := bs } := by
  induction ps generalizing last with
  | nil =>
    obtain rfl := Option.some.inj h
    rfl
  | cons p ps ih =>
    obtain ⟨next, hstep, hrest⟩ := Option.bind_eq_some_iff.mp h
    obtain ⟨hend, hawaits, rfl⟩ := typeStep_eq_some.mp hstep
    have hscan : step { member := .call isConstructor last, fields := fs, bodies := bs } p
        = { member := .call isConstructor (lastSign last p), fields := fs, bodies := bs } := by
      cases hbraces : p.inBraces with
      | none => simp [step, hend, hbraces]
      | some inner =>
        have hawaits : awaitsType last = true := hawaits.resolve_left (by simp [hbraces])
        simp [step, hend, hbraces, hawaits, lastSign_of_inBraces hbraces]
    exact (congrArg (run · ps) hscan).trans (ih hrest)

end Scan

namespace Skims

variable {ps qs : List Piece} {fs gs : List (String × FieldValue)} {bs cs : List (List Statement)}

theorem nil : Skims [] [] [] := by
  intro fs bs
  simp [Scan.run]

theorem append (hp : Skims ps fs bs) (hq : Skims qs gs cs) :
    Skims (ps ++ qs) (fs ++ gs) (bs ++ cs) := by
  intro fields bodies
  rw [Scan.run_append, hp, hq, List.append_assoc, List.append_assoc]

/-- Words, what follows them, and a semicolon are a field. -/
theorem field (words : List String) (name : String) (h : FieldTail ps) :
    Skims ((words ++ [name]).map .word ++ (ps ++ [.sign ';']))
      (if "static" ∈ words then []
      else [(name, ((valueOf ps).map FieldValue.ofPieces).getD .code)]) [] := by
  have hfield : (fieldOf (words ++ [name]) ps).toList
      = if "static" ∈ words then []
        else [(name, ((valueOf ps).map FieldValue.ofPieces).getD .code)] := by
    unfold fieldOf
    rw [List.dropLast_concat, List.getLast?_concat]
    split <;> rfl
  intro fields bodies
  have hend : (Piece.sign ';').isEnd = true := rfl
  rw [Scan.run_append, Scan.run_words, List.nil_append, ← hfield, List.append_nil]
  rcases h.begins with rfl | ⟨c, rest, rfl⟩
  · simp [Scan.run, Scan.step, Scan.declare, Scan.next, hend]
  · obtain ⟨hc, hrest⟩ := List.forall_mem_cons.mp h.noEnd
    have hstep : Scan.step { member := .head (words ++ [name]), fields, bodies } (.sign c)
        = { member := .field (words ++ [name]) [.sign c], fields, bodies } := by
      simp [Scan.step, hc]
    have hrun := Scan.run_field hrest (words ++ [name]) [.sign c] fields bodies
    rw [Scan.run_append]
    have hfirst : Scan.run { member := .head (words ++ [name]), fields, bodies } (.sign c :: rest)
        = Scan.run { member := .field (words ++ [name]) [.sign c], fields, bodies } rest :=
      congrArg (Scan.run · rest) hstep
    rw [hfirst, hrun]
    simp [Scan.run, Scan.step, Scan.declare, Scan.next, hend]

/-- Words and arguments up to a semicolon declare nothing. -/
theorem signature (words : List String) (args : List Piece) (h : Between ps) :
    Skims (words.map .word ++ (.group '(' args :: (ps ++ [.sign ';']))) [] [] := by
  intro fields bodies
  obtain ⟨last, hlast, -⟩ := exists_of_between h
  have hcall : Scan.run { member := .head words, fields, bodies }
      (.group '(' args :: (ps ++ [.sign ';']))
      = Scan.run { member := .call (words.getLast? == some "constructor") none, fields, bodies }
          (ps ++ [.sign ';']) := rfl
  rw [Scan.run_append, Scan.run_words, List.nil_append, hcall, Scan.run_append,
    Scan.run_call hlast]
  simp [Scan.run, Scan.step, Scan.next, Piece.isEnd]

/-- Words, arguments and a body declare nothing. They are a constructor if they say so. -/
theorem block (words : List String) (args items : List Piece) (h : Between ps) :
    Skims (words.map .word ++ (.group '(' args :: (ps ++ [.group '\x7b' items]))) []
      (if words.getLast? == some "constructor" then [statements items] else []) := by
  intro fields bodies
  obtain ⟨last, hlast, hawaits⟩ := exists_of_between h
  have hcall : Scan.run { member := .head words, fields, bodies }
      (.group '(' args :: (ps ++ [.group '\x7b' items]))
      = Scan.run { member := .call (words.getLast? == some "constructor") none, fields, bodies }
          (ps ++ [.group '\x7b' items]) := rfl
  rw [Scan.run_append, Scan.run_words, List.nil_append, hcall, Scan.run_append,
    Scan.run_call hlast]
  simp [Scan.run, Scan.step, Scan.next, Piece.isEnd, Piece.inBraces, hawaits]

end Skims

/-! ## Classes one by one -/

end Script
end ModelScribe
