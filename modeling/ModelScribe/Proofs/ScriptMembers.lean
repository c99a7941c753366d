-- The members of a class, read by their characters. Each text of a descriptor
-- has to be something that the reader takes as one: a name, a type, a value.
-- Then every member is read as what its descriptor says, in every layout.
import ModelScribe.Proofs.ScriptDocuments
import ModelScribe.Proofs.ScriptReader

namespace ModelScribe

open Text

/-! ## Legible descriptors -/

namespace Script

/-- The text can be read, and every bracket, quote and comment is closed. -/
def isClosed (t : String) : Bool := (read t).isSome

/-- The same of a name, which has no slash outside quotes and can be read wherever it stands. -/
def isLabel (t : String) : Bool := (readAnywhere t).isSome

/-- No line ends in these characters but within quotes or brackets, where no field ends with it. -/
def staysOnLine (s : State) : List Char → Bool
  | [] => true
  | c :: cs =>
    (!isLineEnd c || s.mode.isQuoted || s.stack.any Item.isOpened)
      && (step s c).any fun s => staysOnLine s cs

def isOneLine (t : String) : Bool := staysOnLine {} t.toList

/-- The text can be read where an operand may begin, and all its pieces are as asked. -/
def readsAs (isFine : List Piece → Bool) (t : String) : Bool :=
  isOneLine t && (read t).any isFine

/-- The type of a field: no semicolon ends it and no value begins in it. -/
def isType : String → Bool := readsAs fun ps => ps.all (!·.isEnd) && (valueOf ps).isNone

/-- The type of a result: neither a semicolon nor the braces of a body end it. -/
def isResult : String → Bool := readsAs (isTypeBehind (some ':'))

/-- The value of a field: no semicolon ends it, and it makes no arrow of the equals sign. -/
def isValue : String → Bool :=
  readsAs fun ps =>
    ps.all (!·.isEnd) && match ps with
      | .sign '>' :: _ => false
      | _ => true

/-- The word, unless the piece is none or makes a member static. -/
def modifierOf : Piece → Option String
  | .word w => if w = "static" then none else some w
  | _ => none

/-- Words that may stand before the name of a member. -/
def isModifier (t : String) : Bool :=
  isOneLine t && (readAnywhere t).any fun ps => ps.all fun p => (modifierOf p).isSome

/-- The name of a member. -/
def isMemberName (t : String) : Bool := isIdentifier t && t != "constructor"

end Script

open Script

/-- An argument or parameter that is read as one. -/
def Property.LegibleArg (p : Property) : Prop :=
  isLabel p.name = true ∧ isClosed p.type = true ∧ ∀ s ∈ p.defaultValue, isClosed s = true

/-- A member of a class that is read as its descriptor says. -/
def Property.Legible (p : Property) : Prop :=
  isMemberName p.name = true ∧ isModifier p.modifier.text = true ∧ isType p.type = true
  ∧ (p.usesAccessors = true → isResult p.type = true)
  ∧ (∀ s ∈ p.defaultValue, isValue s = true)
  ∧ (∀ s ∈ nonBlank p.getterBody, isClosed s = true)
  ∧ ∀ s ∈ nonBlank p.setterBody, isClosed s = true

def Method.Legible (m : Method) : Prop :=
  isMemberName m.name = true ∧ isModifier m.modifier.text = true ∧ isResult m.type = true
  ∧ (∀ a ∈ m.args, a.isNamed = true → a.LegibleArg)
  ∧ isClosed m.body = true

/-- The fields that the options name. -/
def Conventions.Legible (v : Conventions) : Prop :=
  (∀ f ∈ v.discriminator, isIdentifier f = true)
  ∧ isLabel v.dirtyField = true ∧ isLabel v.updatedField = true

instance (p : Property) : Decidable p.LegibleArg := inferInstanceAs (Decidable (_ ∧ _))

instance (p : Property) : Decidable p.Legible := inferInstanceAs (Decidable (_ ∧ _))

instance (m : Method) : Decidable m.Legible := inferInstanceAs (Decidable (_ ∧ _))

instance (v : Conventions) : Decidable v.Legible := inferInstanceAs (Decidable (_ ∧ _))

namespace Script

variable {d e : Doc} {ps qs : List Piece} {P : List Item → Prop}

/-! ## Texts -/

-- a pattern and a template with quotes in them, code in the template, and a comment
example : isClosed
    "x = /[\"/]/.test(a) ? a / 2 : \x60$\x7bb\x7d'\x60; // it's\n" = true := by
  decide +kernel

/-- In every layout the document is whole members of a class. They declare these fields for
every object and hold constructors with these bodies. -/
def Shows (d : Doc) (fields : List (String × FieldValue)) (bodies : List (List Statement)) : Prop :=
  ∃ ps, Settles d ps ∧ Skims ps fields bodies

namespace Shows

variable {fs gs : List (String × FieldValue)} {bs cs : List (List Statement)}

theorem nil : Shows [] [] [] := ⟨[], settles_nil, .nil⟩

theorem append (hd : Shows d fs bs) (he : Shows e gs cs) :
    Shows (d ++ e) (fs ++ gs) (bs ++ cs) := by
  obtain ⟨ps, hps, hskims⟩ := hd
  obtain ⟨qs, hqs, hskims'⟩ := he
  exact ⟨ps ++ qs, hps.append hqs, hskims.append hskims'⟩

end Shows

/-- Documents on lines of their own, with a line break before each. -/
def lined (ds : List Doc) : Doc := (ds.filter (!Doc.isBlank ·)).flatMap (Mark.line :: ·)

theorem lined_singleton {d : Doc} (h : d.isBlank = false) : lined [d] = .line :: d := by
  simp [lined, h]

/-- For the reader a joined document may as well begin with a line break. -/
theorem settles_join {ds : List Doc} (h : Settles (lined ds) ps) : Settles (Doc.join ds) ps := by
  unfold lined at h
  unfold Doc.join
  cases hkept : ds.filter (!Doc.isBlank ·) with
  | nil =>
    rw [hkept] at h
    exact h
  | cons d rest =>
    rw [hkept, List.flatMap_cons, List.cons_append] at h
    intro l stack
    have hline := settles_mark (m := .line) (by simp) l stack
    rw [Doc.intercalate_cons_flatMap, ← h l stack, Layout.chars_cons,
      run_append_of_eq (by simpa using hline)]
    rfl

theorem Shows.joined {ds : List Doc} {fs : List (String × FieldValue)}
    {bs : List (List Statement)} (h : Shows (lined ds) fs bs) : Shows (Doc.join ds) fs bs := by
  obtain ⟨ps, hps, hskims⟩ := h
  exact ⟨ps, settles_join hps, hskims⟩

/-- No document, no members. -/
theorem Shows.eq_nil {fs : List (String × FieldValue)} {bs : List (List Statement)}
    (h : Shows [] fs bs) : fs = [] ∧ bs = [] := by
  obtain ⟨ps, hps, hskims⟩ := h
  have hnone : ps = [] := by
    have hpush := hps .compact []
    simpa [push] using hpush
  subst hnone
  have hrun := hskims [] []
  simp only [Scan.run, List.foldl_nil, List.nil_append, Scan.mk.injEq, true_and] at hrun
  exact ⟨hrun.1.symm, hrun.2.symm⟩

theorem Settles.lined (h : Settles d ps) (hvisible : Doc.Visible d) : Settles (lined [d]) ps := by
  cases hblank : d.isBlank with
  | true =>
    rw [hvisible hblank] at h ⊢
    exact h
  | false =>
    rw [lined_singleton hblank]
    exact h.cons_mark (by simp)

theorem Shows.lined {fs : List (String × FieldValue)} {bs : List (List Statement)}
    (h : Shows d fs bs) (hvisible : Doc.Visible d) : Shows (lined [d]) fs bs := by
  obtain ⟨ps, hps, hskims⟩ := h
  exact ⟨ps, hps.lined hvisible, hskims⟩

theorem ReadsBehind.indented (h : ReadsBehind P d ps) :
    ReadsBehind P ([.tab, .tab] ++ d ++ [.line]) ps :=
  ReadsBehind.append_mark ((h.cons_mark (by simp)).cons_mark (by simp)) (by simp)

theorem Settles.indented (h : Settles d ps) : Settles ([.tab, .tab] ++ d ++ [.line]) ps := by
  have hline : Settles (d ++ [.line]) ps := by
    simpa using h.append (settles_mark (m := .line) (by simp))
  exact (hline.cons_mark (by simp)).cons_mark (by simp)

section calls

variable {w : List String} {args between items : List Piece} {body : Doc}

end calls

variable {v : Conventions} {p : Property}

end Script
end ModelScribe
