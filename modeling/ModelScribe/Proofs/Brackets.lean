-- The law of brackets. A document opens and closes its brackets in pieces that
-- stand far apart, with texts of the descriptors and line breaks in between.
-- None of it gets lost: a blank part that a join drops holds no bracket, and
-- every bracket that a declaration opens it closes itself. So where each text
-- of a program is balanced, its output is.
import ModelScribe.Proofs.Generation
import ModelScribe.Proofs.Wording

namespace ModelScribe

open Text

/-! ## Balanced texts -/

/-- The brackets that count. -/
inductive Brackets where
  /-- Round, square and curly ones. -/
  | all
  /-- Curly ones alone. -/
  | braces
  deriving DecidableEq, Repr

namespace Brackets

/-- The bracket that closes an opening one. -/
def closing (b : Brackets) (c : Char) : Option Char :=
  if c = '\x7b' then some '\x7d'
  else match b with
    | .all => if c = '(' then some ')' else if c = '[' then some ']' else none
    | .braces => none

def closes (b : Brackets) (c : Char) : Bool :=
  c = '\x7d' || match b with
    | .all => c = ')' || c = ']'
    | .braces => false

/-- One character more. The closing brackets that are due stand in a list, the next one first;
a closing bracket out of its turn leads nowhere. -/
def step (b : Brackets) (due : List Char) (c : Char) : Option (List Char) :=
  match b.closing c with
  | some e => some (e :: due)
  | none =>
    if b.closes c then
      match due with
      | [] => none
      | e :: due => if e = c then some due else none
    else some due

/-- The closing brackets that are due behind a text. -/
def run (b : Brackets) (due : List Char) (s : String) : Option (List Char) :=
  s.toList.foldlM b.step due

/-- The brackets of a text match: each one that it opens it closes again, in turn. -/
def Balanced (b : Brackets) (s : String) : Prop := b.run [] s = some []

instance (b : Brackets) (s : String) : Decidable (b.Balanced s) :=
  inferInstanceAs (Decidable (_ = _))

variable {b : Brackets}

theorem run_append (due : List Char) (s t : String) :
    b.run due (s ++ t) = (b.run due s).bind (b.run · t) := by
  unfold run
  rw [String.toList_append, List.foldlM_append]
  rfl

/-- What is due further out changes nothing. -/
theorem step_frame {due due' : List Char} {c : Char} (h : b.step due c = some due')
    (outer : List Char) : b.step (due ++ outer) c = some (due' ++ outer) := by
  unfold step at h ⊢
  cases hopen : b.closing c with
  | some e =>
    rw [hopen] at h
    rw [← Option.some.inj h]
    rfl
  | none =>
    rw [hopen] at h
    cases hclose : b.closes c with
    | false => simpa [hclose] using h
    | true =>
      cases due with
      | nil => simp [hclose] at h
      | cons e due =>
        by_cases he : e = c
        · simpa [hclose, he] using h
        · simp [hclose, he] at h

theorem foldlM_frame {due due' cs : List Char} (h : cs.foldlM b.step due = some due')
    (outer : List Char) : cs.foldlM b.step (due ++ outer) = some (due' ++ outer) := by
  induction cs generalizing due with
  | nil =>
    rw [Option.some.inj h]
    rfl
  | cons c cs ih =>
    rw [List.foldlM_cons] at h ⊢
    obtain ⟨mid, hmid, hrest⟩ := Option.bind_eq_some_iff.mp h
    rw [step_frame hmid outer]
    exact ih hrest

theorem Balanced.run_eq {s : String} (h : b.Balanced s) (due : List Char) :
    b.run due s = some due := foldlM_frame h due

theorem Balanced.append {s t : String} (hs : b.Balanced s) (ht : b.Balanced t) :
    b.Balanced (s ++ t) := by
  unfold Balanced
  rw [run_append, hs.run_eq, Option.bind_some, ht.run_eq]

theorem balanced_of_both {s : String} (h : Brackets.all.Balanced s ∧ Brackets.braces.Balanced s) :
    b.Balanced s := by
  cases b with
  | all => exact h.1
  | braces => exact h.2

theorem step_of_isSpace {c : Char} (h : isSpace c = true) (due : List Char) :
    b.step due c = some due := by
  have hne : ∀ d : Char, isSpace d = false → c ≠ d := by
    rintro d hd rfl
    rw [hd] at h
    cases h
  have hopening : c ≠ '\x7b' ∧ c ≠ '(' ∧ c ≠ '[' :=
    ⟨hne _ (by decide), hne _ (by decide), hne _ (by decide)⟩
  have hclosing : c ≠ '\x7d' ∧ c ≠ ')' ∧ c ≠ ']' :=
    ⟨hne _ (by decide), hne _ (by decide), hne _ (by decide)⟩
  cases b <;> simp [step, closing, closes, hopening, hclosing]

/-- White space has no brackets. -/
theorem balanced_of_isBlank {s : String} (h : isBlank s = true) : b.Balanced s := by
  have hspace : ∀ c ∈ s.toList, isSpace c = true := List.all_eq_true.mp h
  unfold Balanced run
  generalize s.toList = cs at hspace
  induction cs with
  | nil => rfl
  | cons c cs ih =>
    obtain ⟨hc, hcs⟩ := List.forall_mem_cons.mp hspace
    rw [List.foldlM_cons, step_of_isSpace hc]
    exact ih hcs

/-! ## Balanced documents -/

/-- The closing brackets that are due behind a document, in whatever layout. -/
def scan (b : Brackets) (due : List Char) (d : Doc) : Option (List Char) :=
  d.foldlM (fun due m => match m with
    | .text s => b.run due s
    | _ => some due) due

@[simp] theorem scan_nil (due : List Char) : b.scan due [] = some due := rfl

@[simp] theorem scan_text (due : List Char) (s : String) (d : Doc) :
    b.scan due (.text s :: d) = (b.run due s).bind (b.scan · d) := rfl

@[simp] theorem scan_space (due : List Char) (d : Doc) : b.scan due (.space :: d) = b.scan due d :=
  rfl

@[simp] theorem scan_line (due : List Char) (d : Doc) : b.scan due (.line :: d) = b.scan due d :=
  rfl

@[simp] theorem scan_tab (due : List Char) (d : Doc) : b.scan due (.tab :: d) = b.scan due d := rfl

@[simp] theorem scan_gap (due : List Char) (d : Doc) : b.scan due (.gap :: d) = b.scan due d := rfl

@[simp] theorem scan_append (due : List Char) (d e : Doc) :
    b.scan due (d ++ e) = (b.scan due d).bind (b.scan · e) := List.foldlM_append

theorem scan_cons (due : List Char) (m : Mark) (d : Doc) :
    b.scan due (m :: d) = (b.scan due [m]).bind (b.scan · d) := by
  rw [← List.singleton_append, scan_append]

/-- A layout adds no brackets. -/
theorem run_write (l : Layout) (due : List Char) (d : Doc) :
    b.run due (l.write d) = b.scan due d := by
  induction d generalizing due with
  | nil => rfl
  | cons m d ih =>
    have hmark : b.run due (l.mark m) = b.scan due [m] := by
      cases m with
      | text s => simp [Layout.mark]
      | _ => exact (balanced_of_isBlank (by rw [Layout.isBlank_mark]; rfl)).run_eq due
    rw [Layout.write_cons, run_append, hmark, scan_cons due m d]
    cases b.scan due [m] with
    | none => rfl
    | some due => exact ih due

/-- The document closes whatever it opens. -/
def Closed (b : Brackets) (d : Doc) : Prop := ∀ due, b.scan due d = some due

@[simp] theorem closed_nil : b.Closed [] := fun _ => rfl

theorem Closed.append {d e : Doc} (hd : b.Closed d) (he : b.Closed e) : b.Closed (d ++ e) := by
  intro due
  rw [scan_append, hd, Option.bind_some, he]

theorem closed_flatMap {α : Type} {xs : List α} {f : α → Doc} (h : ∀ x ∈ xs, b.Closed (f x)) :
    b.Closed (xs.flatMap f) := by
  induction xs with
  | nil => exact closed_nil
  | cons x rest ih =>
    obtain ⟨hx, hrest⟩ := List.forall_mem_cons.mp h
    rw [List.flatMap_cons]
    exact hx.append (ih hrest)

/-! ### Joined documents -/

theorem scan_of_isBlank {d : Doc} (h : d.isBlank = true) (due : List Char) :
    b.scan due d = some due := by
  rw [← run_write .compact]
  exact (balanced_of_isBlank (by rw [Layout.isBlank_write, h])).run_eq due

theorem scan_intercalate {sep : Doc} (hsep : b.Closed sep) (ds : List Doc) (due : List Char) :
    b.scan due (sep.intercalate ds) = ds.foldlM b.scan due := by
  induction ds generalizing due with
  | nil => rfl
  | cons d rest ih =>
    cases rest with
    | nil => simp
    | cons e rest =>
      rw [List.intercalate_cons_cons, scan_append, scan_append, List.foldlM_cons]
      cases b.scan due d with
      | none => rfl
      | some due => simpa [hsep due] using ih due

theorem foldlM_scan_filter (ds : List Doc) (due : List Char) :
    (ds.filter (!Doc.isBlank ·)).foldlM b.scan due = ds.foldlM b.scan due := by
  induction ds generalizing due with
  | nil => rfl
  | cons d rest ih =>
    cases hblank : d.isBlank with
    | true =>
      rw [List.filter_cons_of_neg (by simp [hblank]), List.foldlM_cons, scan_of_isBlank hblank]
      exact ih due
    | false =>
      rw [List.filter_cons_of_pos (by simp [hblank]), List.foldlM_cons, List.foldlM_cons]
      cases b.scan due d with
      | none => rfl
      | some due => exact ih due

/-- Joining keeps every bracket. -/
theorem scan_join (ds : List Doc) (due : List Char) :
    b.scan due (Doc.join ds) = ds.foldlM b.scan due := by
  unfold Doc.join
  rw [scan_intercalate (fun _ => rfl), foldlM_scan_filter]

theorem foldlM_scan_of_closed {ds : List Doc} (h : ∀ d ∈ ds, b.Closed d) (due : List Char) :
    ds.foldlM b.scan due = some due := by
  induction ds with
  | nil => rfl
  | cons d rest ih =>
    obtain ⟨hd, hrest⟩ := List.forall_mem_cons.mp h
    rw [List.foldlM_cons, hd due]
    exact ih hrest

theorem closed_join {ds : List Doc} (h : ∀ d ∈ ds, b.Closed d) : b.Closed (Doc.join ds) := by
  intro due
  rw [scan_join, foldlM_scan_of_closed h]

@[simp] theorem run_opening (due : List Char) : b.run due "\x7b" = some ('\x7d' :: due) := by
  cases b <;> rfl

@[simp] theorem run_closing (due : List Char) : b.run ('\x7d' :: due) "\x7d" = some due := by
  cases b <;> rfl

/-- Closed documents between one that opens a brace and a closing brace. -/
theorem foldlM_scan_braces {head : Doc} {ds : List Doc}
    (hhead : ∀ due, b.scan due head = some ('\x7d' :: due)) (hds : ∀ d ∈ ds, b.Closed d)
    (due : List Char) : (head :: ds ++ [[Mark.text "\x7d"]]).foldlM b.scan due = some due := by
  rw [List.cons_append, List.foldlM_cons, hhead due]
  simp [foldlM_scan_of_closed hds]

theorem closed_join_braces {head : Doc} {ds : List Doc}
    (hhead : ∀ due, b.scan due head = some ('\x7d' :: due)) (hds : ∀ d ∈ ds, b.Closed d) :
    b.Closed (Doc.join (head :: ds ++ [[Mark.text "\x7d"]])) := by
  intro due
  rw [scan_join, foldlM_scan_braces hhead hds]

/-- A text that opens brackets and one that closes them, around a closed document. -/
theorem closed_between {o e : String} {d : Doc} (h : b.Balanced (o ++ e)) (hd : b.Closed d) :
    b.Closed (.text o :: (d ++ [Mark.text e])) := by
  unfold Balanced at h
  rw [run_append] at h
  obtain ⟨opened, ho, he⟩ := Option.bind_eq_some_iff.mp h
  intro due
  have ho' : b.run due o = some (opened ++ due) := foldlM_frame ho due
  have he' : b.run (opened ++ due) e = some due := foldlM_frame he due
  simp [ho', hd (opened ++ due), he']

/-! ### Documents whose texts are balanced one by one -/

/-- Every text of the document is balanced by itself. -/
def Whole (b : Brackets) (d : Doc) : Prop := ∀ m ∈ d, b.Closed [m]

@[simp] theorem closed_text (s : String) : b.Closed [.text s] ↔ b.Balanced s := by
  constructor
  · intro h
    simpa [Balanced] using h []
  · intro h due
    simp [h.run_eq]

theorem closed_of_isBlank {m : Mark} (h : m.isBlank = true) : b.Closed [m] :=
  scan_of_isBlank (by simp [Doc.isBlank, h])

@[simp] theorem whole_nil : b.Whole [] := by
  intro m hm
  cases hm

@[simp] theorem whole_cons (m : Mark) (d : Doc) : b.Whole (m :: d) ↔ b.Closed [m] ∧ b.Whole d :=
  List.forall_mem_cons

@[simp] theorem whole_append (d e : Doc) : b.Whole (d ++ e) ↔ b.Whole d ∧ b.Whole e :=
  List.forall_mem_append

@[simp] theorem closed_space : b.Closed [.space] := closed_of_isBlank rfl

@[simp] theorem closed_tab : b.Closed [.tab] := closed_of_isBlank rfl

@[simp] theorem closed_line : b.Closed [.line] := closed_of_isBlank rfl

theorem Whole.closed {d : Doc} (h : b.Whole d) : b.Closed d := by
  intro due
  induction d with
  | nil => rfl
  | cons m d ih =>
    obtain ⟨hm, hd⟩ := List.forall_mem_cons.mp h
    rw [scan_cons, hm due]
    exact ih hd

theorem whole_intercalate {sep : Doc} {ds : List Doc} (hsep : b.Whole sep)
    (h : ∀ d ∈ ds, b.Whole d) : b.Whole (sep.intercalate ds) := by
  intro m hm
  rcases Doc.mem_intercalate hm with hs | ⟨d, hd, hmd⟩
  · exact hsep m hs
  · exact h d hd m hmd

theorem whole_commaList {ds : List Doc} (h : ∀ d ∈ ds, b.Whole d) : b.Whole (Doc.commaList ds) := by
  apply whole_intercalate
  · simpa using balanced_of_both (by decide)
  · intro d hd
    exact h d (List.mem_filter.mp hd).1

end Brackets

end ModelScribe
