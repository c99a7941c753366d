-- Lines at their depth. Indentation is written where a line is composed, but
-- the braces that are open there were left behind by lines far above it. So
-- each line is taken with the number of braces that it finds open and the
-- number that it leaves open, and lines fit one after the other when these
-- numbers do.
import ModelScribe.Proofs.Characters
import ModelScribe.Proofs.Lines

namespace ModelScribe

open Text

/-! ## The lines of a pretty text -/

namespace Layout

variable {n : UInt8}

theorem newline_not_mem_chars {d : Doc} (hline : Mark.line ∉ d) (h : d.Over (· ≠ '\n')) :
    '\n' ∉ (pretty n).chars d := by
  intro hmem
  obtain ⟨m, hm, hc⟩ := List.mem_flatMap.mp hmem
  cases m with
  | text s => exact h _ hm '\n' hc rfl
  | space => simp [mark, space] at hc
  | line => exact hline hm
  | tab => simp [mark, tab] at hc
  | gap => simp [mark, isPretty] at hc

/-- Where no text breaks a line, the lines of a pretty text are those of its document. -/
theorem splitOn_chars {d : Doc} (h : d.Over (· ≠ '\n')) :
    ((pretty n).chars d).splitOn '\n' = (d.splitOn .line).map (pretty n).chars := by
  by_cases hline : Mark.line ∈ d
  · obtain ⟨before, behind, rfl, hbefore⟩ := List.eq_append_cons_of_mem hline
    have hlt : behind.length < (before ++ .line :: behind).length := by simp; omega
    rw [Doc.over_append, Doc.over_cons] at h
    obtain ⟨hover, -, hrest⟩ := h
    have hbreak : ((pretty n).mark .line).toList = ['\n'] := by simp [mark, newline]
    rw [chars_append, chars_cons, hbreak, List.singleton_append,
      List.splitOn_append_cons_self, List.splitOn_append_cons_self, List.map_append,
      splitOn_chars hrest, List.splitOn_eq_singleton hbefore,
      List.splitOn_eq_singleton (newline_not_mem_chars hbefore hover)]
    rfl
  · rw [List.splitOn_eq_singleton hline, List.splitOn_eq_singleton (newline_not_mem_chars hline h)]
    rfl
termination_by d.length

theorem chars_tabs (depth : Nat) (d : Doc) :
    (pretty n).chars (List.replicate depth Mark.tab ++ d)
      = List.replicate (n.toNat * depth) ' ' ++ (pretty n).chars d := by
  induction depth with
  | zero => rfl
  | succ depth ih =>
    have htab : ((pretty n).mark .tab).toList = List.replicate n.toNat ' ' := by
      simp [mark, tab]
    rw [List.replicate_succ, List.cons_append, chars_cons, ih, htab, ← List.append_assoc,
      List.replicate_append_replicate, Nat.mul_succ, Nat.add_comm]

theorem chars_flatten (ds : List Doc) :
    (pretty n).chars ds.flatten = (ds.map (pretty n).chars).flatten := by
  induction ds with
  | nil => rfl
  | cons d rest ih => rw [List.flatten_cons, chars_append, ih, List.map_cons, List.flatten_cons]

end Layout

/-! ## Open braces -/

/-- The open braces behind one character more. A brace that closes nothing changes nothing. -/
def braceStep (n : Nat) (c : Char) : Nat :=
  if c = '\x7b' then n + 1 else if c = '\x7d' then n - 1 else n

/-- The braces that a text opens and does not close. -/
def openBraces (cs : List Char) : Nat := cs.foldl braceStep 0

theorem braceStep_of_step {due due' : List Char} {c : Char}
    (h : Brackets.braces.step due c = some due') : braceStep due.length c = due'.length := by
  unfold braceStep
  by_cases hopen : c = '\x7b'
  · simp only [Brackets.step, Brackets.closing, if_pos hopen, Option.some.injEq] at h
    simp [hopen, ← h]
  · by_cases hclose : c = '\x7d'
    · cases due with
      | nil => simp [Brackets.step, Brackets.closing, Brackets.closes, hclose] at h
      | cons e due =>
        simp only [Brackets.step, Brackets.closing, Brackets.closes, hclose] at h
        obtain ⟨-, rfl⟩ : e = '\x7d' ∧ due = due' := by simpa using h
        simp [hclose]
    · simp only [Brackets.step, Brackets.closing, Brackets.closes, if_neg hopen, hclose] at h
      obtain rfl : due = due' := by simpa using h
      simp [hopen, hclose]

theorem foldl_braceStep {cs due due' : List Char}
    (h : cs.foldlM Brackets.braces.step due = some due') :
    cs.foldl braceStep due.length = due'.length := by
  induction cs generalizing due with
  | nil =>
    rw [Option.some.inj h]
    rfl
  | cons c cs ih =>
    rw [List.foldlM_cons] at h
    obtain ⟨mid, hmid, hrest⟩ := Option.bind_eq_some_iff.mp h
    rw [List.foldl_cons, braceStep_of_step hmid]
    exact ih hrest

/-- The closing braces that are due when `n` braces are open. -/
def dueBraces (n : Nat) : List Char := List.replicate n '\x7d'

/-! ## How a line begins -/

/-- A visible character and no closing brace. -/
def Text.isOpening (c : Char) : Bool := !isSpace c && c != '\x7d'

/-- The text begins with a visible character, and not with a closing brace. -/
def Text.opensLine (s : String) : Bool := s.toList.head?.any isOpening

/-- The text does not begin with white space. -/
def Text.isFlush (s : String) : Bool := s.toList.head?.all (!isSpace ·)

/-- A text that a line may begin with, unless it is empty. -/
structure Text.Tidy (s : String) : Prop where
  balanced : Brackets.braces.Balanced s
  flush : isFlush s = true

theorem Text.Tidy.opensLine {s : String} (h : Tidy s) (hs : s ≠ "") : opensLine s = true := by
  unfold Text.opensLine
  cases hcs : s.toList with
  | nil => exact absurd (String.toList_eq_nil_iff.mp hcs) hs
  | cons c cs =>
    have hvisible : isSpace c = false := by
      have hflush := h.flush
      unfold isFlush at hflush
      rw [hcs] at hflush
      simpa using hflush
    have hbrace : c ≠ '\x7d' := by
      rintro rfl
      have hbalanced := h.balanced
      unfold Brackets.Balanced Brackets.run at hbalanced
      rw [hcs] at hbalanced
      cases hbalanced
    simp [isOpening, hvisible, hbrace]

theorem Text.Tidy.append {s t : String} (hs : Tidy s) (hne : s ≠ "") (ht : Tidy t) :
    Tidy (s ++ t) where
  balanced := hs.balanced.append ht.balanced
  flush := by
    have hflush := hs.flush
    unfold isFlush at hflush ⊢
    cases hcs : s.toList with
    | nil => exact absurd (String.toList_eq_nil_iff.mp hcs) hne
    | cons c cs =>
      rw [hcs] at hflush
      rw [String.toList_append, hcs]
      exact hflush

namespace Doc

/-- In every pretty layout the document begins with this character. -/
def Begins (c : Char) (d : Doc) : Prop := ∀ n, ((Layout.pretty n).chars d).head? = some c

/-- The document begins with a visible character, and not with a closing brace. -/
def Opens (d : Doc) : Prop := ∃ c, isOpening c = true ∧ d.Begins c

theorem begins_append {c : Char} {d : Doc} (h : d.Begins c) (e : Doc) : (d ++ e).Begins c := by
  intro n
  rw [Layout.chars_append, List.head?_append, h n]
  rfl

theorem opens_text {s : String} (h : opensLine s = true) (d : Doc) : Opens (.text s :: d) := by
  obtain ⟨c, hc, hopening⟩ : ∃ c, s.toList.head? = some c ∧ isOpening c = true := by
    simpa [opensLine, Option.any_eq_true] using h
  refine ⟨c, hopening, fun n => ?_⟩
  have htext : (Layout.pretty n).mark (.text s) = s := rfl
  rw [Layout.chars_cons, List.head?_append, htext, hc]
  rfl

theorem opens_empty {d : Doc} (h : Opens d) : Opens (.text "" :: d) := by
  obtain ⟨c, hopening, hc⟩ := h
  exact ⟨c, hopening, fun n => by simpa [Layout.mark] using hc n⟩

end Doc

/-! ## Lines in their place -/

/-- A line that stands at its depth: it finds `o` braces open and leaves `e` of them open, and it
is indented by one unit for each brace that it finds open, but for one that it closes at once. -/
structure Placed (o : Nat) (l : Doc) (e : Nat) : Prop where
  begins : ∃ depth body c, l = List.replicate depth .tab ++ body ∧ Doc.Begins c body
    ∧ isSpace c = false ∧ o = depth + if c = '\x7d' then 1 else 0
  leaves : Brackets.braces.scan (dueBraces o) l = some (dueBraces e)
  unbroken : Mark.line ∉ l

namespace Placed

variable {o e : Nat} {l : Doc} {body : Doc}

/-- A line that begins with no closing brace. -/
theorem of_opens (depth : Nat) (hopens : Doc.Opens body) (hline : Mark.line ∉ body)
    (hleaves : Brackets.braces.scan (dueBraces depth) (List.replicate depth .tab ++ body)
      = some (dueBraces e)) : Placed depth (List.replicate depth .tab ++ body) e where
  begins := by
    obtain ⟨c, hopening, hc⟩ := hopens
    have hvisible : isSpace c = false ∧ c ≠ '\x7d' := by simpa [isOpening] using hopening
    exact ⟨depth, body, c, rfl, hc, hvisible.1, by simp [hvisible.2]⟩
  leaves := hleaves
  unbroken := by simp [hline]

/-- A line that closes whatever it opens. -/
theorem of_closed (depth : Nat) (hopens : body.Opens) (hline : Mark.line ∉ body)
    (h : Brackets.braces.Closed (List.replicate depth .tab ++ body)) :
    Placed depth (List.replicate depth .tab ++ body) depth :=
  of_opens depth hopens hline (h _)

/-- A line that opens a brace. -/
theorem of_opening (depth : Nat) (hopens : body.Opens) (hline : Mark.line ∉ body)
    (h : ∀ due, Brackets.braces.scan due (List.replicate depth .tab ++ body)
      = some ('\x7d' :: due)) :
    Placed depth (List.replicate depth .tab ++ body) (depth + 1) :=
  of_opens depth hopens hline (h _)

theorem ne_nil (h : Placed o l e) : l ≠ [] := by
  rintro rfl
  obtain ⟨depth, body, c, hl, hc, -⟩ := h.begins
  obtain ⟨-, rfl⟩ := List.append_eq_nil_iff.mp hl.symm
  cases hc 0

theorem lines_eq (h : Placed o l e) : l.lines = [l] :=
  Doc.lines_eq_singleton h.ne_nil h.unbroken

theorem isBlank_eq_false (h : Placed o l e) : l.isBlank = false := by
  obtain ⟨depth, body, c, rfl, hc, hvisible, -⟩ := h.begins
  have hmem : c ∈ ((Layout.pretty 0).write (List.replicate depth .tab ++ body)).toList := by
    rw [Layout.toList_write, Layout.chars_append]
    exact List.mem_append_right _ (List.mem_of_head? (hc 0))
  rw [← (Layout.pretty 0).isBlank_write]
  exact List.all_eq_false.mpr ⟨c, hmem, by simp [hvisible]⟩

/-- A comma at the end of a line leaves it in its place. -/
theorem comma (h : Placed o l e) : Placed o (l ++ [Mark.text ","]) e where
  begins := by
    obtain ⟨depth, body, c, rfl, hc, hrest⟩ := h.begins
    exact ⟨depth, body ++ [Mark.text ","], c, by rw [List.append_assoc], Doc.begins_append hc _,
      hrest⟩
  leaves := by
    have hcomma : Brackets.braces.Balanced "," := by decide
    simp [h.leaves, hcomma.run_eq]
  unbroken := by simp [h.unbroken]

end Placed

theorem placed_closing : Placed 2 Doc.closing 1 where
  begins := ⟨1, [.text "\x7d"], '\x7d', rfl, fun n => by simp [Layout.mark], by decide, rfl⟩
  leaves := rfl
  unbroken := by decide

theorem placed_lastLine : Placed 1 Doc.lastLine 0 where
  begins := ⟨0, [.text "\x7d"], '\x7d', rfl, fun n => by simp [Layout.mark], by decide, rfl⟩
  leaves := rfl
  unbroken := by decide

/-- Lines that stand at their depth, one after the other: the first finds `o` braces open, and
the last leaves `e` of them open. -/
inductive Nested : Nat → List Doc → Nat → Prop
  | nil (o : Nat) : Nested o [] o
  | cons {o m e : Nat} {l : Doc} {ls : List Doc} :
      Placed o l m → Nested m ls e → Nested o (l :: ls) e

namespace Nested

variable {o m e : Nat}

theorem singleton {l : Doc} (h : Placed o l e) : Nested o [l] e := .cons h (.nil e)

theorem append {xs ys : List Doc} (hx : Nested o xs m) (hy : Nested m ys e) :
    Nested o (xs ++ ys) e := by
  induction hx with
  | nil => exact hy
  | cons hl _ ih => exact .cons hl (ih hy)

theorem split {xs ys : List Doc} (h : Nested o (xs ++ ys) e) :
    ∃ m, Nested o xs m ∧ Nested m ys e := by
  induction xs generalizing o with
  | nil => exact ⟨o, .nil o, h⟩
  | cons l xs ih =>
    cases h with
    | cons hl hrest =>
      obtain ⟨m, hx, hy⟩ := ih hrest
      exact ⟨m, .cons hl hx, hy⟩

theorem flatMap {α : Type} {xs : List α} {f : α → List Doc} (h : ∀ x ∈ xs, Nested o (f x) o) :
    Nested o (xs.flatMap f) o := by
  induction xs with
  | nil => exact .nil o
  | cons x rest ih =>
    obtain ⟨hx, hrest⟩ := List.forall_mem_cons.mp h
    rw [List.flatMap_cons]
    exact hx.append (ih hrest)

/-- The braces that are open behind the lines. -/
theorem scan_flatten {ls : List Doc} (h : Nested o ls e) :
    Brackets.braces.scan (dueBraces o) ls.flatten = some (dueBraces e) := by
  induction h with
  | nil => rfl
  | cons hl _ ih =>
    rw [List.flatten_cons, Brackets.scan_append, hl.leaves]
    exact ih

/-! ### Lines of composed documents -/

/-- Statements between a line that opens a block and the one that closes it. -/
theorem block {head : Doc} {body : List Doc} (hhead : Placed 1 head 2)
    (hbody : ∀ s ∈ body, Placed 2 (Doc.statement s) 2) :
    Nested 1 (head :: (body.map Doc.statement ++ [Doc.closing])) 1 := by
  have hstatements : Nested 2 (body.map Doc.statement) 2 := by
    rw [List.map_eq_flatMap]
    exact flatMap fun s hs => singleton (hbody s hs)
  exact .cons hhead (hstatements.append (singleton placed_closing))

theorem join {ds : List Doc} (h : ∀ d ∈ ds, d.isBlank = false → Nested o d.lines o) :
    Nested o (Doc.join ds).lines o := by
  rw [Doc.lines_join_filter]
  apply flatMap
  intro d hd
  obtain ⟨hmem, hvisible⟩ := List.mem_filter.mp hd
  exact h d hmem (by simpa using hvisible)

/-- A joined document that begins with a line that opens a brace and ends with one that closes
it. -/
theorem join_braces {head last : Doc} {ds : List Doc} (hhead : Placed o head m)
    (hds : ∀ d ∈ ds, d.isBlank = false → Nested m d.lines m) (hlast : Placed m last e) :
    Nested o (Doc.join (head :: ds ++ [last])).lines e := by
  rw [Doc.lines_join_filter, List.cons_append,
    List.filter_cons_of_pos (by simp [hhead.isBlank_eq_false]), List.filter_append,
    List.filter_cons_of_pos (by simp [hlast.isBlank_eq_false]), List.filter_nil,
    List.flatMap_cons, List.flatMap_append, hhead.lines_eq, List.flatMap_singleton,
    hlast.lines_eq, ← Doc.lines_join_filter]
  exact .cons hhead ((join hds).append (singleton hlast))

/-- Entries with commas between them, each on a line of its own. -/
theorem commaLines {ds : List Doc} (h : ∀ d ∈ ds, Placed o d o) :
    Nested o (Doc.lines ([Mark.text ",", .line].intercalate ds)) o := by
  induction ds with
  | nil => exact .nil o
  | cons d rest ih =>
    obtain ⟨hd, hrest⟩ := List.forall_mem_cons.mp h
    cases rest with
    | nil =>
      rw [List.intercalate_singleton, hd.lines_eq]
      exact singleton hd
    | cons e rest =>
      have he : e ≠ [] := (hrest e List.mem_cons_self).ne_nil
      rw [Doc.lines_commaLines_cons hd.unbroken he]
      exact .cons hd.comma (ih hrest)

end Nested

end ModelScribe
