-- The lines of a document. Line breaks are marks of their own, so a document
-- falls into lines before any layout is chosen, and no text of a descriptor
-- can end a line. The lines of a joined document are those of its parts.
import ModelScribe.Proofs.Inline

namespace ModelScribe

open Text

namespace Doc

/-! ## Lines -/

/-- The lines of a document. A document without marks has none. -/
def lines (d : Doc) : List Doc := if d.isEmpty then [] else d.splitOn .line

@[simp] theorem lines_nil : lines [] = [] := rfl

theorem lines_eq_splitOn {d : Doc} (hd : d ≠ []) : d.lines = d.splitOn .line := by
  cases d with
  | nil => exact absurd rfl hd
  | cons m d => rfl

/-- A document without line breaks is a single line. -/
theorem lines_eq_singleton {d : Doc} (hd : d ≠ []) (hline : Mark.line ∉ d) : d.lines = [d] := by
  rw [lines_eq_splitOn hd, List.splitOn_eq_singleton hline]

theorem eq_of_mem_lines {d l : Doc} (hline : Mark.line ∉ d) (hl : l ∈ d.lines) : l = d := by
  cases d with
  | nil => cases hl
  | cons m d =>
    rw [lines_eq_singleton (List.cons_ne_nil m d) hline] at hl
    exact List.mem_singleton.mp hl

theorem lines_append_line {d e : Doc} (hd : d ≠ []) (he : e ≠ []) :
    (d ++ .line :: e).lines = d.lines ++ e.lines := by
  rw [lines_eq_splitOn (by simp), lines_eq_splitOn hd, lines_eq_splitOn he,
    List.splitOn_append_cons_self]

/-- Documents with separators begin with the first of them. -/
theorem exists_intercalate_eq (sep d : Doc) (ds : List Doc) :
    ∃ rest, sep.intercalate (d :: ds) = d ++ rest := by
  cases ds with
  | nil => exact ⟨[], by simp⟩
  | cons e ds => exact ⟨_, by rw [List.intercalate_cons_cons, List.append_assoc]⟩

theorem intercalate_ne_nil {sep d : Doc} {ds : List Doc} (hd : d ≠ []) :
    sep.intercalate (d :: ds) ≠ [] := by
  obtain ⟨rest, hrest⟩ := exists_intercalate_eq sep d ds
  simp [hrest, hd]

theorem lines_intercalate {ds : List Doc} (h : ∀ d ∈ ds, d ≠ []) :
    lines ([Mark.line].intercalate ds) = ds.flatMap lines := by
  induction ds with
  | nil => rfl
  | cons d rest ih =>
    obtain ⟨hd, hrest⟩ := List.forall_mem_cons.mp h
    cases rest with
    | nil => simp
    | cons e rest =>
      have he : e ≠ [] := hrest e List.mem_cons_self
      rw [List.intercalate_cons_cons, List.append_assoc, List.singleton_append,
        lines_append_line hd (intercalate_ne_nil he), ih hrest, ← List.flatMap_cons]

/-- Entries with commas between them, each on a line of its own. -/
theorem lines_commaLines_cons {d e : Doc} {ds : List Doc} (hline : Mark.line ∉ d) (he : e ≠ []) :
    lines ([Mark.text ",", .line].intercalate (d :: e :: ds))
      = (d ++ [Mark.text ","]) :: lines ([Mark.text ",", .line].intercalate (e :: ds)) := by
  have hsplit : [Mark.text ",", .line].intercalate (d :: e :: ds)
      = (d ++ [Mark.text ","]) ++ Mark.line :: [Mark.text ",", .line].intercalate (e :: ds) := by
    rw [List.intercalate_cons_cons]
    simp
  rw [hsplit, lines_append_line (by simp) (intercalate_ne_nil he),
    lines_eq_singleton (by simp) (by simp [hline]), List.singleton_append]

/-! ## Lines of joined documents -/

/-- Joining drops nothing but what has no marks. -/
def Visible (d : Doc) : Prop := d.isBlank = true → d = []

theorem visible_nil : Visible [] := fun _ => rfl

theorem isBlank_of_mem {d : Doc} {m : Mark} (hm : m ∈ d) (h : m.isBlank = false) :
    d.isBlank = false :=
  List.all_eq_false.mpr ⟨m, hm, by simp [h]⟩

theorem visible_of_mem {d : Doc} {m : Mark} (hm : m ∈ d) (hvisible : m.isBlank = false) :
    Visible d := by
  intro hblank
  rw [isBlank_of_mem hm hvisible] at hblank
  cases hblank

theorem visible_ite {b : Prop} [Decidable b] {d e : Doc} (hd : Visible d) (he : Visible e) :
    Visible (if b then d else e) := by
  split
  · exact hd
  · exact he

theorem isBlank_intercalate {sep d : Doc} {ds : List Doc} (hd : d ∈ ds)
    (hblank : isBlank (sep.intercalate ds) = true) : d.isBlank = true := by
  induction ds with
  | nil => cases hd
  | cons e rest ih =>
    cases rest with
    | nil =>
      rw [List.mem_singleton.mp hd]
      simpa using hblank
    | cons f rest =>
      rw [List.intercalate_cons_cons] at hblank
      simp only [isBlank, List.all_append, Bool.and_eq_true] at hblank ih ⊢
      rcases List.mem_cons.mp hd with rfl | hd
      · exact hblank.1.1
      · exact ih hd hblank.2

theorem visible_intercalate {sep : Doc} {ds : List Doc} (h : ∀ d ∈ ds, d.isBlank = false) :
    Visible (sep.intercalate ds) := by
  intro hblank
  cases ds with
  | nil => rfl
  | cons d rest =>
    have hvisible := h d List.mem_cons_self
    rw [isBlank_intercalate List.mem_cons_self hblank] at hvisible
    cases hvisible

theorem visible_join (ds : List Doc) : Visible (join ds) :=
  visible_intercalate fun d hd => by simpa using (List.mem_filter.mp hd).2

theorem isBlank_join_of_mem {d : Doc} {ds : List Doc} (hd : d ∈ ds) (h : d.isBlank = false) :
    (join ds).isBlank = false := by
  cases hblank : (join ds).isBlank with
  | false => rfl
  | true =>
    have hkept : d ∈ ds.filter (!isBlank ·) := List.mem_filter.mpr ⟨hd, by simp [h]⟩
    rw [isBlank_intercalate hkept hblank] at h
    cases h

theorem flatMap_lines_filter {ds : List Doc} (h : ∀ d ∈ ds, Visible d) :
    (ds.filter (!isBlank ·)).flatMap lines = ds.flatMap lines := by
  induction ds with
  | nil => rfl
  | cons d rest ih =>
    obtain ⟨hd, hrest⟩ := List.forall_mem_cons.mp h
    cases hblank : d.isBlank with
    | true =>
      rw [List.filter_cons_of_neg (by simp [hblank]), ih hrest, List.flatMap_cons, hd hblank,
        lines_nil, List.nil_append]
    | false =>
      rw [List.filter_cons_of_pos (by simp [hblank]), List.flatMap_cons, List.flatMap_cons,
        ih hrest]

theorem lines_join_filter (ds : List Doc) :
    (join ds).lines = (ds.filter (!isBlank ·)).flatMap lines := by
  unfold join
  apply lines_intercalate
  intro d hd hnil
  rw [hnil] at hd
  have hvisible := (List.mem_filter.mp hd).2
  cases hvisible

theorem mem_lines_join {ds : List Doc} {l : Doc} (h : l ∈ (join ds).lines) :
    ∃ d ∈ ds, l ∈ d.lines := by
  rw [lines_join_filter] at h
  obtain ⟨d, hd, hl⟩ := List.mem_flatMap.mp h
  exact ⟨d, (List.mem_filter.mp hd).1, hl⟩

/-- A joined document has the lines of its parts. -/
theorem lines_join {ds : List Doc} (h : ∀ d ∈ ds, Visible d) :
    (join ds).lines = ds.flatMap lines := by
  rw [lines_join_filter, flatMap_lines_filter h]

/-- The line that closes a block in the body of a class. -/
def closing : Doc := [.tab, "\x7d"]

/-- The line that closes a declaration. -/
def lastLine : Doc := ["\x7d"]

/-- A statement on its line, two units deep. -/
def statement (s : Doc) : Doc := .tab :: .tab :: s

/-- Statements between an opening line and the closing one, each on a line of its own. -/
def block (head : Doc) (body : List Doc) : Doc :=
  head ++ .line :: (body.flatMap (fun s => statement s ++ [.line]) ++ closing)

theorem lines_block {head : Doc} {body : List Doc} (hhead : head ≠ []) (hline : Mark.line ∉ head)
    (hbody : ∀ s ∈ body, Mark.line ∉ s) :
    (block head body).lines = head :: (body.map statement ++ [closing]) := by
  unfold block
  rw [lines_append_line hhead (by simp [closing]), lines_eq_singleton hhead hline,
    List.singleton_append]
  congr 1
  clear hhead hline
  induction body with
  | nil => decide
  | cons s rest ih =>
    obtain ⟨hs, hrest⟩ := List.forall_mem_cons.mp hbody
    have hline : Mark.line ∉ statement s := by simp [statement, hs]
    rw [List.flatMap_cons, List.append_assoc, List.append_assoc, List.singleton_append,
      lines_append_line (by simp [statement]) (by simp [closing]),
      lines_eq_singleton (by simp [statement]) hline, ih hrest]
    rfl

end Doc

/-! ## Lines of bodies -/

theorem AccessorStep.lineDoc_eq (s : AccessorStep) :
    s.lineDoc = Doc.statement s.doc ++ [Mark.line] := by
  simp [lineDoc, Doc.statement]

theorem ConstructorStep.lineDoc_eq (s : ConstructorStep) :
    s.lineDoc = Doc.statement s.doc ++ [Mark.line] := by
  simp [lineDoc, Doc.statement]

end ModelScribe
