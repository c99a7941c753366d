-- The laws of joining. A document drops its blank parts before any layout
-- is chosen, a text drops them afterwards. Both decide the same in every
-- layout, because white space is all that a layout adds: so the text of a
-- joined document is the joined text of its parts. And since a join that
-- has nothing to show is blank itself, nested joins are one flat join.
import ModelScribe.Layout

namespace ModelScribe

open Text

/-! ## The marks of a joined document -/

namespace Doc

theorem mem_intercalate {α : Type} {x : α} {sep : List α} {ds : List (List α)}
    (h : x ∈ sep.intercalate ds) : x ∈ sep ∨ ∃ d ∈ ds, x ∈ d := by
  induction ds with
  | nil => cases h
  | cons d rest ih =>
    cases rest with
    | nil =>
      rw [List.intercalate_singleton] at h
      exact Or.inr ⟨d, List.mem_cons_self, h⟩
    | cons e rest =>
      rw [List.intercalate_cons_cons, List.mem_append, List.mem_append] at h
      rcases h with (hd | hsep) | hrest
      · exact Or.inr ⟨d, List.mem_cons_self, hd⟩
      · exact Or.inl hsep
      · rcases ih hrest with hsep | ⟨f, hf, hx⟩
        · exact Or.inl hsep
        · exact Or.inr ⟨f, List.mem_cons_of_mem d hf, hx⟩

/-- All but the first come with the separator before them. -/
theorem intercalate_cons_flatMap {α : Type} (sep x : List α) (xs : List (List α)) :
    sep.intercalate (x :: xs) = x ++ xs.flatMap (sep ++ ·) := by
  induction xs generalizing x with
  | nil => simp
  | cons y xs ih => rw [List.intercalate_cons_cons, ih, List.flatMap_cons, List.append_assoc,
      List.append_assoc]

/-- Joining adds line breaks and no other mark. -/
theorem mem_join {x : Mark} {ds : List Doc} (h : x ∈ join ds) : x = .line ∨ ∃ d ∈ ds, x ∈ d := by
  rcases mem_intercalate h with hsep | ⟨d, hd, hx⟩
  · exact Or.inl (List.mem_singleton.mp hsep)
  · exact Or.inr ⟨d, (List.mem_filter.mp hd).1, hx⟩

theorem not_mem_join {x : Mark} {ds : List Doc} (hx : x ≠ .line) (h : ∀ d ∈ ds, x ∉ d) :
    x ∉ join ds := by
  intro hmem
  rcases mem_join hmem with hline | ⟨d, hd, hxd⟩
  · exact hx hline
  · exact h d hd hxd

end Doc

namespace Layout

/-! ## The text of a document -/

@[simp] theorem write_nil (l : Layout) : l.write [] = "" := rfl

@[simp] theorem write_append (l : Layout) (d e : Doc) :
    l.write (d ++ e) = l.write d ++ l.write e := by
  apply String.toList_injective
  rw [toList_write, chars_append, String.toList_append, toList_write, toList_write]

@[simp] theorem write_cons (l : Layout) (m : Mark) (d : Doc) :
    l.write (m :: d) = l.mark m ++ l.write d := by
  apply String.toList_injective
  rw [toList_write, chars_cons, String.toList_append, toList_write]

theorem write_intercalate (l : Layout) (sep : Doc) (ds : List Doc) :
    l.write (sep.intercalate ds) = (l.write sep).intercalate (ds.map l.write) := by
  induction ds with
  | nil => rfl
  | cons d rest ih =>
    cases rest with
    | nil => simp
    | cons e rest =>
      simp only [List.map_cons] at ih ⊢
      rw [List.intercalate_cons_cons, String.intercalate_cons_cons, write_append, write_append, ih]

/-! ## Blank parts -/

theorem isBlank_space (l : Layout) : Text.isBlank l.space = true := by
  cases l with
  | compact => rfl
  | pretty _ => exact show Text.isBlank " " = true by decide

theorem isBlank_newline (l : Layout) : Text.isBlank l.newline = true := by
  cases l with
  | compact => rfl
  | pretty _ => exact show Text.isBlank "\n" = true by decide

theorem isBlank_tab (l : Layout) : Text.isBlank l.tab = true := by
  cases l with
  | compact => rfl
  | pretty n =>
    unfold Text.isBlank tab
    rw [String.toList_ofList, List.all_eq_true]
    intro c hc
    rw [List.eq_of_mem_replicate hc]
    rfl

/-- A mark is blank in each layout or in none. -/
@[simp] theorem isBlank_mark (l : Layout) (m : Mark) : Text.isBlank (l.mark m) = m.isBlank := by
  cases m with
  | text s => rfl
  | space => exact l.isBlank_space
  | line => exact l.isBlank_newline
  | tab => exact l.isBlank_tab
  | gap =>
    cases l with
    | compact => exact show Text.isBlank " " = true by decide
    | pretty _ => rfl

/-- A document is blank exactly when its text is, in every layout. -/
@[simp] theorem isBlank_write (l : Layout) (d : Doc) :
    Text.isBlank (l.write d) = d.isBlank := by
  induction d with
  | nil => rfl
  | cons m d ih =>
    rw [write_cons, isBlank_append, isBlank_mark, ih]
    rfl

theorem filter_map_write (l : Layout) (ds : List Doc) :
    (ds.map l.write).filter (!Text.isBlank ·) = (ds.filter (!Doc.isBlank ·)).map l.write := by
  rw [List.filter_map]
  congr 2
  funext d
  rw [Function.comp_apply, isBlank_write]

/-! ## Joined texts -/

/-- The text of a joined document is the joined texts of its parts. -/
theorem write_join (l : Layout) (ds : List Doc) :
    l.write (.join ds) = l.join (ds.map l.write) := by
  unfold Doc.join join separator
  rw [write_intercalate, filter_map_write, write_cons, write_nil, String.append_empty]
  rfl

/-! ## Joins of joins -/

@[simp] theorem join_nil (l : Layout) : l.join [] = "" := rfl

/-- A blank fragment disappears from a join. -/
theorem join_cons_of_isBlank (l : Layout) {x : String} (h : Text.isBlank x = true)
    (xs : List String) : l.join (x :: xs) = l.join xs := by
  unfold join
  rw [List.filter_cons_of_neg (by simp [h])]

/-- A visible fragment stands before the join of the others, if there is something to join. -/
theorem join_cons_of_visible (l : Layout) {x : String} (h : Text.isBlank x = false)
    (xs : List String) :
    l.join (x :: xs) = if l.join xs = "" then x else x ++ l.separator ++ l.join xs := by
  unfold join
  rw [List.filter_cons_of_pos (by simp [h])]
  cases hkept : xs.filter (!Text.isBlank ·) with
  | nil => simp
  | cons y ys =>
    have hmem : y ∈ xs.filter (!Text.isBlank ·) := by
      rw [hkept]
      exact List.mem_cons_self
    have hy : Text.isBlank y = false := by simpa using (List.mem_filter.mp hmem).2
    have hvisible : Text.isBlank (l.separator.intercalate (y :: ys)) = false := by
      cases ys with
      | nil => simpa using hy
      | cons z zs => simp [String.intercalate_cons_cons, hy]
    have hne : l.separator.intercalate (y :: ys) ≠ "" := by
      intro hempty
      rw [hempty] at hvisible
      cases hvisible
    rw [if_neg hne, String.intercalate_cons_cons]

/-- Blank fragments join to nothing at all. -/
theorem join_eq_empty_of_isBlank (l : Layout) {xs : List String}
    (h : Text.isBlank (l.join xs) = true) : l.join xs = "" := by
  induction xs with
  | nil => rfl
  | cons x xs ih =>
    cases hx : Text.isBlank x with
    | true =>
      rw [l.join_cons_of_isBlank hx] at h ⊢
      exact ih h
    | false =>
      rw [l.join_cons_of_visible hx] at h
      split at h <;> simp [hx] at h

theorem join_ne_empty (l : Layout) {xs : List String} (h : Text.isBlank (l.join xs) = false) :
    l.join xs ≠ "" := by
  intro hempty
  rw [hempty] at h
  cases h

/-- A join in front of other fragments counts as the fragments that it joins. -/
theorem join_cons_join (l : Layout) (xs ys : List String) :
    l.join (l.join xs :: ys) = l.join (xs ++ ys) := by
  induction xs with
  | nil => exact l.join_cons_of_isBlank rfl ys
  | cons x xs ih =>
    cases hx : Text.isBlank x with
    | true => rw [l.join_cons_of_isBlank hx, ih, List.cons_append, l.join_cons_of_isBlank hx]
    | false =>
      rw [List.cons_append, l.join_cons_of_visible hx, l.join_cons_of_visible hx, ← ih]
      cases hjoin : Text.isBlank (l.join xs) with
      | true =>
        rw [l.join_eq_empty_of_isBlank hjoin, l.join_cons_of_isBlank isBlank_empty, if_pos rfl,
          l.join_cons_of_visible hx]
      | false =>
        have hne := l.join_ne_empty hjoin
        rw [if_neg hne, l.join_cons_of_visible (by simp [hx]), l.join_cons_of_visible hjoin]
        by_cases hys : l.join ys = ""
        · rw [if_pos hys, if_pos hys, if_neg hne]
        · rw [if_neg hys, if_neg hys, if_neg (by simp [hne])]
          simp only [String.append_assoc]

/-- Fragments behind others count by their join alone. -/
theorem join_append_congr (l : Layout) {ys zs : List String} (h : l.join ys = l.join zs)
    (xs : List String) : l.join (xs ++ ys) = l.join (xs ++ zs) := by
  induction xs with
  | nil => exact h
  | cons x xs ih =>
    rw [List.cons_append, List.cons_append]
    cases hx : Text.isBlank x with
    | true => rw [l.join_cons_of_isBlank hx, l.join_cons_of_isBlank hx, ih]
    | false => rw [l.join_cons_of_visible hx, l.join_cons_of_visible hx, ih]

/-- Nesting changes nothing: joining joins joins all that they join. -/
theorem join_flatten (l : Layout) (xss : List (List String)) :
    l.join (xss.map l.join) = l.join xss.flatten := by
  induction xss with
  | nil => rfl
  | cons xs xss ih =>
    rw [List.map_cons, join_cons_join, List.flatten_cons, l.join_append_congr ih]

end Layout

end ModelScribe
