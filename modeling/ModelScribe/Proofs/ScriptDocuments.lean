-- Documents, read by their characters. No layout changes what is read, since
-- layouts add nothing but white space and add it where no word can be cut. So
-- a document that is put together is read as what its parts are read as.
--
-- Names and types are read the same wherever they stand. Code may begin with a
-- pattern or end an operand, so it is read where an operand may begin.
import Mathlib.Data.List.Basic
import ModelScribe.Proofs.Joining
import ModelScribe.Proofs.ScriptPieces

namespace ModelScribe

open Text

namespace Script

variable {d e : Doc} {ps qs : List Piece} {P Q : List Item → Prop}

/-- Behind such stacks the document is read as these pieces, in every layout. -/
def ReadsBehind (P : List Item → Prop) (d : Doc) (ps : List Piece) : Prop :=
  ∀ (l : Layout) (stack : List Item), P stack → ∃ s : State,
    run { stack } (l.chars d) = some s ∧ s.isReady = true ∧ s.stack = push ps stack

/-- The document is read as these pieces whatever stands before it. -/
abbrev Reads : Doc → List Piece → Prop := ReadsBehind fun _ => True

/-- The document is read as these pieces where an operand may begin. -/
abbrev Begins : Doc → List Piece → Prop := ReadsBehind (atOperand · = true)

/-- Moreover it ends in no word, so that anything may follow. -/
def Settles (d : Doc) (ps : List Piece) : Prop :=
  ∀ (l : Layout) (stack : List Item), run { stack } (l.chars d) = some { stack := push ps stack }

/-- In no layout does the document go on with a word that stands before it. -/
def Apart (d : Doc) : Prop :=
  ∀ l : Layout, ∃ (c : Char) (cs : List Char), l.chars d = c :: cs ∧ isWordChar c = false

theorem Settles.reads (h : Settles d ps) : Reads d ps :=
  fun l stack _ => ⟨_, h l stack, rfl, rfl⟩

theorem ReadsBehind.behind (h : Reads d ps) : ReadsBehind P d ps :=
  fun l stack _ => h l stack trivial

/-- The text of such a document is read as these pieces. -/
theorem ReadsBehind.read_write (h : ReadsBehind P d ps) (hP : P []) (l : Layout) :
    read (l.write d) = some ps := by
  obtain ⟨s, hrun, hready, hstack⟩ := h l [] hP
  unfold read
  rw [Layout.toList_write, hrun, Option.filter_some, if_pos hready, Option.bind_some, hstack,
    piecesOf_push, List.append_nil]

theorem Settles.read_write (h : Settles d ps) (l : Layout) : read (l.write d) = some ps :=
  h.reads.read_write trivial l

theorem settles_nil : Settles [] [] := fun _ _ => rfl

theorem Settles.append (hd : Settles d ps) (he : Settles e qs) : Settles (d ++ e) (ps ++ qs) := by
  intro l stack
  rw [Layout.chars_append, run_append_of_eq (hd l stack), he l, push_append]

theorem Settles.append_behind (hd : Settles d ps) (hP : ∀ stack, P stack → Q (push ps stack))
    (he : ReadsBehind Q e qs) : ReadsBehind P (d ++ e) (ps ++ qs) := by
  intro l stack hstack
  rw [Layout.chars_append, run_append_of_eq (hd l stack), push_append]
  exact he l _ (hP stack hstack)

/-- What the reader does with a document that goes on with no word. -/
theorem Apart.run_eq (h : Apart e) {s : State} (hs : s.isReady = true) (l : Layout) :
    run s (l.chars e) = run { stack := s.stack } (l.chars e) := by
  obtain ⟨c, cs, hchars, hc⟩ := h l
  rw [hchars, run_of_isReady hs hc]

theorem ReadsBehind.append (hd : ReadsBehind P d ps) (hapart : e = [] ∨ Apart e)
    (he : Reads e qs) : ReadsBehind P (d ++ e) (ps ++ qs) := by
  intro l stack hP
  obtain ⟨s, hrun, hready, hstack⟩ := hd l stack hP
  obtain ⟨s', hrun', hready', hstack'⟩ := he l (push ps stack) trivial
  rcases hapart with rfl | hapart
  · refine ⟨s, by rwa [List.append_nil], hready, ?_⟩
    rw [push_append, ← hstack', hstack]
    cases hrun'
    rfl
  · refine ⟨s', ?_, hready', by rw [push_append, hstack']⟩
    rw [Layout.chars_append, run_append_of_eq hrun, hapart.run_eq hready, hstack, hrun']

/-! ## White space -/

/-- White space of the layout's own. -/
theorem space_of_mem_mark {l : Layout} {m : Mark} (hm : ∀ t, m ≠ .text t) {c : Char}
    (hc : c ∈ (l.mark m).toList) : isSpace c = true ∧ isWordChar c = false := by
  have hchar : c = ' ' ∨ c = '\n' := by
    cases l with
    | compact =>
      cases m <;>
        simp_all [Layout.mark, Layout.space, Layout.newline, Layout.tab, Layout.isPretty]
    | pretty n =>
      cases m <;>
        simp_all [Layout.mark, Layout.space, Layout.newline, Layout.tab, Layout.isPretty]
  rcases hchar with rfl | rfl <;> exact ⟨by decide, by decide⟩

/-- The marks of a layout are no pieces. -/
theorem settles_mark {m : Mark} (hm : ∀ t, m ≠ .text t) : Settles [m] [] := by
  intro l stack
  rw [Layout.chars_cons, Layout.chars_nil, List.append_nil]
  exact run_spaces (fun c hc => space_of_mem_mark hm hc) stack

theorem Settles.cons_mark {m : Mark} (h : Settles d ps) (hm : ∀ t, m ≠ .text t) :
    Settles (m :: d) ps :=
  (settles_mark hm).append h

theorem ReadsBehind.cons_mark {m : Mark} (h : ReadsBehind P d ps) (hm : ∀ t, m ≠ .text t) :
    ReadsBehind P (m :: d) ps :=
  (settles_mark hm).append_behind (fun _ hP => hP) h

theorem ReadsBehind.append_mark {m : Mark} (h : ReadsBehind P d ps) (hm : ∀ t, m ≠ .text t) :
    ReadsBehind P (d ++ [m]) ps := by
  intro l stack hP
  obtain ⟨s, hrun, hready, hstack⟩ := h l stack hP
  rw [Layout.chars_append, run_append_of_eq hrun, Layout.chars_cons, Layout.chars_nil,
    List.append_nil]
  cases hchars : (l.mark m).toList with
  | nil => exact ⟨s, rfl, hready, hstack⟩
  | cons c cs =>
    have hspaces : ∀ x ∈ c :: cs, isSpace x = true ∧ isWordChar x = false :=
      fun x hx => space_of_mem_mark (l := l) hm (hchars ▸ hx)
    rw [run_of_isReady hready (hspaces c List.mem_cons_self).2, run_spaces hspaces]
    exact ⟨_, rfl, rfl, hstack⟩

theorem Apart.cons_mark {m : Mark} (h : Apart d) (hm : ∀ t, m ≠ .text t) : Apart (m :: d) := by
  intro l
  rw [Layout.chars_cons]
  cases hchars : (l.mark m).toList with
  | nil => exact h l
  | cons c cs =>
    refine ⟨c, cs ++ l.chars d, rfl, (space_of_mem_mark (l := l) hm ?_).2⟩
    rw [hchars]
    exact List.mem_cons_self

theorem Apart.append (h : Apart d) (e : Doc) : Apart (d ++ e) := by
  intro l
  obtain ⟨c, cs, hchars, hc⟩ := h l
  exact ⟨c, cs ++ l.chars e, by rw [Layout.chars_append, hchars]; rfl, hc⟩

/-! ## Texts -/

theorem run_text {t : String} {above : List Item}
    (h : runAnywhere {} t.toList = some { stack := above }) (l : Layout) (stack : List Item) :
    run { stack } (l.chars [.text t]) = some { stack := above ++ stack } := by
  simpa [Layout.mark, State.over] using run_over_of_runAnywhere h stack

/-- The document is read as pieces, a bracket that stays open, and pieces behind it. -/
def Opens (d : Doc) (ps : List Piece) (bracket : Char) (qs : List Piece) : Prop :=
  ∀ (l : Layout) (stack : List Item),
    run { stack } (l.chars d) = some { stack := push qs (.opened bracket :: push ps stack) }

theorem opens_text {t : String} {p q : List Piece} {bracket : Char}
    (h : runAnywhere {} t.toList = some { stack := push q (.opened bracket :: push p []) }) :
    Opens [.text t] p bracket q := by
  intro l stack
  rw [run_text h]
  simp [push]

theorem Opens.append {bracket : Char} {rs : List Piece} (hd : Opens d ps bracket qs)
    (he : Settles e rs) : Opens (d ++ e) ps bracket (qs ++ rs) := by
  intro l stack
  rw [Layout.chars_append, run_append_of_eq (hd l stack), he l, push_append]

/-- A closing bracket makes a group. What follows it in the same text is read behind the group. -/
theorem Opens.close_behind {bracket : Char} {rs : List Piece} (hd : Opens d ps bracket qs)
    (hP : ∀ stack, P (push qs (.opened bracket :: stack))) (he : ReadsBehind P e rs) {t : String}
    {c : Char} {cs : List Char} {r : List Piece} (ht : t.toList = c :: cs)
    (hc : openingOf c = some bracket) (hrest : runAnywhere {} cs = some { stack := push r [] }) :
    Settles (d ++ e ++ [.text t]) (ps ++ .group bracket (qs ++ rs) :: r) := by
  intro l stack
  obtain ⟨s, hrun, hready, hstack⟩ :=
    he l (push qs (.opened bracket :: push ps stack)) (hP (push ps stack))
  have hstep : step { stack := push (qs ++ rs) (.opened bracket :: push ps stack) } c
      = some { stack := .piece (.group bracket (qs ++ rs)) :: push ps stack } := by
    have hclose := close_push (qs ++ rs) bracket (push ps stack)
    unfold openingOf at hc
    split_ifs at hc <;> cases hc <;> subst c <;> exact hclose
  have hsign : isWordChar c = false := by
    unfold openingOf at hc
    split_ifs at hc <;> subst c <;> decide
  have hlast : l.chars [.text t] = c :: cs := by simp [Layout.mark, ht]
  rw [Layout.chars_append, Layout.chars_append, List.append_assoc, run_append_of_eq (hd l stack),
    run_append_of_eq hrun, hlast, run_of_isReady hready hsign, hstack, ← push_append, run_cons,
    hstep, Option.bind_some]
  have hover := run_over_of_runAnywhere hrest
    (.piece (.group bracket (qs ++ rs)) :: push ps stack)
  simpa [State.over, push] using hover

theorem Opens.close {bracket : Char} {rs : List Piece} (hd : Opens d ps bracket qs)
    (he : Reads e rs) {t : String} {c : Char} {cs : List Char} {r : List Piece}
    (ht : t.toList = c :: cs) (hc : openingOf c = some bracket)
    (hrest : runAnywhere {} cs = some { stack := push r [] }) :
    Settles (d ++ e ++ [.text t]) (ps ++ .group bracket (qs ++ rs) :: r) :=
  hd.close_behind (fun _ => trivial) he ht hc hrest

end Script
end ModelScribe
