-- The laws of the file tree. What is saved under a path is what stands there
-- afterwards, and every other place is as it was. Saving makes no directory
-- and no link and removes none, so every path leads where it led before.
import ModelScribe.Command.FileTree

namespace ModelScribe.FileTree

variable {t after : FileTree} {path text : String} {place : List String}

/-! ## Places -/

@[simp] theorem nodeAt_put_self (t : FileTree) (place : List String) (node : Node) :
    (t.put place node).nodeAt place = some node := List.lookup_cons_self

theorem nodeAt_put_of_ne (t : FileTree) (node : Node) {q : List String} (hq : q ≠ place) :
    (t.put place node).nodeAt q = t.nodeAt q := by
  unfold nodeAt put
  rw [List.lookup_cons, beq_false_of_ne hq]

/-! ## Following paths -/

/-- Where a path leads hangs on the directories and the links alone. -/
theorem resolve_congr (hpass : ∀ q, after.isPassable q = t.isPassable q)
    (hlink : ∀ q, after.linkAt q = t.linkAt q) (hworking : after.working = t.working)
    (path : String) : after.resolve path = t.resolve path := by
  have hstep (jump : List String → List String → Option (List String)) (place parts : List String) :
      after.followUntil jump place parts = t.followUntil jump place parts := by
    induction parts generalizing place with
    | nil => rfl
    | cons p parts ih => simp only [followUntil, hpass, hlink, ih]
  have hfollow (links : Nat) : after.follow links = t.follow links := by
    induction links with
    | zero => exact funext fun place => funext fun parts => hstep _ place parts
    | succ links ih =>
      funext place parts
      rw [follow, follow, ih]
      exact hstep _ place parts
  unfold resolve
  rw [hfollow, hworking]

/-! ## Saving -/

/-- A file may come to stand at the place: there is one that takes a text, or there is nothing
yet in a directory that takes new files. -/
def TakesAt (t : FileTree) (place : List String) : Prop :=
  (∃ content access, t.nodeAt place = some (.file content access) ∧ access.writable = true) ∨
    t.nodeAt place = none ∧ t.isOpen place.dropLast = true

/-- A text can be saved under the path. -/
def Takes (t : FileTree) (path : String) : Prop :=
  ∃ place, t.resolve path = some place ∧ t.TakesAt place

/-- What a run may do with the file at a place; a new file is open to everything. -/
def accessAt (t : FileTree) (place : List String) : Access :=
  match t.nodeAt place with
  | some (.file _ access) => access
  | _ => {}

/-- What saving does: the text comes to stand in a file at the place that the path names, where
there is no link and no directory before. -/
theorem writeText_cases (h : t.writeText path text = some after) :
    ∃ place, t.resolve path = some place ∧ t.TakesAt place ∧
      t.isPassable place = false ∧ t.linkAt place = none ∧
        after = t.put place (.file (.text text) (t.accessAt place)) := by
  unfold writeText at h
  cases hplace : t.resolve path with
  | none =>
    rw [hplace] at h
    cases h
  | some place =>
    simp only [hplace] at h
    cases hnode : t.nodeAt place with
    | none =>
      simp only [hnode] at h
      split at h
      · rename_i hopen
        exact ⟨place, rfl, Or.inr ⟨hnode, hopen⟩, by simp [isPassable, hnode],
          by simp [linkAt, hnode], by simp [accessAt, hnode, ← Option.some.inj h]⟩
      · cases h
    | some node =>
      cases node with
      | file content access =>
        simp only [hnode] at h
        split at h
        · rename_i hwritable
          exact ⟨place, rfl, Or.inl ⟨content, access, hnode, hwritable⟩,
            by simp [isPassable, hnode], by simp [linkAt, hnode],
            by simp [accessAt, hnode, ← Option.some.inj h]⟩
        · cases h
      | directory access =>
        simp only [hnode] at h
        cases h
      | link target =>
        simp only [hnode] at h
        cases h

theorem exists_writeText (h : t.Takes path) (text : String) :
    ∃ after, t.writeText path text = some after := by
  obtain ⟨place, hplace, ⟨content, access, hnode, hwritable⟩ | ⟨hnode, hopen⟩⟩ := h
  · exact ⟨t.put place (.file (.text text) access), by simp [writeText, hplace, hnode, hwritable]⟩
  · exact ⟨t.put place (.file (.text text) {}), by simp [writeText, hplace, hnode, hopen]⟩

/-- Saving fails exactly under a path that takes no text. -/
theorem writeText_eq_none_iff : t.writeText path text = none ↔ ¬ t.Takes path := by
  constructor
  · rintro h htakes
    obtain ⟨after, hafter⟩ := exists_writeText htakes text
    rw [h] at hafter
    cases hafter
  · intro h
    cases hwrite : t.writeText path text with
    | none => rfl
    | some after =>
      obtain ⟨place, hplace, htakes, -⟩ := writeText_cases hwrite
      exact absurd ⟨place, hplace, htakes⟩ h

/-- Every path leads where it led before a text was saved. -/
theorem resolve_writeText (h : t.writeText path text = some after) (other : String) :
    after.resolve other = t.resolve other := by
  obtain ⟨place, -, -, hpassable, hlink, rfl⟩ := writeText_cases h
  refine resolve_congr (fun q => ?_) (fun q => ?_) ?_ other
  · by_cases hq : q = place
    · subst hq
      rw [hpassable]
      simp [isPassable]
    · simp [isPassable, nodeAt_put_of_ne t _ hq]
  · by_cases hq : q = place
    · subst hq
      rw [hlink]
      simp [linkAt]
    · simp [linkAt, nodeAt_put_of_ne t _ hq]
  · rfl

/-- Saving changes what stands at the place that the path names, and nothing else. -/
theorem nodeAt_writeText_of_ne (h : t.writeText path text = some after) {q : List String}
    (hq : t.resolve path ≠ some q) : after.nodeAt q = t.nodeAt q := by
  obtain ⟨place, hplace, -, -, -, rfl⟩ := writeText_cases h
  exact nodeAt_put_of_ne t _ fun he => hq (by rw [hplace, he])

theorem working_writeText (h : t.writeText path text = some after) :
    after.working = t.working := by
  obtain ⟨place, -, -, -, -, rfl⟩ := writeText_cases h
  rfl

/-- What has been saved stands under its path. -/
theorem find_writeText (h : t.writeText path text = some after) :
    ∃ place, t.resolve path = some place ∧
      after.find path = some (.file (.text text) (t.accessAt place)) := by
  have hresolve := resolve_writeText h path
  obtain ⟨place, hplace, -, -, -, rfl⟩ := writeText_cases h
  refine ⟨place, hplace, ?_⟩
  rw [find, hresolve, hplace, Option.bind_some, nodeAt_put_self]

/-- Nothing else stands anywhere than before. -/
theorem find_writeText_of_ne (h : t.writeText path text = some after) {other : String}
    (hne : t.resolve other ≠ t.resolve path) : after.find other = t.find other := by
  unfold find
  rw [resolve_writeText h]
  refine Option.bind_congr fun q hq => nodeAt_writeText_of_ne h ?_
  intro hpath
  exact hne (by rw [hq, hpath])

/-! ## Reading -/

/-- What has been saved is read again, unless the file was there before and is closed. -/
theorem readText_writeText (h : t.writeText path text = some after)
    (hopen : ∀ content access, t.find path = some (.file content access) →
      access.readable = true) : after.readText path = some text := by
  obtain ⟨place, hplace, hfind⟩ := find_writeText h
  have hreadable : (t.accessAt place).readable = true := by
    unfold accessAt
    cases hnode : t.nodeAt place with
    | none => rfl
    | some node =>
      cases node with
      | file content access => exact hopen content access (by simp [find, hplace, hnode])
      | directory access => rfl
      | link target => rfl
  rw [readText, hfind]
  simp [hreadable]

/-- There is no text to read where there is no file, and in a file that is closed or no text. -/
theorem readText_eq_none_iff : t.readText path = none ↔
    (∀ content access, t.find path ≠ some (.file content access)) ∨
      (∃ content access, t.find path = some (.file content access) ∧ access.readable = false) ∨
      ∃ access, t.find path = some (.file .binary access) := by
  unfold readText
  rcases t.find path with _ | ⟨s | _, access⟩ | _ | _
  · simp
  · simp only [Option.some.injEq, Node.file.injEq]
    grind
  · simp
  · simp
  · simp

end ModelScribe.FileTree
