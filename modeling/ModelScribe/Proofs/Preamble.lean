-- The laws of the preamble. Imports are taken one after the other, and each is
-- entered in the groups that are there by then. What comes out can be said
-- without the order of these steps: one statement for each module, in the
-- order in which the modules are first named, with every symbol that is asked
-- for from it. So each import stands in the preamble once, under its module.
import Mathlib.Algebra.GroupWithZero.Nat
import Mathlib.Data.Finset.Card
import Mathlib.Data.Finset.Dedup
import ModelScribe.Proofs.Generation

namespace ModelScribe

open Text

/-! ## Distinct entries -/

theorem nodup_eraseDups (xs : List String) : xs.eraseDups.Nodup := by
  cases xs with
  | nil => exact List.nodup_nil
  | cons x xs =>
    have hlt : (xs.filter fun y => !y == x).length < (x :: xs).length :=
      Nat.lt_succ_of_le (List.length_filter_le _ xs)
    rw [List.eraseDups_cons, List.nodup_cons]
    refine ⟨?_, nodup_eraseDups (xs.filter fun y => !y == x)⟩
    simp [List.mem_eraseDups]
termination_by xs.length
decreasing_by exact hlt

theorem length_eraseDups (xs : List String) : xs.eraseDups.length = xs.toFinset.card := by
  rw [← List.toFinset_card_of_nodup (nodup_eraseDups xs)]
  congr 1
  ext x
  simp [List.mem_eraseDups]

namespace ImportGroups

/-! ## Imports by module -/

/-- The modules that imports come from, in the order in which they are first named. -/
def paths (imports : List Import) : List String := (imports.map (·.path)).eraseDups

/-- The symbols that are asked for from a module, in order and as often as they are. -/
def symbolsFrom (imports : List Import) (path : String) : List String :=
  (imports.filter (·.path == path)).map (·.name)

/-- The imports of each module. -/
def grouping (imports : List Import) : ImportGroups :=
  (paths imports).map fun path => (path, symbolsFrom imports path)

/-- The imports that groups hold, each with the module under which it stands. -/
def entries (groups : ImportGroups) : List Import :=
  groups.flatMap fun g => g.2.map fun s => { name := s, path := g.1 }

theorem mem_paths {imports : List Import} {path : String} :
    path ∈ paths imports ↔ ∃ i ∈ imports, i.path = path := by
  simp [paths, List.mem_eraseDups]

theorem nodup_paths (imports : List Import) : (paths imports).Nodup := nodup_eraseDups _

theorem paths_concat_of_mem {imports : List Import} {i : Import} (h : i.path ∈ paths imports) :
    paths (imports ++ [i]) = paths imports := by
  have hmem := mem_paths.mp h
  unfold paths
  rw [List.map_append, List.eraseDups_append]
  simp [List.removeAll, hmem]

theorem paths_concat_of_not_mem {imports : List Import} {i : Import}
    (h : i.path ∉ paths imports) : paths (imports ++ [i]) = paths imports ++ [i.path] := by
  have hmem := mem_paths.not.mp h
  unfold paths
  rw [List.map_append, List.eraseDups_append]
  simp [List.removeAll, List.eraseDups_cons, hmem]

theorem symbolsFrom_concat (imports : List Import) (i : Import) (path : String) :
    symbolsFrom (imports ++ [i]) path
      = if path = i.path then symbolsFrom imports path ++ [i.name]
        else symbolsFrom imports path := by
  unfold symbolsFrom
  rw [List.filter_append, List.map_append]
  split
  case isTrue h => simp [h]
  case isFalse h => simp [Ne.symm h]

theorem symbolsFrom_eq_nil {imports : List Import} {path : String} (h : path ∉ paths imports) :
    symbolsFrom imports path = [] := by
  unfold symbolsFrom
  rw [List.map_eq_nil_iff, List.filter_eq_nil_iff]
  intro i hi hpath
  exact h (mem_paths.mpr ⟨i, hi, by simpa using hpath⟩)

theorem symbolsFrom_ne_nil {imports : List Import} {path : String} (h : path ∈ paths imports) :
    symbolsFrom imports path ≠ [] := by
  obtain ⟨i, hi, rfl⟩ := mem_paths.mp h
  have hmem : i.name ∈ symbolsFrom imports i.path :=
    List.mem_map_of_mem (List.mem_filter.mpr ⟨hi, by simp⟩)
  exact List.ne_nil_of_mem hmem

/-! ## One import -/

section Add

variable {path symbol : String} {ps : List String} (f : String → List String)

theorem add_of_not_mem (h : path ∉ ps) :
    add path symbol (ps.map fun p => (p, f p))
      = ps.map (fun p => (p, f p)) ++ [(path, [symbol])] := by
  induction ps with
  | nil => rfl
  | cons p ps ih =>
    rw [List.mem_cons, not_or] at h
    rw [List.map_cons, add, if_neg (Ne.symm h.1), ih h.2, List.cons_append]

theorem add_of_mem (hps : ps.Nodup) (h : path ∈ ps) :
    add path symbol (ps.map fun p => (p, f p))
      = ps.map fun p => (p, if p = path then f p ++ [symbol] else f p) := by
  induction ps with
  | nil => cases h
  | cons p ps ih =>
    obtain ⟨hp, hps⟩ := List.nodup_cons.mp hps
    rw [List.map_cons, add, List.map_cons]
    by_cases heq : p = path
    · -- no later group has the same path, so none of them is touched
      rw [if_pos heq, if_pos heq]
      congr 1
      refine List.map_inj_left.mpr fun q hq => ?_
      have hne : q ≠ path := by
        rintro rfl
        exact hp (heq ▸ hq)
      rw [if_neg hne]
    · rw [if_neg heq, if_neg heq, ih hps (List.mem_of_ne_of_mem (Ne.symm heq) h)]

end Add

/-- One import more, entered in the groups of those before it. -/
theorem add_grouping (imports : List Import) (i : Import) :
    add i.path i.name (grouping imports) = grouping (imports ++ [i]) := by
  by_cases h : i.path ∈ paths imports
  · unfold grouping
    rw [add_of_mem _ (nodup_paths imports) h, paths_concat_of_mem h]
    refine List.map_inj_left.mpr fun p _ => ?_
    rw [symbolsFrom_concat]
  · unfold grouping
    rw [add_of_not_mem _ h, paths_concat_of_not_mem h, List.map_append, List.map_singleton,
      symbolsFrom_concat, if_pos rfl, symbolsFrom_eq_nil h, List.nil_append]
    congr 1
    refine List.map_inj_left.mpr fun p hp => ?_
    have hne : p ≠ i.path := by
      rintro rfl
      exact h hp
    rw [symbolsFrom_concat, if_neg hne]

/-- One import more than before stands in the groups, and it stands under its own module. -/
theorem entries_add (path symbol : String) (groups : ImportGroups) :
    (entries (add path symbol groups)).Perm (entries groups ++ [{ name := symbol, path }]) := by
  induction groups with
  | nil => exact .refl _
  | cons g rest ih =>
    unfold entries at ih ⊢
    rw [add]
    split
    case isTrue h =>
      simp only [List.flatMap_cons, List.map_append, List.append_assoc, h]
      exact .append_left _ List.perm_append_comm
    case isFalse =>
      simp only [List.flatMap_cons, List.append_assoc]
      exact .append_left _ ih

/-! ## A list of imports -/

theorem addAll_grouping (before imports : List Import) :
    addAll (grouping before) imports = grouping (before ++ imports) := by
  induction imports generalizing before with
  | nil => rw [List.append_nil]; rfl
  | cons i rest ih =>
    unfold addAll at ih ⊢
    rw [List.foldl_cons, add_grouping, ih, List.append_assoc, List.singleton_append]

theorem ofImports_eq (imports : List Import) : ofImports imports = grouping imports :=
  addAll_grouping [] imports

theorem entries_addAll (groups : ImportGroups) (imports : List Import) :
    (entries (groups.addAll imports)).Perm (entries groups ++ imports) := by
  induction imports generalizing groups with
  | nil => rw [List.append_nil]; exact .refl _
  | cons i rest ih =>
    have hstep := (entries_add i.path i.name groups).append_right rest
    rw [List.append_assoc] at hstep
    exact (ih (groups.add i.path i.name)).trans hstep

theorem length_entries (groups : ImportGroups) :
    (entries groups).length = (groups.map (·.2.length)).sum := by
  unfold entries
  simp [List.length_flatMap]

end ImportGroups

/-! ## The statements -/

/-- The import statement for the symbols of a module. -/
def Layout.importStatement (l : Layout) (path : String) (symbols : List String) : String :=
  "import" ++ l.space ++ "\x7b" ++ l.space ++ l.comma.intercalate symbols ++ l.space ++ "\x7d"
    ++ l.space ++ "from" ++ l.space ++ "'" ++ path ++ "';"

namespace ImportGroups

theorem write_statement (l : Layout) (group : String × List String) :
    l.write (statement group) = l.importStatement group.1 group.2 := by
  have hsymbols : (group.2.map fun s => [Mark.text s]).map l.write = group.2 := by
    simp [Function.comp_def, Layout.mark]
  have hlist :
      l.write ([Mark.text ",", Mark.space].intercalate (group.2.map fun s => [Mark.text s]))
        = l.comma.intercalate group.2 := by
    rw [Layout.write_intercalate, hsymbols]
    simp [Layout.mark, Layout.comma]
  unfold statement Layout.importStatement
  rw [Doc.cat, List.flatten_cons, List.flatten_cons, List.flatten_cons, List.flatten_nil,
    List.append_nil, Layout.write_append, Layout.write_append, hlist]
  simp only [Layout.write_cons, Layout.write_nil, Layout.mark, String.append_assoc,
    String.append_empty]

/-- No statement is blank, so none is dropped. -/
theorem write_doc (l : Layout) (groups : ImportGroups) :
    l.write (ImportGroups.doc groups)
      = l.separator.intercalate (groups.map fun g => l.importStatement g.1 g.2) := by
  have hkept : (groups.map statement).filter (!Doc.isBlank ·) = groups.map statement := by
    refine List.filter_eq_self.mpr (List.forall_mem_map.mpr fun g _ => ?_)
    have hword : Mark.isBlank (.text "import") = false := by decide
    simp [statement, Doc.isBlank, hword]
  unfold ImportGroups.doc Doc.join
  rw [hkept, Layout.write_intercalate, List.map_map]
  congr 1
  · simp [Layout.mark, Layout.separator]
  · exact List.map_inj_left.mpr fun g _ => write_statement l g

/-- Imports are grouped by module. The preamble has one statement for each module that an
interface or a class names, in the order in which they are first named, and each statement has the
symbols that are asked for from its module. Whatever the order of the imports, each of them stands
in one group, under its own module, and a group is never empty. -/
theorem imports_are_grouped_by_module (p : Program) :
    (let imports := p.interfaces.flatMap (·.imports) ++ p.classes.flatMap (·.imports)
      let l := p.options.layout
      p.generate.output = l.join [
        l.separator.intercalate ((paths imports).map fun path =>
          l.importStatement path (symbolsFrom imports path)),
        l.join p.texts])
    ∧ ∀ calls : List Import,
      let groups := calls.foldl (fun groups i => ImportGroups.add i.path i.name groups) []
      groups = (paths calls).map (fun path => (path, symbolsFrom calls path))
      ∧ (groups.map (·.1)).Nodup
      ∧ (∀ g ∈ groups, g.2 ≠ [])
      ∧ groups.length = (calls.map (·.path)).toFinset.card
      ∧ (groups.map (·.2.length)).sum = calls.length
      ∧ (entries groups).Perm calls := by
  refine ⟨?_, fun calls => ?_⟩
  · intro imports l
    have hassembly : p.assembly.imports = grouping imports := by
      rw [Program.assembly_eq, ofImports_eq]
    rw [Program.output_eq, hassembly, write_doc]
    unfold grouping
    rw [List.map_map]
    rfl
  · intro groups
    have hgroups : groups = grouping calls := ofImports_eq calls
    have hpaths : groups.map (·.1) = paths calls := by
      rw [hgroups, grouping, List.map_map]
      exact List.map_id _
    have hentries : (entries groups).Perm calls := entries_addAll [] calls
    refine ⟨hgroups, ?_, ?_, ?_, ?_, hentries⟩
    · rw [hpaths]
      exact nodup_paths calls
    · rw [hgroups]
      exact List.forall_mem_map.mpr fun path hpath => symbolsFrom_ne_nil hpath
    · rw [← length_eraseDups, ← List.length_map (f := (·.1)), hpaths]
      rfl
    · rw [← length_entries, hentries.length_eq]

end ImportGroups

end ModelScribe
