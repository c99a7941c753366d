-- The laws of the rosters. Along a lineage of classes the two rosters of an
-- object grow by the names of each class, once and in order. The base model
-- begins them, and every class behind it appends. Only what writes to a field
-- of this name by other means breaks a lineage: the note of the class, a
-- private field behind accessors, or a second base model.
import Mathlib.Data.List.Flatten
import ModelScribe.Proofs.Objects
import ModelScribe.Proofs.ScriptProgram
import ModelScribe.Proofs.Settings

namespace ModelScribe

open Text
open Script (isIdentifier)

/-! ## Lineages -/

/-- The field that a step of an accessor works on, unless it is code of the property's own. -/
def AccessorStep.field? : AccessorStep → Option String
  | .give field => some field
  | .assign field => some field
  | .markDirty field => some field
  | .stamp field => some field
  | .custom _ => none

namespace Class

end Class

/-! ## The whole lineage -/

namespace Class

end Class

namespace Program

end Program

namespace Program.Lineage

variable {p : Program} {root : Class} {heirs : List Class}

/-- The classes of a lineage as they are read from the text. -/
def texts (v : Conventions) (root : Class) (heirs : List Class) : List ClassText :=
  root.text v :: heirs.map fun c => c.empowered.text v

end Program.Lineage

/-! ## Base models that extend or construct -/

/-- The names that an object has in a roster. -/
def Object.namesIn (o : Object) (r : Roster) : List String :=
  match o r.field with
  | some (.names list) => list
  | _ => []

namespace Class

/-- What a base model leaves in a roster: its names as first value, and once more what its
constructor does. -/
def rosterValue (v : Conventions) (c : Class) (r : Roster) : FieldValue :=
  if c.tags v r then
    if r.names c = [] then .text c.name else .names (letters c.name ++ r.names c)
  else .names (if c.hasConstructor then r.names c ++ r.names c else r.names c)

theorem nodup_names {c : Class} (h : (c.properties.map (·.name)).Nodup) (r : Roster) :
    (r.names c).Nodup := by
  unfold Roster.names
  split
  · exact h.sublist (List.filter_sublist.map _)
  · exact List.nodup_nil

/-- When the value in a roster is what was inherited, followed by the names of the class. -/
theorem rosterValue_eq_iff (v : Conventions) (c : Class) (r : Roster) {old : List String}
    (hold : c.supertype = none → old = []) :
    c.rosterValue v r = .names (old ++ r.names c)
      ↔ if c.tags v r then r.names c ≠ [] ∧ old = letters c.name
        else c.hasConstructor = true → old = r.names c := by
  unfold rosterValue
  cases htags : c.tags v r with
  | true =>
    by_cases hnames : r.names c = []
    · simp [hnames]
    · simp [hnames, eq_comm]
  | false =>
    cases hcons : c.hasConstructor with
    | true => simp [eq_comm]
    | false =>
      simp [hold (supertype_eq_none hcons)]

/-- A base model registers each of its names once, behind those that it inherits, only under a
condition. Its first values take the place of what it inherits, and its constructor appends the
names once more. So a base model without a constructor keeps the law, and one with a constructor
does only where the inherited names are its own ones over again, such as when there are none; or
where the note of the class, kept in the roster's own field, happens to spell them. -/
theorem a_base_model_registers_its_names_once_iff (v : Conventions) (c : Class)
    (hbase : c.isBaseModel = true) (hname : isBlank c.name = false)
    (hdistinct : (c.properties.map (·.name)).Nodup)
    (inherited : Object) (hinherited : c.supertype = none → inherited = .blank) :
    ∃ (t : ClassText) (o : Object), c.readings v = [t] ∧ t.construct inherited = some o
      ∧ ∀ r : Roster, (r.names c).Nodup ∧ o r.field = some (c.rosterValue v r)
        ∧ (o r.field = some (.names (inherited.namesIn r ++ r.names c))
          ↔ if c.tags v r then r.names c ≠ [] ∧ inherited.namesIn r = letters c.name
            else c.hasConstructor = true → inherited.namesIn r = r.names c) := by
  obtain ⟨o, hrun, ho⟩ := exists_construct v c (c.init_text_of_isBaseModel v hbase inherited)
  refine ⟨c.text v, o, ?_, hrun, ?_⟩
  · rw [readings_eq, hname]
    rfl
  · intro r
    have hold : c.supertype = none → inherited.namesIn r = [] := by
      intro hsuper
      rw [hinherited hsuper]
      rfl
    have hvalue : o r.field = some (c.rosterValue v r) := ho r
    refine ⟨nodup_names hdistinct r, hvalue, ?_⟩
    rw [hvalue, Option.some_inj]
    exact c.rosterValue_eq_iff v r hold

/-- A base model that extends another: the names that it inherits are gone and its own come
twice, while a roster that is empty throughout is as it should be. -/
theorem the_rosters_of_an_extending_base_model :
    let c : Class := {
      name := "Node", parent := some "Root", isBaseModel := true, canClone := true
      properties := [.named "a"] }
    let v : Conventions := ({} : Options).conventions
    let inherited : Object :=
      (Object.blank.set "_clones" (.names ["id"])).set "_exports" (.names [])
    c.isBaseModel = true ∧ isBlank c.name = false ∧ (c.properties.map (·.name)).Nodup
    ∧ (c.supertype = none → inherited = .blank)
    ∧ ∃ (t : ClassText) (o : Object), c.readings v = [t] ∧ t.construct inherited = some o
      ∧ o "_clones" = some (.names ["a", "a"])
      ∧ o "_clones" ≠ some (.names (["id"] ++ Roster.clones.names c))
      ∧ o "_exports" = some (.names ([] ++ Roster.exports.names c)) := by
  intro c v inherited
  have hname : isBlank c.name = false := by decide
  have hdistinct : (c.properties.map (·.name)).Nodup := by decide
  have hsuper : c.supertype = none → inherited = .blank := fun h => absurd h (by decide)
  obtain ⟨t, o, hread, hrun, ho⟩ :=
    a_base_model_registers_its_names_once_iff v c rfl hname hdistinct inherited hsuper
  obtain ⟨-, hclones, hclonesIff⟩ := ho .clones
  obtain ⟨-, -, hexportsIff⟩ := ho .exports
  refine ⟨rfl, hname, hdistinct, hsuper, t, o, hread, hrun, hclones, ?_, ?_⟩
  · intro hkept
    exact absurd (hclonesIff.mp hkept rfl) (by decide)
  · exact hexportsIff.mpr fun _ => rfl

/-- A base model with an argument registers its name twice. -/
theorem a_base_model_with_an_argument_registers_twice :
    let c : Class := {
      name := "Point", isBaseModel := true, canClone := true
      args := [.named "x"], properties := [.named "a"] }
    let v : Conventions := ({} : Options).conventions
    c.isBaseModel = true ∧ isBlank c.name = false ∧ c.supertype = none
    ∧ Roster.clones.names c = ["a"]
    ∧ ∃ (t : ClassText) (o : Object), c.readings v = [t] ∧ t.construct .blank = some o
      ∧ o "_clones" = some (.names ["a", "a"]) := by
  intro c v
  have hname : isBlank c.name = false := by decide
  refine ⟨rfl, hname, rfl, rfl, c.text v, _, ?_, rfl, rfl⟩
  rw [readings_eq, hname]
  rfl

end Class

end ModelScribe
