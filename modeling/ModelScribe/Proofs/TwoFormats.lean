-- Two formats, one language. A definition may be written as JSON or as TOML,
-- and a tree that both of them state is read as the same definition or
-- refused by both. They part in one case only, a list that stands for a
-- record and has more items than the record has fields: JSON refuses it, and
-- TOML passes over the surplus.
import ModelScribe.Proofs.ReadingBack
import ModelScribe.Proofs.TomlReading

namespace ModelScribe.Definition

/-- The two sources state the same definition, or each is refused by the reader of its
format. -/
def Agree (json toml : Except Refusal Definition) : Prop :=
  (∃ d, json = .ok d ∧ toml = .ok d) ∨
    (∃ fault, json = .error (.json fault)) ∧ ∃ span, toml = .error (.toml span)

/-! ## Results -/

section

variable {source json toml : String} {t : Tree}

theorem json_refused (h : (parse .json source).toOption = none) :
    ∃ fault, parse .json source = .error (.json fault) := by
  rw [parse] at h ⊢
  cases hread : Json.read Schema.definition source with
  | error fault => exact ⟨fault, rfl⟩
  | ok v =>
    rw [hread] at h
    cases h

theorem toml_refused (h : (parse .toml source).toOption = none) :
    ∃ span, parse .toml source = .error (.toml span) := by
  rw [parse] at h ⊢
  cases hread : Toml.read Schema.definition source with
  | error span => exact ⟨span, rfl⟩
  | ok v =>
    rw [hread] at h
    cases h

theorem agree_of_toOption_eq (h : (parse .json json).toOption = (parse .toml toml).toOption) :
    Agree (parse .json json) (parse .toml toml) := by
  cases hjson : (parse .json json).toOption with
  | none => exact Or.inr ⟨json_refused hjson, toml_refused (h.symm.trans hjson)⟩
  | some d => exact Or.inl ⟨d, eq_ok_of_toOption hjson, eq_ok_of_toOption (h.symm.trans hjson)⟩

/-! ## Trees -/

theorem toOption_parse_json (h : Json.States t json) :
    (parse .json json).toOption
      = (Schema.definition.meaning t).map Schema.definitionOf := by
  have hread := Json.read_of_states distinct_definition height_definition h
  exact (toOption_map ..).trans (congrArg _ ((toOption_mapError ..).trans hread))

theorem toOption_parse_toml (h : Toml.States t toml) (hdepth : t.Within 80) :
    (parse .toml toml).toOption
      = (Schema.definition.meaning (Schema.definition.trim t)).map Schema.definitionOf := by
  have hread := Toml.read_of_states distinct_definition h (hdepth.mono (by decide))
  exact (toOption_map ..).trans (congrArg _ ((toOption_mapError ..).trans hread))

/-- A tree that fits a definition is read alike in both formats. One that does not, as it has
surplus items, is refused as JSON; as TOML it is read as JSON is without them. -/
theorem both_formats_read_alike (hdepth : t.Within 80) (hjson : Json.States t json)
    (htoml : Toml.States t toml) :
    (Schema.definition.Fits t → Agree (parse .json json) (parse .toml toml)) ∧
      (¬ Schema.definition.Fits t →
        (∃ fault, parse .json json = .error (.json fault)) ∧
          ∀ trimmed, Json.States (Schema.definition.trim t) trimmed →
            Agree (parse .json trimmed) (parse .toml toml)) := by
  have htrim := toOption_parse_toml htoml hdepth
  refine ⟨fun hfits => ?_, fun hsurplus => ⟨?_, fun trimmed htrimmed => ?_⟩⟩
  · rw [Schema.definition.meaning_trim distinct_definition hfits] at htrim
    exact agree_of_toOption_eq ((toOption_parse_json hjson).trans htrim.symm)
  · have hnone : Schema.definition.meaning t = none :=
      Option.not_isSome_iff_eq_none.mp fun h => hsurplus (Schema.definition.fits_of_meaning h)
    exact json_refused ((toOption_parse_json hjson).trans (by rw [hnone]; rfl))
  · exact agree_of_toOption_eq ((toOption_parse_json htrimmed).trans htrim.symm)

end

/-! ## An enumeration as a list -/

/-- A definition of one enumeration, which is stated as a list. -/
def enumRow (items : List Tree) : Tree := .table [("enums", .list [.list items])]

/-- A name, no members and no values. -/
def enumItems : List Tree := [.text "E", .list [], .list []]

/-- One item more than an enumeration has fields. -/
def surplusItems : List Tree := [.text "E", .list [], .list [], .integer 1]

theorem json_states_enumRow {items : List Tree} {cs : List Char}
    (h : Json.grammar.Spells (.list items) cs) :
    Json.States (enumRow items)
      (String.ofList ("\x7b\"enums\":[".toList ++ (cs ++ "]\x7d".toList))) := by
  have hname : ∀ c ∈ "enums".toList, Json.grammar.spellsChar c [c] :=
    fun c hc => Json.spellsChar_alphanum (List.all_eq_true.mp (by decide) c hc)
  have hrows := Grammar.Spells.list (g := Json.grammar) [(_, _)] (List.forall_mem_singleton.mpr h)
    (separated_tight ..)
  have hroot := Grammar.Spells.table (g := Json.grammar) [.tight "enums" _ _] (by simp)
    (by simp [Grammar.names_tight hname]) (List.forall_mem_singleton.mpr hrows) (separated_tight ..)
  have hstates := Json.States.intro (List.forall_mem_nil _) hroot (List.forall_mem_nil _)
  simpa [Member.tight, Member.text, Member.entry, enumRow, Json.grammar] using hstates

theorem toml_states_enumRow {items : List Tree} {cs : List Char}
    (h : Toml.grammar.Spells (.list items) cs) :
    Toml.States (enumRow items) (String.ofList ("enums = [".toList ++ (cs ++ "]\n".toList))) := by
  have hname : ∀ c ∈ "enums".toList, Toml.grammar.isKeyChar c :=
    fun c hc => List.all_eq_true.mp (by decide : "enums".toList.all Toml.isKeyChar) c hc
  have hrows := Grammar.Spells.list (g := Toml.grammar) [(_, _)] (List.forall_mem_singleton.mpr h)
    (separated_tight ..)
  have hstates := Toml.States.intro [.bare "enums" _ _] (by simp)
    (by simp [Grammar.names_bare (g := Toml.grammar) rfl (by decide) hname])
    (List.forall_mem_singleton.mpr hrows)
    (.next (List.forall_mem_nil _) (List.forall_mem_nil _) (.done (List.forall_mem_nil _)))
  simpa [Member.bare, Member.text, Member.entry, enumRow] using hstates

section

variable {g : Grammar}

theorem spells_empty : g.Spells (.list []) ['[', ']'] :=
  .list [] (List.forall_mem_nil _) (.done (List.forall_mem_nil _))

variable (h : g.spellsChar 'E' ['E'])

include h

theorem spells_name : g.Spells (.text "E") "\"E\"".toList :=
  .text (Grammar.quotes_tight (by simpa using h))

/-- The items are written alike in both formats. -/
theorem spells_enumItems : g.Spells (.list enumItems) "[\"E\",[],[]]".toList :=
  .list [(_, _), (_, _), (_, _)]
    (List.forall_mem_cons.mpr ⟨spells_name h,
      List.forall_mem_cons.mpr ⟨spells_empty, List.forall_mem_singleton.mpr spells_empty⟩⟩)
    (separated_tight ..)

theorem spells_surplusItems : g.Spells (.list surplusItems) "[\"E\",[],[],1]".toList := by
  have hone : g.Spells (.integer 1) _ := .integer 1 (by decide) (by decide)
  exact .list [(_, _), (_, _), (_, _), (_, _)]
    (List.forall_mem_cons.mpr ⟨spells_name h, List.forall_mem_cons.mpr ⟨spells_empty,
      List.forall_mem_cons.mpr ⟨spells_empty, List.forall_mem_singleton.mpr hone⟩⟩⟩)
    (separated_tight ..)

end

theorem json_states_enumItems :
    Json.States (enumRow enumItems) "\x7b\"enums\":[[\"E\",[],[]]]\x7d" :=
  json_states_enumRow (spells_enumItems (Json.spellsChar_alphanum (by decide)))

theorem json_states_surplusItems :
    Json.States (enumRow surplusItems) "\x7b\"enums\":[[\"E\",[],[],1]]\x7d" :=
  json_states_enumRow (spells_surplusItems (Json.spellsChar_alphanum (by decide)))

theorem toml_states_enumItems : Toml.States (enumRow enumItems) "enums = [[\"E\",[],[]]]\n" :=
  toml_states_enumRow (spells_enumItems (.plain (by decide) (by decide) (by decide)))

theorem toml_states_surplusItems :
    Toml.States (enumRow surplusItems) "enums = [[\"E\",[],[],1]]\n" :=
  toml_states_enumRow (spells_surplusItems (.plain (by decide) (by decide) (by decide)))

theorem trim_surplusItems : Schema.definition.trim (enumRow surplusItems) = enumRow enumItems := rfl

theorem fits_enumItems : Schema.definition.Fits (enumRow enumItems) :=
  Schema.definition.fits_of_meaning rfl

theorem not_fits_surplusItems : ¬ Schema.definition.Fits (enumRow surplusItems) := by
  simp [Schema.definition, Schema.definitionFields, Schema.enumFields, enumRow, surplusItems,
    Kind.Fits, Fields.FitNamed, Fields.FitPlaces, List.lookup_cons]

theorem within_enumItems : (enumRow enumItems).Within 4 := by
  simp [enumRow, enumItems, Tree.Within]

theorem within_surplusItems : (enumRow surplusItems).Within 4 := by
  simp [enumRow, surplusItems, Tree.Within]

theorem an_enumeration_is_read_alike :
    (enumRow enumItems).Within 80 ∧ Schema.definition.Fits (enumRow enumItems) ∧
      Agree (parse .json "\x7b\"enums\":[[\"E\",[],[]]]\x7d")
        (parse .toml "enums = [[\"E\",[],[]]]\n") ∧
      (enumRow surplusItems).Within 80 ∧ ¬ Schema.definition.Fits (enumRow surplusItems) ∧
      (∃ fault, parse .json "\x7b\"enums\":[[\"E\",[],[],1]]\x7d" = .error (.json fault)) ∧
      Agree (parse .json "\x7b\"enums\":[[\"E\",[],[]]]\x7d")
        (parse .toml "enums = [[\"E\",[],[],1]]\n") := by
  have hdepth : (enumRow enumItems).Within 80 := within_enumItems.mono (by decide)
  have hdepth' : (enumRow surplusItems).Within 80 := within_surplusItems.mono (by decide)
  have hsurplus := (both_formats_read_alike hdepth' json_states_surplusItems
    toml_states_surplusItems).2 not_fits_surplusItems
  have hfits := (both_formats_read_alike hdepth json_states_enumItems
    toml_states_enumItems).1 fits_enumItems
  exact ⟨hdepth, fits_enumItems, hfits, hdepth', not_fits_surplusItems, hsurplus.1,
    hsurplus.2 _ (trim_surplusItems ▸ json_states_enumItems)⟩

/-- The same tree is refused as JSON and read as TOML. -/
theorem a_surplus_item_parts_the_formats :
    (enumRow surplusItems).Within 64 ∧
      Json.States (enumRow surplusItems) "\x7b\"enums\":[[\"E\",[],[],1]]\x7d" ∧
      Toml.States (enumRow surplusItems) "enums = [[\"E\",[],[],1]]\n" ∧
      (∃ fault, parse .json "\x7b\"enums\":[[\"E\",[],[],1]]\x7d" = .error (.json fault)) ∧
      parse .toml "enums = [[\"E\",[],[],1]]\n" = .ok { enums := [{ name := "E" }] } ∧
      ¬ Agree (parse .json "\x7b\"enums\":[[\"E\",[],[],1]]\x7d")
        (parse .toml "enums = [[\"E\",[],[],1]]\n") := by
  obtain ⟨fault, hjson⟩ := json_refused (toOption_parse_json json_states_surplusItems)
  have htoml : parse .toml "enums = [[\"E\",[],[],1]]\n" = .ok { enums := [{ name := "E" }] } :=
    eq_ok_of_toOption (toOption_parse_toml toml_states_surplusItems
      (within_surplusItems.mono (by decide)))
  refine ⟨within_surplusItems.mono (by decide), json_states_surplusItems, toml_states_surplusItems,
    ⟨fault, hjson⟩, htoml, ?_⟩
  rw [hjson, htoml]
  rintro (⟨d, h, -⟩ | ⟨-, span, h⟩) <;> cases h

end ModelScribe.Definition
