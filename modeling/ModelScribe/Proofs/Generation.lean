-- The laws of generation. `assembly` takes one declaration after the other
-- and carries a flag along: a base model has been declared. None of it is
-- needed to say what comes out. A class is written with two flags forced on
-- if it is no base model itself and stands after one, and this is all that
-- one class can do to the text of another.
import ModelScribe.Program
import ModelScribe.Proofs.Joining

namespace ModelScribe

open Text

/-! ## Forced capabilities -/

namespace Class

/-- The class with the flags for copies and exports forced on, or left as they are. -/
def forced (force : Bool) (c : Class) : Class :=
  { c with canClone := c.canClone || force, canExport := c.canExport || force }

/-- The classes as they are written when they come after the given history: the flags are
forced on where the class is no base model and has one before it. -/
def writtenAfter (seen : Bool) (classes : List Class) : List Class :=
  classes.mapIdx fun i c =>
    c.forced (!c.isBaseModel && (seen || (classes.take i).any (·.isBaseModel)))

@[simp] theorem isBaseModel_settled (seen : Bool) (c : Class) :
    (c.settled seen).isBaseModel = c.isBaseModel := by
  unfold settled
  split <;> rfl

@[simp] theorem isBaseClass_settled (seen : Bool) (c : Class) :
    (c.settled seen).isBaseClass = c.isBaseClass := by
  unfold settled
  split <;> rfl

@[simp] theorem outline_settled (seen : Bool) (c : Class) :
    (c.settled seen).toOutline = c.toOutline := by
  unfold settled
  split <;> rfl

theorem settled_settled (seen : Bool) (c : Class) :
    (c.settled seen).settled seen = c.settled seen := by
  cases hseen : seen && !c.isBaseModel with
  | false => simp [settled, hseen]
  | true => simp [settled, hseen, empowered]

@[simp] theorem forced_false (c : Class) : c.forced false = c := by
  simp [forced]

@[simp] theorem forced_true (c : Class) : c.forced true = c.empowered := by
  simp [forced, empowered]

/-- The class itself never counts as a base model before it. -/
theorem settled_eq_forced (seen : Bool) (c : Class) :
    c.settled (seen || c.isBaseModel) = c.forced (!c.isBaseModel && seen) := by
  unfold settled
  cases c.isBaseModel with
  | true => simp
  | false => cases seen <;> simp

@[simp] theorem writtenAfter_nil (seen : Bool) : writtenAfter seen [] = [] := rfl

theorem writtenAfter_cons (seen : Bool) (c : Class) (rest : List Class) :
    writtenAfter seen (c :: rest)
      = c.settled (seen || c.isBaseModel) :: writtenAfter (seen || c.isBaseModel) rest := by
  unfold writtenAfter
  rw [List.mapIdx_cons, settled_eq_forced]
  congr 1
  · simp
  · congr 1
    funext i d
    rw [List.take_succ_cons, List.any_cons, Bool.or_assoc]

theorem getElem?_writtenAfter (seen : Bool) (classes : List Class) (i : Nat) :
    (writtenAfter seen classes)[i]? = classes[i]?.map fun c =>
      c.forced (!c.isBaseModel && (seen || (classes.take i).any (·.isBaseModel))) := by
  unfold writtenAfter
  rw [List.getElem?_mapIdx]

/-- What is written of a class hangs on the classes before it by their base model flags
alone. -/
theorem writtenAfter_set {seen : Bool} {classes : List Class} {i : Nat} {c d : Class}
    (hc : classes[i]? = some c) (hflag : d.isBaseModel = c.isBaseModel) {k : Nat} (hk : k ≠ i) :
    (writtenAfter seen (classes.set i d))[k]? = (writtenAfter seen classes)[k]? := by
  have hflags : (classes.set i d).map (·.isBaseModel) = classes.map (·.isBaseModel) := by
    apply List.ext_getElem?
    intro j
    rw [List.getElem?_map, List.getElem?_map]
    by_cases hj : i = j
    · obtain ⟨hi, -⟩ := List.getElem?_eq_some_iff.mp hc
      rw [← hj, List.getElem?_set_self hi, hc, Option.map_some, Option.map_some, hflag]
    · rw [List.getElem?_set_ne hj]
  have hany : ((classes.set i d).take k).any (·.isBaseModel)
      = (classes.take k).any (·.isBaseModel) := by
    have htaken := congrArg (fun flags => (flags.take k).any (·)) hflags
    simpa only [← List.map_take, List.any_map, Function.comp_def] using htaken
  rw [getElem?_writtenAfter, getElem?_writtenAfter, List.getElem?_set_ne hk.symm, hany]

end Class

/-! ## What one declaration adds, and what a list of them adds -/

namespace Assembly

theorem exported_eq (names : List String) (name : String) :
    exported names name = names ++ [name].filter (!isBlank ·) := by
  unfold exported
  cases h : isBlank name with
  | true => simp [h]
  | false => simp [h]

theorem foldl_addEnum (enums : List Enumeration) (a : Assembly) :
    enums.foldl addEnum a = { a with
      manifest := { a.manifest with
        enums := a.manifest.enums ++ (enums.map (·.name)).filter (!isBlank ·) }
      blocks := a.blocks ++ enums.map (·.doc) } := by
  induction enums generalizing a with
  | nil => simp
  | cons e rest ih =>
    rw [List.foldl_cons, ih, addEnum, exported_eq, List.map_cons, List.map_cons,
      ← List.singleton_append (l := rest.map (·.name)), List.filter_append]
    simp

theorem foldl_addInterface (interfaces : List Interface) (a : Assembly) :
    interfaces.foldl addInterface a = { a with
      manifest := { a.manifest with
        interfaces := a.manifest.interfaces ++ (interfaces.map (·.name)).filter (!isBlank ·) }
      imports := a.imports.addAll (interfaces.flatMap (·.imports))
      blocks := a.blocks ++ interfaces.map (·.doc) } := by
  induction interfaces generalizing a with
  | nil => simp [ImportGroups.addAll]
  | cons i rest ih =>
    rw [List.foldl_cons, ih, addInterface, exported_eq, List.map_cons, List.map_cons,
      ← List.singleton_append (l := rest.map (·.name)), List.filter_append]
    simp [ImportGroups.addAll]

/-- The flag of the history is set by every base model and never unset. -/
theorem foldl_addClass (v : Conventions) (classes : List Class) (a : Assembly) :
    classes.foldl (addClass v) a = {
      manifest := { a.manifest with
        classes := a.manifest.classes
          ++ ((classes.filter (!·.isBaseClass)).map (·.name)).filter (!isBlank ·) }
      imports := a.imports.addAll (classes.flatMap (·.imports))
      blocks := a.blocks ++ (Class.writtenAfter a.seenBaseModel classes).map (·.doc v)
      seenBaseModel := a.seenBaseModel || classes.any (·.isBaseModel) } := by
  induction classes generalizing a with
  | nil => simp [ImportGroups.addAll]
  | cons c rest ih =>
    rw [List.foldl_cons, ih, Class.writtenAfter_cons, addClass]
    cases hbase : c.isBaseClass with
    | true => simp [hbase, ImportGroups.addAll, Bool.or_assoc]
    | false =>
      rw [List.filter_cons_of_pos (by simp [hbase]), List.map_cons,
        ← List.singleton_append (l := (rest.filter _).map (·.name)), List.filter_append]
      simp [exported_eq, ImportGroups.addAll, Bool.or_assoc]

/-- A class that already has the flags that its place forces on is taken as before. -/
theorem addClass_settled (v : Conventions) (a : Assembly) (c : Class) :
    addClass v a (c.settled (a.seenBaseModel || c.isBaseModel)) = addClass v a c := by
  simp [addClass, Class.settled_settled]

theorem foldl_addClass_writtenAfter (v : Conventions) (classes : List Class) (a : Assembly) :
    (Class.writtenAfter a.seenBaseModel classes).foldl (addClass v) a
      = classes.foldl (addClass v) a := by
  induction classes generalizing a with
  | nil => rfl
  | cons c rest ih =>
    rw [Class.writtenAfter_cons, List.foldl_cons, List.foldl_cons, addClass_settled]
    exact ih (addClass v a c)

end Assembly

/-! ## The program -/

namespace Program

/-- The classes as they are written: the flags are forced on where the class is no base model
and one of the classes before it is one. -/
def written (p : Program) : List Class :=
  p.classes.mapIdx fun i c =>
    c.forced (!c.isBaseModel && (p.classes.take i).any (·.isBaseModel))

/-- The rendered declarations, in the order in which they are taken. -/
def texts (p : Program) : List String := p.assembly.blocks.map p.options.layout.write

theorem written_eq (p : Program) : p.written = Class.writtenAfter false p.classes := by
  simp [written, Class.writtenAfter]

theorem assembly_eq (p : Program) :
    p.assembly = {
      manifest := {
        classes := ((p.classes.filter (!·.isBaseClass)).map (·.name)).filter (!isBlank ·)
        enums := (p.enums.map (·.name)).filter (!isBlank ·)
        interfaces := (p.interfaces.map (·.name)).filter (!isBlank ·) }
      imports := .ofImports (p.interfaces.flatMap (·.imports) ++ p.classes.flatMap (·.imports))
      blocks := p.enums.map (·.doc) ++ p.interfaces.map (·.doc)
        ++ p.written.map (·.doc p.options.conventions)
      seenBaseModel := p.classes.any (·.isBaseModel) } := by
  unfold assembly
  rw [Assembly.foldl_addEnum, Assembly.foldl_addInterface, Assembly.foldl_addClass, written_eq]
  simp [ImportGroups.ofImports, ImportGroups.addAll]

theorem forall_mem_blocks {P : Doc → Prop} (p : Program) :
    (∀ d ∈ p.assembly.blocks, P d)
      ↔ (∀ e ∈ p.enums, P e.doc) ∧ (∀ i ∈ p.interfaces, P i.doc)
        ∧ ∀ c ∈ p.written, P (c.doc p.options.conventions) := by
  rw [assembly_eq, List.forall_mem_append, List.forall_mem_append, List.forall_mem_map,
    List.forall_mem_map, List.forall_mem_map, and_assoc]

/-- The text of each declaration is its own document, laid out alone. -/
theorem texts_eq (p : Program) :
    p.texts = p.enums.map (fun e => p.options.layout.write e.doc)
      ++ p.interfaces.map (fun i => p.options.layout.write i.doc)
      ++ p.written.map (fun c => p.options.layout.write (c.doc p.options.conventions)) := by
  unfold texts
  rw [assembly_eq, List.map_append, List.map_append, List.map_map, List.map_map, List.map_map]
  rfl

theorem assembly_written (p : Program) :
    ({ p with classes := p.written } : Program).assembly = p.assembly := by
  have hunseen : (p.interfaces.foldl Assembly.addInterface
      (p.enums.foldl Assembly.addEnum {})).seenBaseModel = false := by
    rw [Assembly.foldl_addEnum, Assembly.foldl_addInterface]
  have hkept := Assembly.foldl_addClass_writtenAfter p.options.conventions p.classes
    (p.interfaces.foldl Assembly.addInterface (p.enums.foldl Assembly.addEnum {}))
  rw [hunseen, ← written_eq] at hkept
  exact hkept

theorem generate_written (p : Program) :
    ({ p with classes := p.written } : Program).generate = p.generate := by
  unfold generate manifest doc
  rw [assembly_written]

theorem getElem?_append_congr {xs ys zs : List String} {j k : Nat}
    (h : ∀ m ≠ j, ys[m]? = zs[m]?) (hk : k ≠ xs.length + j) :
    (xs ++ ys)[k]? = (xs ++ zs)[k]? := by
  rw [List.getElem?_append, List.getElem?_append]
  split
  · rfl
  · exact h (k - xs.length) (by omega)

/-- Another class in the place of one changes no other text, as long as the two agree on
whether they are base models. -/
theorem texts_set {p : Program} {i : Nat} {c d : Class} (hc : p.classes[i]? = some c)
    (hflag : d.isBaseModel = c.isBaseModel) {k : Nat}
    (hk : k ≠ p.enums.length + p.interfaces.length + i) :
    ({ p with classes := p.classes.set i d } : Program).texts[k]? = p.texts[k]? := by
  rw [texts_eq, texts_eq, written_eq, written_eq]
  apply getElem?_append_congr (j := i)
  · intro m hm
    rw [List.getElem?_map, List.getElem?_map, Class.writtenAfter_set hc hflag hm]
  · simpa using hk

theorem output_eq (p : Program) :
    p.generate.output = p.options.layout.join
      [p.options.layout.write (ImportGroups.doc p.assembly.imports),
        p.options.layout.join p.texts] := by
  unfold generate doc texts
  rw [Layout.write_join, List.map_cons, List.map_cons, List.map_nil, Layout.write_join]

/-! ## The closed form -/

/-- A generation is what its declarations yield by themselves: each class with its own
flags, forced on for a class that is no base model and has one before it. So the flags may
as well be set beforehand, and a class reaches the text of another through its base model
flag alone. -/
theorem capabilities_spread_in_closed_form (p : Program) :
    p.generate.output = p.options.layout.join [
        p.options.layout.write (ImportGroups.doc (.ofImports
          (p.interfaces.flatMap (·.imports) ++ p.classes.flatMap (·.imports)))),
        p.options.layout.join
          (p.enums.map (fun e => p.options.layout.write e.doc)
            ++ p.interfaces.map (fun i => p.options.layout.write i.doc)
            ++ p.written.map (fun c => p.options.layout.write (c.doc p.options.conventions)))]
    ∧ p.generate.manifest = {
        classes := ((p.classes.filter (!·.isBaseClass)).map (·.name)).filter (!isBlank ·)
        enums := (p.enums.map (·.name)).filter (!isBlank ·)
        interfaces := (p.interfaces.map (·.name)).filter (!isBlank ·) }
    ∧ ({ p with classes := p.written } : Program).generate = p.generate
    ∧ ∀ (i : Nat) (c d : Class), p.classes[i]? = some c → d.isBaseModel = c.isBaseModel →
        ∀ k ≠ p.enums.length + p.interfaces.length + i,
          ({ p with classes := p.classes.set i d } : Program).texts[k]? = p.texts[k]? := by
  refine ⟨?_, ?_, p.generate_written, ?_⟩
  · rw [output_eq, texts_eq, assembly_eq]
  · unfold generate manifest
    rw [assembly_eq]
  · intro i c d hc hflag k hk
    exact texts_set hc hflag hk

/-- A nameless base model in front of a class: the class before it is replaced, and the text
of the class behind it stays. -/
theorem the_text_behind_a_nameless_base_model_stays :
    let p : Program := { classes := [.named "First", { isBaseModel := true }, .named "Last"] }
    p.classes[0]? = some (.named "First")
    ∧ (Class.named "Other").isBaseModel = (Class.named "First").isBaseModel
    ∧ ({ p with classes := p.classes.set 0 (.named "Other") } : Program).texts[2]?
        = p.texts[2]? := by
  intro p
  have hstays := (capabilities_spread_in_closed_form p).2.2.2 0 (.named "First") (.named "Other")
    rfl rfl 2 (by decide)
  exact ⟨rfl, rfl, hstays⟩

end Program

end ModelScribe
