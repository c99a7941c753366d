-- Objects at run time. An object comes to be class by class, the supertype
-- first: when the constructor of the supertype is done, the declared fields
-- get their first values, and then the rest of the constructor runs. Code
-- that a class takes word for word is left aside. So the two rosters of an
-- object can be followed from class to class.
import ModelScribe.Proofs.ClassText

namespace ModelScribe

open Text

/-! ## Running classes -/

/-- The fields that an object has, with their values. -/
abbrev Object := String → Option FieldValue

namespace Object

/-- An object before any class has worked on it. -/
def blank : Object := fun _ => none

def set (o : Object) (field : String) (value : FieldValue) : Object :=
  fun f => if f = field then some value else o f

theorem set_self (o : Object) (field : String) (value : FieldValue) :
    o.set field value field = some value := if_pos rfl

theorem set_of_ne (o : Object) {field f : String} (value : FieldValue) (h : f ≠ field) :
    o.set field value f = o f := if_neg h

end Object

/-- The items of a text that is spread in a list: its characters. -/
def letters (s : String) : List String := s.toList.map fun c => String.ofList [c]

/-- What a value gives when it is spread in a list. Nothing is known of other code. -/
def FieldValue.items : FieldValue → Option (List String)
  | .names list => some list
  | .text s => some (letters s)
  | .code => none

/-- What a statement makes of an object. There is no second call of the supertype. -/
def Statement.exec (o : Object) : Statement → Option Object
  | .callSuper => none
  | .setText field s => some (o.set field (.text s))
  | .spread target source names =>
    ((o source).bind FieldValue.items).map fun items => o.set target (.names (items ++ names))
  | .verbatim => some o

/-- The object with the first values of fields, in order. -/
def Object.init (o : Object) (fields : List (String × FieldValue)) : Object :=
  fields.foldl (fun o f => o.set f.1 f.2) o

namespace ClassText

/-- What a class makes of the object that its supertype has made. A constructor has to call
the supertype first, if there is one. -/
def construct (t : ClassText) (inherited : Object) : Option Object :=
  let object := inherited.init t.fields
  match t.parent, t.body with
  | _, none => some object
  | none, some body => body.foldlM Statement.exec object
  | some _, some (.callSuper :: rest) => rest.foldlM Statement.exec object
  | some _, some _ => none

/-- The objects of each class after one more class is declared. The supertype must have been
declared before. -/
def declare (objects : String → Option Object) (t : ClassText) : String → Option Object :=
  fun name =>
    if name = t.name then
      match t.parent with
      | none => t.construct .blank
      | some s => (objects s).bind t.construct
    else objects name

end ClassText

namespace Object

theorem init_append (o : Object) (fs gs : List (String × FieldValue)) :
    o.init (fs ++ gs) = (o.init fs).init gs := List.foldl_append

/-- The rosters of a base model begin with its own names. -/
theorem init_rosters (o : Object) (names : Roster → List String) (r : Roster) :
    o.init (Roster.all.map fun r => (r.field, .names (names r))) r.field
      = some (.names (names r)) := by
  cases r <;> simp [Object.init, Object.set, Roster.all, Roster.field]

end Object

/-! ## The statements of a constructor -/

theorem Roster.field_inj {r s : Roster} (h : r.field = s.field) : r = s := by
  cases r with
  | clones =>
    cases s with
    | clones => rfl
    | exports => exact absurd h (by decide)
  | exports =>
    cases s with
    | clones => exact absurd h (by decide)
    | exports => rfl

/-- A new value in one roster leaves the other as it is. -/
theorem Object.set_roster {o : Object} {values : Roster → FieldValue}
    (h : ∀ s : Roster, o s.field = some (values s)) (r : Roster) (value : FieldValue) (s : Roster) :
    o.set r.field value s.field = some (if s = r then value else values s) := by
  by_cases hs : s = r
  · rw [hs, if_pos rfl, set_self]
  · rw [if_neg hs, set_of_ne _ _ (fun hfield => hs (Roster.field_inj hfield)), h s]

/-- Appending to rosters, one after the other, appends to each once. A roster that has nothing
to append keeps its value, whatever it is. -/
theorem foldlM_enlist (rosters : List Roster) (hrosters : rosters.Nodup)
    (names : Roster → List String) (o : Object) (values : Roster → FieldValue)
    (items : Roster → List String) (hvalues : ∀ r : Roster, o r.field = some (values r))
    (hitems : ∀ r, names r ≠ [] → (values r).items = some (items r)) :
    ∃ o' : Object,
      ((rosters.filter fun r => !(names r).isEmpty).map fun r =>
        Statement.spread r.field r.field (names r)).foldlM Statement.exec o = some o'
      ∧ ∀ r : Roster, o' r.field
        = some (if r ∈ rosters ∧ names r ≠ [] then .names (items r ++ names r) else values r) := by
  induction rosters generalizing o values items with
  | nil => exact ⟨o, rfl, by simpa using hvalues⟩
  | cons r rest ih =>
    obtain ⟨hr, hrest⟩ := List.nodup_cons.mp hrosters
    by_cases hnames : names r = []
    · obtain ⟨o', hrun, ho'⟩ := ih hrest o values items hvalues hitems
      refine ⟨o', by rw [List.filter_cons_of_neg (by simp [hnames])]; exact hrun, ?_⟩
      intro s
      rw [ho' s]
      by_cases hs : s = r
      · subst hs
        simp [hnames]
      · simp [hs]
    · have hexec : Statement.exec o (.spread r.field r.field (names r))
          = some (o.set r.field (.names (items r ++ names r))) := by
        simp [Statement.exec, hvalues r, hitems r hnames]
      let items' : Roster → List String := fun s => if s = r then items r ++ names r else items s
      have hvalues' := Object.set_roster hvalues r (.names (items r ++ names r))
      have hitems' : ∀ s, names s ≠ [] →
          (if s = r then FieldValue.names (items r ++ names r) else values s).items
            = some (items' s) := by
        intro s hs
        by_cases hsr : s = r
        · simp [items', hsr, FieldValue.items]
        · simpa [items', hsr] using hitems s hs
      obtain ⟨o', hrun, ho'⟩ := ih hrest _ _ items' hvalues' hitems'
      refine ⟨o', ?_, ?_⟩
      · rw [List.filter_cons_of_pos (by simp [hnames]), List.map_cons, List.foldlM_cons, hexec]
        exact hrun
      · intro s
        rw [ho' s]
        by_cases hs : s = r
        · subst hs
          simp [hr, hnames]
        · simp [hs, items']

/-! ## Generated classes -/

/-- The rosters of the object are lists of names, and these are they. -/
def Object.Holds (o : Object) (lists : Roster → List String) : Prop :=
  ∀ r : Roster, o r.field = some (.names (lists r))

namespace Class

/-- The constructor notes the name of the class in the field of a roster. -/
def tags (v : Conventions) (c : Class) (r : Roster) : Bool :=
  c.supertype.isSome && v.discriminator == some r.field

/-- The note of the class's own name. -/
def tagSteps (v : Conventions) (c : Class) : List ConstructorStep :=
  if c.supertype.isSome then v.discriminator.toList.map fun f => .tagClass f c.name else []

/-- The steps of the constructor behind the call of the supertype. -/
def laterSteps (v : Conventions) (c : Class) : List ConstructorStep :=
  c.tagSteps v
    ++ (Roster.all.filter fun r => !(r.names c).isEmpty).map (fun r => .enlist r.field (r.names c))
    ++ (nonBlank c.constructorCode).toList.map .custom

theorem hasConstructor_of_supertype {c : Class} (h : c.supertype.isSome = true) :
    c.hasConstructor = true := by
  simp [hasConstructor, h]

theorem supertype_eq_none {c : Class} (h : c.hasConstructor = false) : c.supertype = none := by
  cases hsuper : c.supertype with
  | none => rfl
  | some s =>
    rw [hasConstructor_of_supertype (by rw [hsuper]; rfl)] at h
    cases h

/-- The supertype is called first, and everything else comes after the first values. -/
theorem construct_text (v : Conventions) (c : Class) (o : Object) :
    (c.text v).construct o
      = if c.hasConstructor then
          ((c.laterSteps v).map Statement.ofStep).foldlM Statement.exec (o.init (c.text v).fields)
        else some (o.init (c.text v).fields) := by
  cases hsuper : c.supertype with
  | none =>
    cases hcons : c.hasConstructor with
    | false => simp [ClassText.construct, text, hcons, hsuper]
    | true =>
      simp [ClassText.construct, text, hcons, hsuper, constructorSteps, laterSteps, tagSteps]
  | some s =>
    have hcons : c.hasConstructor = true := hasConstructor_of_supertype (by rw [hsuper]; rfl)
    simp [ClassText.construct, text, hcons, hsuper, constructorSteps, laterSteps, tagSteps,
      Statement.ofStep]

theorem exec_tagSteps (v : Conventions) (c : Class) {o : Object} {lists : Roster → List String}
    (h : o.Holds lists) :
    ∃ o' : Object, ((c.tagSteps v).map Statement.ofStep).foldlM Statement.exec o = some o'
      ∧ ∀ r : Roster, o' r.field
        = some (if c.tags v r then .text c.name else .names (lists r)) := by
  unfold tagSteps
  cases hsuper : c.supertype.isSome with
  | false => exact ⟨o, rfl, fun r => by simp [tags, hsuper, h r]⟩
  | true =>
    cases hfield : v.discriminator with
    | none => exact ⟨o, rfl, fun r => by simp [tags, hfield, h r]⟩
    | some f =>
      refine ⟨o.set f (.text c.name), rfl, ?_⟩
      intro r
      by_cases hr : f = r.field
      · rw [hr, Object.set_self]
        simp [tags, hsuper, hfield, hr]
      · rw [Object.set_of_ne _ _ (Ne.symm hr), h r]
        simp [tags, hfield, hr]

theorem exec_custom (o : Object) (code : Option String) :
    ((code.toList.map ConstructorStep.custom).map Statement.ofStep).foldlM Statement.exec o
      = some o := by
  cases code <;> rfl

/-- What a class makes of the rosters of an object, from their first values on. -/
theorem exists_construct (v : Conventions) (c : Class) {o : Object} {lists : Roster → List String}
    (h : (o.init (c.text v).fields).Holds lists) :
    ∃ o' : Object, (c.text v).construct o = some o' ∧ ∀ r : Roster, o' r.field = some (
      if c.tags v r then
        if r.names c = [] then .text c.name else .names (letters c.name ++ r.names c)
      else .names (if c.hasConstructor then lists r ++ r.names c else lists r)) := by
  rw [construct_text]
  cases hcons : c.hasConstructor with
  | false =>
    have hsuper := supertype_eq_none hcons
    exact ⟨_, rfl, fun r => by simp [tags, hsuper, h r]⟩
  | true =>
    obtain ⟨o₁, hrun₁, ho₁⟩ := exec_tagSteps v c h
    obtain ⟨o₂, hrun₂, ho₂⟩ := foldlM_enlist Roster.all (by decide)
      (fun r => r.names c) o₁ (fun r => if c.tags v r then .text c.name else .names (lists r))
      (fun r => if c.tags v r then letters c.name else lists r) ho₁
      (fun r _ => by cases c.tags v r <;> rfl)
    refine ⟨o₂, ?_, ?_⟩
    · have henlist : (((Roster.all.filter fun r => !(r.names c).isEmpty).map fun r =>
          ConstructorStep.enlist r.field (r.names c)).map Statement.ofStep).foldlM
            Statement.exec o₁ = some o₂ := by
        rw [List.map_map]
        exact hrun₂
      unfold laterSteps
      rw [if_pos rfl, List.map_append, List.map_append, List.foldlM_append, List.foldlM_append,
        hrun₁, Option.bind_eq_bind, Option.bind_some, henlist]
      exact exec_custom o₂ _
    · intro r
      rw [ho₂ r]
      have hall : r ∈ Roster.all := by cases r <;> decide
      by_cases hnames : r.names c = [] <;> cases c.tags v r <;> simp [hnames, hall]

/-- A base model begins its rosters anew, whatever it inherits. -/
theorem init_text_of_isBaseModel (v : Conventions) {c : Class} (h : c.isBaseModel = true)
    (o : Object) : (o.init (c.text v).fields).Holds (fun r => r.names c) := by
  intro r
  have hfields : (c.text v).fields
      = (c.properties.filter (!·.isStatic)).filterMap Property.storedField
        ++ Roster.all.map fun r => (r.field, FieldValue.names (r.names c)) := by
    simp [text, h]
  rw [hfields, Object.init_append, Object.init_rosters]

end Class

/-! ## Declared classes -/

namespace ClassText

end ClassText

end ModelScribe
