-- Data trees. Whatever its format, a document states a tree of values, and a
-- kind gives the tree a meaning or none. The meaning of a record is that of
-- its fields one by one, each looked up by its key, so neither the order of
-- the entries nor the way that they are read has a part in it.
import Mathlib.Algebra.Group.Int.Defs
import Mathlib.Algebra.Group.Nat.Defs
import Mathlib.Data.List.Nodup
import ModelScribe.Schema.Kind

namespace ModelScribe

/-- What a document states, in a format that has such values. -/
inductive Tree where
  | null
  | text (s : String)
  | flag (b : Bool)
  | integer (n : Int)
  | list (items : List Tree)
  | table (entries : List (String × Tree))

/-- A string, a number or a flag, as text. -/
def Tree.scalar : Tree → Option String
  | .text s => some s
  | .flag b => some (if b then "true" else "false")
  | .integer n => some (Int.repr n)
  | _ => none

/-- The lists and the tables of the tree stand at most so many levels deep. -/
def Tree.Within (levels : Nat) (t : Tree) : Prop :=
  match levels, t with
  | levels + 1, .list ts => ∀ t ∈ ts, t.Within levels
  | levels + 1, .table es => ∀ e ∈ es, e.2.Within levels
  | 0, .list _ => False
  | 0, .table _ => False
  | _, _ => True

theorem Tree.Within.mono {levels levels' : Nat} {t : Tree} (h : t.Within levels)
    (hle : levels ≤ levels') : t.Within levels' := by
  induction levels generalizing levels' t with
  | zero => cases t <;> cases levels' <;> first | exact trivial | exact h.elim
  | succ levels ih =>
    obtain ⟨levels', rfl⟩ : ∃ l, levels' = l + 1 := ⟨levels' - 1, by omega⟩
    cases t with
    | list ts => exact fun t ht => ih (h t ht) (by omega)
    | table es => exact fun e he => ih (h e he) (by omega)
    | _ => trivial

/-! ## Meaning -/

/-- What is known of a field once a tree is said of it, or none. -/
def restated {α : Type} (read : Tree → Option α) (before : Option α) :
    Option Tree → Option (Option α)
  | none => some before
  | some t => (read t).map some

mutual

/-- What a tree says at a place of the kind, if it can stand there. -/
def Kind.meaning (k : Kind) (t : Tree) : Option k.Value :=
  match k with
  | .text =>
    match t with
    | .text s => some s
    | _ => none
  | .flag =>
    match t with
    | .flag b => some b
    | _ => none
  | .byte =>
    match t with
    | .integer n => if 0 ≤ n ∧ n < 256 then some (UInt8.ofNat n.toNat) else none
    | _ => none
  | .scalar => t.scalar
  | .optional k =>
    match t with
    | .null => some none
    | t => (k.meaning t).map some
  | .list k =>
    match t with
    | .list ts => ts.mapM fun t => k.meaning t
    | _ => none
  | .record _ fs =>
    match t with
    | .list ts => fs.placed ts
    | .table es => fs.named es fs.unstated
    | _ => none

/-- What trees say about the fields at their positions. -/
def Fields.placed (fs : Fields) (ts : List Tree) : Option fs.Values :=
  match fs with
  | .nil => if ts.isEmpty then some () else none
  | .cons _ k rest =>
    match ts with
    | [] => some (none, rest.unstated)
    | t :: ts => do
      let a ← k.meaning t
      let as ← rest.placed ts
      return (some a, as)

/-- What entries say about the fields with their keys; the other fields stay as they are. -/
def Fields.named (fs : Fields) (es : List (String × Tree)) (stated : fs.Values) :
    Option fs.Values :=
  match fs with
  | .nil => some ()
  | .cons key k rest => do
    let a ← restated (fun t => k.meaning t) stated.1 (es.lookup key)
    let as ← rest.named es stated.2
    return (a, as)

end

/-- Only what is missing is an absent value. -/
theorem Kind.meaning_optional (k : Kind) {t : Tree} (h : t ≠ .null) :
    (Kind.optional k).meaning t = (k.meaning t).map some := by
  cases t <;> simp [meaning] at h ⊢

theorem mapM_congr {α β : Type} {f g : α → Option β} {xs : List α} (h : ∀ x ∈ xs, f x = g x) :
    xs.mapM f = xs.mapM g := by
  induction xs with
  | nil => rfl
  | cons x xs ih =>
    rw [List.mapM_cons, List.mapM_cons, h x List.mem_cons_self,
      ih fun y hy => h y (List.mem_cons_of_mem _ hy)]

/-! ## Kinds -/

mutual

/-- The records of the kind have fields with pairwise distinct keys. -/
def Kind.Distinct : Kind → Prop
  | .optional k => k.Distinct
  | .list k => k.Distinct
  | .record _ fs => fs.Distinct
  | _ => True

def Fields.Distinct : Fields → Prop
  | .nil => True
  | .cons key k rest => key ∉ rest.keys ∧ k.Distinct ∧ rest.Distinct

end

mutual

/-- How deep the containers of a value of the kind may stand. -/
def Kind.height : Kind → Nat
  | .optional k => k.height
  | .list k => k.height + 1
  | .record _ fs => fs.height + 1
  | _ => 0

def Fields.height : Fields → Nat
  | .nil => 0
  | .cons _ k rest => max k.height rest.height

end

/-! ## Entries one by one -/

theorem lookup_cons_of_ne {name key : String} (h : name ≠ key) (t : Tree)
    (es : List (String × Tree)) : ((key, t) :: es).lookup name = es.lookup name := by
  rw [List.lookup_cons, beq_false_of_ne h]

theorem lookup_eq_none_of_not_mem {α : Type} {key : String} {es : List (String × α)}
    (h : key ∉ es.map (·.1)) : es.lookup key = none :=
  List.lookup_eq_none_iff.mpr fun e he =>
    bne_iff_ne.mpr fun heq => h (List.mem_map.mpr ⟨e, he, heq.symm⟩)

/-- Where keys are distinct, what is found under one does not depend on the order. -/
theorem lookup_perm {es es' : List (String × Tree)} (h : es.Perm es')
    (hnodup : (es.map (·.1)).Nodup) (key : String) : es.lookup key = es'.lookup key := by
  induction h with
  | nil => rfl
  | cons e _ ih =>
    rw [List.map_cons, List.nodup_cons] at hnodup
    rw [List.lookup_cons, List.lookup_cons, ih hnodup.2]
  | swap e e' es =>
    obtain ⟨name, t⟩ := e
    obtain ⟨name', t'⟩ := e'
    have hne : name ≠ name' := by
      simp only [List.map_cons, List.nodup_cons, List.mem_cons] at hnodup
      exact fun he => hnodup.1 (Or.inl he.symm)
    by_cases he : key = name
    · rw [lookup_cons_of_ne (he ▸ hne), he, List.lookup_cons_self, List.lookup_cons_self]
    · by_cases he' : key = name'
      · rw [he', List.lookup_cons_self, lookup_cons_of_ne hne.symm, List.lookup_cons_self]
      · simp only [lookup_cons_of_ne he, lookup_cons_of_ne he']
  | trans h _ ih ih' => rw [ih hnodup, ih' ((h.map _).nodup_iff.mp hnodup)]

namespace Fields

/-- Whether the field with the key is stated. -/
def states (fs : Fields) (key : String) (stated : fs.Values) : Bool :=
  match fs with
  | .nil => false
  | .cons name _ rest => if key = name then stated.1.isSome else rest.states key stated.2

@[simp] theorem states_unstated (fs : Fields) (key : String) :
    fs.states key fs.unstated = false := by
  match fs with
  | .nil => rfl
  | .cons name k rest => simp [states, unstated, states_unstated rest key]

@[simp] theorem named_nil (fs : Fields) (stated : fs.Values) :
    fs.named [] stated = some stated := by
  match fs with
  | .nil => rfl
  | .cons name k rest => simp [named, restated, named_nil rest stated.2]

theorem named_congr (fs : Fields) {es es' : List (String × Tree)} (stated : fs.Values)
    (h : ∀ key ∈ fs.keys, es.lookup key = es'.lookup key) :
    fs.named es stated = fs.named es' stated := by
  match fs with
  | .nil => rfl
  | .cons name k rest =>
    have hrest : rest.named es stated.2 = rest.named es' stated.2 :=
      named_congr rest stated.2 fun key hkey => h key (List.mem_cons_of_mem _ hkey)
    simp only [named, h name List.mem_cons_self, hrest]

/-- An entry whose key is that of no field says nothing. -/
theorem named_of_not_mem (fs : Fields) {key : String} (t : Tree) (es : List (String × Tree))
    (stated : fs.Values) (h : key ∉ fs.keys) :
    fs.named ((key, t) :: es) stated = fs.named es stated :=
  named_congr fs stated fun _ hname => lookup_cons_of_ne (ne_of_mem_of_not_mem hname h) t es

/-- The first entry may be taken before the others. -/
theorem named_cons (fs : Fields) {key : String} (t : Tree) {es : List (String × Tree)}
    (stated : fs.Values) (hfs : fs.Distinct) (h : key ∉ es.map (·.1)) :
    fs.named ((key, t) :: es) stated
      = (fs.named [(key, t)] stated).bind (fs.named es) := by
  match fs with
  | .nil => rfl
  | .cons name k rest =>
    obtain ⟨hname, -, hrest⟩ := hfs
    by_cases hkey : key = name
    · subst hkey
      simp only [named, restated, named_of_not_mem rest t _ _ hname, named_nil,
        List.lookup_cons_self]
      cases k.meaning t <;> simp [lookup_eq_none_of_not_mem h]
    · simp only [named, lookup_cons_of_ne (Ne.symm hkey), List.lookup_nil,
        named_cons rest t stated.2 hrest h]
      cases rest.named [(key, t)] stated.2 <;> simp [restated]

/-- An entry states no other field than its own. -/
theorem states_of_named {fs : Fields} {key other : String} {t : Tree} {stated stated' : fs.Values}
    (h : fs.named [(key, t)] stated = some stated') (hne : other ≠ key) :
    fs.states other stated' = fs.states other stated := by
  match fs with
  | .nil => rfl
  | .cons name k rest =>
    rw [named, Option.bind_eq_bind, Option.bind_eq_some_iff] at h
    obtain ⟨a, ha, h⟩ := h
    rw [Option.bind_eq_bind, Option.bind_eq_some_iff] at h
    obtain ⟨as, has, h⟩ := h
    obtain rfl : (a, as) = stated' := Option.some.inj h
    by_cases hname : other = name
    · rw [lookup_cons_of_ne (hname ▸ hne), List.lookup_nil] at ha
      simp [states, hname, ← Option.some.inj ha]
    · simp [states, hname, states_of_named has hne]

/-- The order of the entries does not count. -/
theorem named_perm (fs : Fields) {es es' : List (String × Tree)} (stated : fs.Values)
    (h : es.Perm es') (hnodup : (es.map (·.1)).Nodup) :
    fs.named es stated = fs.named es' stated :=
  named_congr fs stated fun key _ => lookup_perm h hnodup key

end Fields

/-! ## Results without their faults -/

section

variable {ε ε' α β : Type}

@[simp] theorem toOption_bind (x : Except ε α) (next : α → Except ε β) :
    (x.bind next).toOption = x.toOption.bind fun a => (next a).toOption := by
  cases x <;> rfl

@[simp] theorem toOption_map (x : Except ε α) (f : α → β) :
    (x.map f).toOption = x.toOption.map f := by
  cases x <;> rfl

theorem toOption_mapError (x : Except ε α) (f : ε → ε') :
    (x.mapError f).toOption = x.toOption := by
  cases x <;> rfl

theorem map_eq_ok {x : Except ε α} {f : α → β} {b : β} (h : x.map f = .ok b) :
    ∃ a, x = .ok a ∧ f a = b := by
  cases x with
  | error fault => cases h
  | ok a => exact ⟨a, rfl, Except.ok.inj h⟩

theorem bind_eq_ok {x : Except ε α} {next : α → Except ε β} {b : β} (h : x.bind next = .ok b) :
    ∃ a, x = .ok a ∧ next a = .ok b := by
  cases x with
  | error fault => cases h
  | ok a => exact ⟨a, rfl, h⟩

theorem eq_ok_of_toOption {x : Except ε α} {a : α} (h : x.toOption = some a) : x = .ok a := by
  cases x with
  | error fault => cases h
  | ok b => rw [Option.some.inj h]

end

end ModelScribe
