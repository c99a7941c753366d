-- Places in a document. All that the surroundings of a value ask of it is
-- what it says, so a value may give way to any other that says the same, and
-- a document with a value that says nothing says nothing. What an object says
-- at its place is then told member by member: in any order, each field once,
-- members of no field being nothing to it, and a list says field by field
-- what an object says that has these fields as its members.
import ModelScribe.Proofs.JsonSense

namespace ModelScribe

/-! ## Steps -/

/-- One step into what a document states: to a field by its key, or to an item of a list. -/
inductive Kind.Step where
  | field (key : String)
  | item (i : Nat)
  deriving DecidableEq, Repr

/-! ## The kinds of fields -/

namespace Fields

/-- The kind of the field at the position. -/
def kindAt : Fields → Nat → Option Kind
  | .nil, _ => none
  | .cons _ k _, 0 => some k
  | .cons _ _ rest, i + 1 => rest.kindAt i

/-- The kind of the field with the key. -/
def kindOf : Fields → String → Option Kind
  | .nil, _ => none
  | .cons name k rest, key => if key = name then some k else rest.kindOf key

theorem distinct_kindAt (fs : Fields) {i : Nat} {k : Kind} (h : fs.Distinct)
    (hfield : fs.kindAt i = some k) : k.Distinct := by
  match fs, i with
  | .cons _ _ _, 0 =>
    obtain rfl := Option.some.inj hfield
    exact h.2.1
  | .cons _ _ rest, i + 1 => exact distinct_kindAt rest h.2.2 hfield

theorem distinct_kindOf (fs : Fields) {key : String} {k : Kind} (h : fs.Distinct)
    (hfield : fs.kindOf key = some k) : k.Distinct := by
  match fs with
  | .cons name _ rest =>
    rw [kindOf] at hfield
    split at hfield
    · obtain rfl := Option.some.inj hfield
      exact h.2.1
    · exact distinct_kindOf rest h.2.2 hfield

/-- The key of the field at the position. -/
def keyAt (fs : Fields) (i : Nat) : String := fs.keys.getD i ""

theorem keyAt_mem (fs : Fields) {i : Nat} {k : Kind} (hfield : fs.kindAt i = some k) :
    fs.keyAt i ∈ fs.keys := by
  match fs, i with
  | .cons _ _ _, 0 => exact List.mem_cons_self
  | .cons _ _ rest, i + 1 => exact List.mem_cons_of_mem _ (rest.keyAt_mem hfield)

/-- What stands behind the first field has another key. -/
theorem keyAt_ne {name : String} {k k' : Kind} {rest : Fields} {i : Nat}
    (h : (Fields.cons name k' rest).Distinct) (hfield : rest.kindAt i = some k) :
    rest.keyAt i ≠ name :=
  ne_of_mem_of_not_mem (rest.keyAt_mem hfield) h.1

end Fields

namespace Json

/-! ## Places -/

/-- A place that is read as the second kind, in a node that is read as the first: what stands
around it. -/
inductive Place : Kind → Kind → Type
  | here {k : Kind} : Place k k
  | optional {k inner : Kind} (p : Place k inner) : Place (.optional k) inner
  | item {k inner : Kind} (before : List Node) (p : Place k inner) (after : List Node) :
    Place (.list k) inner
  /-- In a list that states fields by position. -/
  | position {name : String} {fs : Fields} {k inner : Kind} (before : List Node)
    (hfield : fs.kindAt before.length = some k) (p : Place k inner) (after : List Node) :
    Place (.record name fs) inner
  | member {name : String} {fs : Fields} {k inner : Kind} (before : List (List Char × Node))
    (key : List Char) (hfield : (denoted key).bind fs.kindOf = some k) (p : Place k inner)
    (after : List (List Char × Node)) : Place (.record name fs) inner

namespace Place

variable {k inner : Kind} {n : Node}

/-- The node with this one at the place. -/
def put {k inner : Kind} : Place k inner → Node → Node
  | .here, n => n
  | .optional p, n => p.put n
  | .item before p after, n => .list (before ++ p.put n :: after)
  | .position before _ p after, n => .list (before ++ p.put n :: after)
  | .member before key _ p after, n => .object (before ++ (key, p.put n) :: after)

/-- The steps that lead to the place. -/
def path {k inner : Kind} : Place k inner → List Kind.Step
  | .here => []
  | .optional p => p.path
  | .item before p _ => .item before.length :: p.path
  | @Place.position _ fs _ _ before _ p _ => .field (fs.keyAt before.length) :: p.path
  | .member _ key _ p _ => .field ((denoted key).getD "") :: p.path

theorem put_ne_null (p : Place k inner) (hn : n ≠ .null) : p.put n ≠ .null := by
  induction p with
  | here => exact hn
  | optional p ih => exact ih
  | item => exact Node.noConfusion
  | position => exact Node.noConfusion
  | member => exact Node.noConfusion

theorem distinct (p : Place k inner) (h : k.Distinct) : inner.Distinct := by
  induction p with
  | here => exact h
  | optional p ih => exact ih h
  | item before p after ih => exact ih h
  | position before hfield p after ih => exact ih (Fields.distinct_kindAt _ h hfield)
  | member before key hfield p after ih =>
    obtain ⟨name, -, hfield⟩ := Option.bind_eq_some_iff.mp hfield
    exact ih (Fields.distinct_kindOf _ h hfield)

end Place

/-! ## What stands around a value -/

section

variable {fs : Fields} {k : Kind}

theorem mapM_around (before after : List Node) :
    ∃ f : k.Value → Option (List k.Value), ∀ n,
      (before ++ n :: after).mapM (fun n => sense k n) = (sense k n).bind f := by
  refine ⟨fun a => (before.mapM fun n => sense k n).bind fun as =>
    (after.mapM fun n => sense k n).map fun bs => as ++ a :: bs, fun n => ?_⟩
  rw [List.mapM_append, List.mapM_cons]
  cases before.mapM fun n => sense k n <;> cases sense k n <;>
    cases after.mapM fun n => sense k n <;> rfl

theorem senseAt_around (fs : Fields) {before : List Node}
    (hfield : fs.kindAt before.length = some k) (after : List Node) :
    ∃ f : k.Value → Option fs.Values, ∀ n,
      senseAt fs (before ++ n :: after) = (sense k n).bind f := by
  induction before generalizing fs with
  | nil =>
    cases fs with
    | nil => cases hfield
    | cons name _ rest =>
      obtain rfl := Option.some.inj hfield
      exact ⟨_, fun n => rfl⟩
  | cons m before ih =>
    cases fs with
    | nil => cases hfield
    | cons name first rest =>
      obtain ⟨f, hf⟩ := ih rest hfield
      refine ⟨fun a => (sense first m).bind fun b => (f a).map fun bs => (some b, bs), fun n => ?_⟩
      rw [List.cons_append, senseAt, hf]
      cases sense first m <;> cases sense k n <;> rfl

theorem note_around (fs : Fields) {key : String} (hfield : fs.kindOf key = some k)
    (stated : fs.Values) :
    ∃ f : k.Value → Option fs.Values, ∀ n, note fs key n stated = (sense k n).bind f := by
  match fs with
  | .cons name first rest =>
    rw [Fields.kindOf] at hfield
    by_cases hname : key = name
    · rw [if_pos hname] at hfield
      obtain rfl := Option.some.inj hfield
      refine ⟨fun a => if stated.1.isSome then none else some (some a, stated.2), fun n => ?_⟩
      rw [note, if_pos hname]
      cases stated.1 <;> cases sense first n <;> rfl
    · rw [if_neg hname] at hfield
      obtain ⟨f, hf⟩ := note_around rest hfield stated.2
      refine ⟨fun a => (f a).map fun as => (stated.1, as), fun n => ?_⟩
      rw [note, if_neg hname, hf]
      cases sense k n <;> rfl

theorem members_around {key : List Char} (hfield : (denoted key).bind fs.kindOf = some k)
    (before after : List (List Char × Node)) (stated : fs.Values) :
    ∃ f : k.Value → Option fs.Values, ∀ n,
      (before ++ (key, n) :: after).foldlM (noteMember fs) stated = (sense k n).bind f := by
  obtain ⟨name, hname, hkind⟩ := Option.bind_eq_some_iff.mp hfield
  simp only [List.foldlM_append, List.foldlM_cons, noteMember, hname, Option.bind_some]
  cases before.foldlM (noteMember fs) stated with
  | none => exact ⟨fun _ => none, fun n => (Option.bind_fun_none _).symm⟩
  | some stated =>
    obtain ⟨f, hf⟩ := note_around fs hkind stated
    refine ⟨fun a => (f a).bind fun stated => after.foldlM (noteMember fs) stated, fun n => ?_⟩
    simp only [Option.bind_eq_bind, Option.bind_some, hf]
    cases sense k n <;> rfl

/-- What a node says hangs on a place in it through what is said there. -/
theorem sense_put {inner : Kind} (p : Place k inner) :
    ∃ f : inner.Value → Option k.Value, ∀ n, n ≠ .null →
      sense k (p.put n) = (sense inner n).bind f := by
  induction p with
  | here => exact ⟨some, fun n _ => (Option.bind_fun_some _).symm⟩
  | optional p ih =>
    obtain ⟨f, hf⟩ := ih
    refine ⟨fun a => (f a).map some, fun n hn => ?_⟩
    rw [Place.put, sense_optional _ (p.put_ne_null hn), hf n hn]
    cases sense _ n <;> rfl
  | @item k inner before p after ih =>
    obtain ⟨f, hf⟩ := ih
    obtain ⟨g, hg⟩ := mapM_around (k := k) before after
    refine ⟨fun a => (f a).bind g, fun n hn => ?_⟩
    rw [Place.put, sense, hg, hf n hn, Option.bind_assoc]
  | position before hfield p after ih =>
    obtain ⟨f, hf⟩ := ih
    obtain ⟨g, hg⟩ := senseAt_around _ hfield after
    refine ⟨fun a => (f a).bind g, fun n hn => ?_⟩
    rw [Place.put, sense, hg, hf n hn, Option.bind_assoc]
  | @member name fs _ _ before key hfield p after ih =>
    obtain ⟨f, hf⟩ := ih
    obtain ⟨g, hg⟩ := members_around hfield before after fs.unstated
    refine ⟨fun a => (f a).bind g, fun n hn => ?_⟩
    rw [Place.put, sense_object, hg, hf n hn, Option.bind_assoc]

/-- A value may give way to one that says the same. -/
theorem sense_put_congr {inner : Kind} (p : Place k inner) {n n' : Node} (hn : n ≠ .null)
    (hn' : n' ≠ .null) (h : sense inner n = sense inner n') :
    sense k (p.put n) = sense k (p.put n') := by
  obtain ⟨f, hf⟩ := sense_put p
  rw [hf n hn, hf n' hn', h]

/-- Around a value that says nothing, nothing is said. -/
theorem sense_put_none {inner : Kind} (p : Place k inner) {n : Node} (hn : n ≠ .null)
    (h : sense inner n = none) : sense k (p.put n) = none := by
  obtain ⟨f, hf⟩ := sense_put p
  rw [hf n hn, h]
  rfl

end

/-! ## Members -/

section

variable {fs : Fields} {key key' : String} {ms ms' : List (List Char × Node)}

/-- It does not matter which of two members comes first. -/
theorem note_comm (fs : Fields) (key key' : String) (n n' : Node) (stated : fs.Values) :
    (note fs key n stated).bind (note fs key' n')
      = (note fs key' n' stated).bind (note fs key n) := by
  match fs with
  | .nil => rfl
  | .cons name k rest =>
    obtain ⟨first, others⟩ := stated
    have hbehind (key key' : String) (n n' : Node) :
        ((note rest key n others).map fun as => (first, as)).bind
            (fun stated => (note rest key' n' stated.2).map fun as => (stated.1, as))
          = ((note rest key n others).bind (note rest key' n')).map fun as => (first, as) := by
      cases note rest key n others <;> rfl
    simp only [note]
    by_cases hname : key = name <;> by_cases hname' : key' = name
    · -- whichever comes second finds the field stated
      simp only [if_pos hname, if_pos hname']
      cases first <;> cases sense k n <;> cases sense k n' <;> rfl
    · simp only [if_pos hname, if_neg hname']
      cases first <;> cases sense k n <;> cases h : note rest key' n' others <;> simp [h]
    · simp only [if_neg hname, if_pos hname']
      cases first <;> cases sense k n' <;> cases h : note rest key n others <;> simp [h]
    · simp only [if_neg hname, if_neg hname', hbehind, note_comm rest key key' n n' others]

theorem noteMember_comm (m m' : List Char × Node) (stated : fs.Values) :
    (noteMember fs stated m).bind (noteMember fs · m')
      = (noteMember fs stated m').bind (noteMember fs · m) := by
  unfold noteMember
  cases denoted m.1 with
  | none => exact (Option.bind_fun_none _).symm
  | some key =>
    cases denoted m'.1 with
    | none => exact Option.bind_fun_none _
    | some key' => exact note_comm fs key key' m.2 m'.2 stated

/-- The order of the members does not count. -/
theorem foldlM_noteMember_perm (h : ms.Perm ms') (stated : fs.Values) :
    ms.foldlM (noteMember fs) stated = ms'.foldlM (noteMember fs) stated := by
  induction h generalizing stated with
  | nil => rfl
  | cons m _ ih =>
    rw [List.foldlM_cons, List.foldlM_cons]
    exact Option.bind_congr fun stated _ => ih stated
  | swap m m' ms =>
    simp only [List.foldlM_cons, Option.bind_eq_bind, ← Option.bind_assoc]
    rw [noteMember_comm m' m stated]
  | trans _ _ ih ih' => rw [ih, ih']

/-- Members with the keys of no field say nothing. -/
theorem foldlM_noteMember_unknown (h : ∀ m ∈ ms, ∃ key ∉ fs.keys, denoted m.1 = some key)
    (stated : fs.Values) : ms.foldlM (noteMember fs) stated = some stated := by
  induction ms with
  | nil => rfl
  | cons m ms ih =>
    obtain ⟨⟨key, hkey, hdenoted⟩, hms⟩ := List.forall_mem_cons.mp h
    rw [List.foldlM_cons, noteMember, hdenoted, Option.bind_some, note_of_not_mem fs _ _ hkey]
    exact ih hms

/-- Nothing is said by two members for one field. -/
theorem note_note (fs : Fields) (hkey : key ∈ fs.keys) (n n' : Node) (stated : fs.Values) :
    (note fs key n stated).bind (note fs key n') = none := by
  match fs with
  | .cons name k rest =>
    simp only [note]
    by_cases hname : key = name
    · simp only [if_pos hname]
      cases stated.1 <;> cases sense k n <;> rfl
    · have hrest := note_note rest ((List.mem_cons.mp hkey).resolve_left hname) n n' stated.2
      simp only [if_neg hname]
      cases hone : note rest key n stated.2 with
      | none => rfl
      | some others =>
        rw [hone, Option.bind_some] at hrest
        simp [hrest]

theorem sense_object_twice (name : String) {m m' : List Char × Node} (hkey : key ∈ fs.keys)
    (hm : denoted m.1 = some key) (hm' : denoted m'.1 = some key)
    (hperm : ms'.Perm (m :: m' :: ms)) : sense (.record name fs) (.object ms') = none := by
  have htwice := note_note fs hkey m.2 m'.2 fs.unstated
  rw [sense_object, foldlM_noteMember_perm hperm, List.foldlM_cons, noteMember, hm,
    Option.bind_some]
  cases hone : note fs key m.2 fs.unstated with
  | none => rfl
  | some stated =>
    rw [hone, Option.bind_some] at htwice
    simp [noteMember, hm', htwice]

/-- Nothing is said by a member whose key is no text. -/
theorem sense_object_unreadable (name : String) {m : List Char × Node} (hm : m ∈ ms)
    (hkey : denoted m.1 = none) : sense (.record name fs) (.object ms) = none := by
  obtain ⟨before, after, rfl⟩ := List.append_of_mem hm
  rw [sense_object, List.foldlM_append]
  simp only [List.foldlM_cons, noteMember, hkey]
  exact Option.bind_fun_none _

end

/-! ## Positions -/

section

/-- Members that leave the first field alone are read by the fields behind it. -/
theorem foldlM_noteMember_behind {name : String} {k : Kind} {rest : Fields}
    {ms : List (List Char × Node)} (h : ∀ m ∈ ms, denoted m.1 ≠ some name)
    (first : Option k.Value) (stated : rest.Values) :
    ms.foldlM (noteMember (.cons name k rest)) (first, stated)
      = (ms.foldlM (noteMember rest) stated).map (first, ·) := by
  induction ms generalizing stated with
  | nil => rfl
  | cons m ms ih =>
    obtain ⟨hm, hms⟩ := List.forall_mem_cons.mp h
    rw [List.foldlM_cons, List.foldlM_cons, noteMember, noteMember]
    cases hkey : denoted m.1 with
    | none => rfl
    | some key =>
      have hname : key ≠ name := fun he => hm (he ▸ hkey)
      rw [Option.bind_some, Option.bind_some, note, if_neg hname]
      cases note rest key m.2 stated with
      | none => rfl
      | some stated => exact ih hms stated

/-- The members have the keys of the first fields, in the order of the fields. -/
def Leading (fs : Fields) (ms : List (List Char × Node)) : Prop :=
  ms.map (fun m => denoted m.1) = (fs.keys.take ms.length).map some

/-- Values at the positions of fields say what they say under the keys of these fields. -/
theorem senseAt_eq_members {fs : Fields} (hfs : fs.Distinct) {ms : List (List Char × Node)}
    (h : Leading fs ms) : senseAt fs (ms.map (·.2)) = ms.foldlM (noteMember fs) fs.unstated := by
  match fs, ms with
  | .nil, [] => rfl
  | .nil, m :: ms => cases h
  | .cons name k rest, [] => rfl
  | .cons name k rest, m :: ms =>
    obtain ⟨hm, hms⟩ : denoted m.1 = some name ∧ Leading rest ms := List.cons.inj h
    have hbehind : ∀ m ∈ ms, denoted m.1 ≠ some name := fun m hm he => by
      have hmem := List.mem_map_of_mem (f := fun m => denoted m.1) hm
      rw [show ms.map (fun m => denoted m.1) = _ from hms, he] at hmem
      obtain ⟨key, hkey, heq⟩ := List.mem_map.mp hmem
      exact hfs.1 (Option.some.inj heq ▸ List.mem_of_mem_take hkey)
    rw [List.map_cons, senseAt, List.foldlM_cons, noteMember, hm, Option.bind_some, note,
      if_pos rfl, Fields.unstated]
    cases sense k m.2 with
    | none => rfl
    | some a =>
      have hrest := foldlM_noteMember_behind (k := k) hbehind (some a) rest.unstated
      rw [Option.bind_some, senseAt_eq_members hfs.2.2 hms, ← hrest]
      rfl

/-- There are no more values than fields. -/
theorem senseAt_surplus (fs : Fields) {ns : List Node} (h : fs.keys.length < ns.length) :
    senseAt fs ns = none := by
  match fs, ns with
  | .nil, n :: ns => rfl
  | .cons name k rest, n :: ns =>
    have hlength : rest.keys.length < ns.length := by simpa [Fields.keys] using h
    have hrest := senseAt_surplus rest hlength
    rw [senseAt, hrest]
    cases sense k n <;> rfl

end

end Json

end ModelScribe
