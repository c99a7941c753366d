-- Where scalars stand. The steps to a place lead to the same scalar in what is
-- read: through the values of a kind, by the keys of its fields and the
-- positions in its lists, and from there through the records of a definition.
-- A field that is stated once keeps what is stated, so nothing else in the
-- document takes a scalar from its place.
import ModelScribe.Proofs.TomlPlaces
import ModelScribe.Schema.Document

namespace ModelScribe

/-! ## Paths -/

mutual

/-- The scalar that the path leads to, if it leads to one. -/
def Kind.scalarAt (k : Kind) (a : k.Value) (path : List Kind.Step) : Option String :=
  match k with
  | .scalar => if path = [] then some a else none
  | .optional k => a.bind fun a => k.scalarAt a path
  | .list k =>
    match path with
    | .item i :: path => a[i]?.bind fun a => k.scalarAt a path
    | _ => none
  | .record _ fs =>
    match path with
    | .field key :: path => fs.scalarAt key a path
    | _ => none
  | _ => none

/-- The scalar that the path leads to from the field with the key. -/
def Fields.scalarAt (fs : Fields) (key : String) (stated : fs.Values) (path : List Kind.Step) :
    Option String :=
  match fs with
  | .nil => none
  | .cons name k rest =>
    if key = name then stated.1.bind fun a => k.scalarAt a path
    else rest.scalarAt key stated.2 path

end

namespace Fields

variable {name key : String} {k : Kind} {fs : Fields} {stated : (Fields.cons name k fs).Values}

theorem scalarAt_first (h : key = name) (path : List Kind.Step) :
    (Fields.cons name k fs).scalarAt key stated path
      = stated.1.bind fun a => k.scalarAt a path :=
  if_pos h

theorem scalarAt_behind (h : key ≠ name) (path : List Kind.Step) :
    (Fields.cons name k fs).scalarAt key stated path = fs.scalarAt key stated.2 path :=
  if_neg h

end Fields

theorem getElem?_of_mapM {α β : Type} {f : α → Option β} {xs : List α} {ys : List β}
    (h : xs.mapM f = some ys) {i : Nat} {x : α} (hx : xs[i]? = some x) :
    ∃ y, f x = some y ∧ ys[i]? = some y := by
  induction xs generalizing i ys with
  | nil => cases hx
  | cons w xs ih =>
    simp only [List.mapM_cons, Option.bind_eq_bind, Option.bind_eq_some_iff] at h
    obtain ⟨y, hy, zs, hzs, h⟩ := h
    obtain rfl := Option.some.inj h
    cases i with
    | zero =>
      obtain rfl := Option.some.inj hx
      exact ⟨y, hy, rfl⟩
    | succ i =>
      obtain ⟨z, hz, hget⟩ := ih hzs hx
      exact ⟨z, hz, hget⟩

namespace Json

/-! ## JSON -/

section

variable {fs : Fields} {k : Kind} {key : String} {n : Node}

theorem scalarAt_senseAt (fs : Fields) (hfs : fs.Distinct) {before after : List Node}
    (hfield : fs.kindAt before.length = some k) {stated : fs.Values}
    (h : senseAt fs (before ++ n :: after) = some stated) :
    ∃ a, sense k n = some a ∧
      ∀ path, fs.scalarAt (fs.keyAt before.length) stated path = k.scalarAt a path := by
  match fs, before with
  | .cons name k' rest, [] =>
    obtain rfl := Option.some.inj hfield
    rw [List.nil_append, senseAt, Option.bind_eq_some_iff] at h
    obtain ⟨a, ha, h⟩ := h
    obtain ⟨as, -, rfl⟩ := Option.map_eq_some_iff.mp h
    exact ⟨a, ha, Fields.scalarAt_first rfl⟩
  | .cons name k' rest, m :: before =>
    rw [List.cons_append, senseAt, Option.bind_eq_some_iff] at h
    obtain ⟨b, -, h⟩ := h
    obtain ⟨bs, hbs, rfl⟩ := Option.map_eq_some_iff.mp h
    obtain ⟨a, ha, hpath⟩ := scalarAt_senseAt rest hfs.2.2 hfield hbs
    exact ⟨a, ha, fun path =>
      (Fields.scalarAt_behind (Fields.keyAt_ne hfs hfield) path).trans (hpath path)⟩

/-- A member states what it says about its field. -/
theorem scalarAt_note (fs : Fields) (hfield : fs.kindOf key = some k) {stated stated' : fs.Values}
    (h : note fs key n stated = some stated') :
    ∃ a, sense k n = some a ∧ fs.states key stated' ∧
      ∀ path, fs.scalarAt key stated' path = k.scalarAt a path := by
  match fs with
  | .cons name k' rest =>
    rw [Fields.kindOf] at hfield
    rw [note] at h
    by_cases hname : key = name
    · rw [if_pos hname] at hfield h
      obtain rfl := Option.some.inj hfield
      split at h
      · cases h
      obtain ⟨a, ha, rfl⟩ := Option.map_eq_some_iff.mp h
      exact ⟨a, ha, if_pos hname, Fields.scalarAt_first hname⟩
    · rw [if_neg hname] at hfield h
      obtain ⟨others, hothers, rfl⟩ := Option.map_eq_some_iff.mp h
      obtain ⟨a, ha, hstates, hpath⟩ := scalarAt_note rest hfield hothers
      exact ⟨a, ha, (if_neg hname).trans hstates, fun path =>
        (Fields.scalarAt_behind hname path).trans (hpath path)⟩

/-- No later member changes what is stated. -/
theorem scalarAt_note_of_states (fs : Fields) {other : String} {stated stated' : fs.Values}
    (hstates : fs.states key stated) (h : note fs other n stated = some stated') :
    fs.states key stated' ∧
      ∀ path, fs.scalarAt key stated' path = fs.scalarAt key stated path := by
  match fs with
  | .nil => cases hstates
  | .cons name k' rest =>
    rw [note] at h
    rw [Fields.states] at hstates ⊢
    by_cases hother : other = name
    · rw [if_pos hother] at h
      split at h
      · cases h
      rename_i hfirst
      obtain ⟨a, -, rfl⟩ := Option.map_eq_some_iff.mp h
      by_cases hname : key = name
      · rw [if_pos hname] at hstates
        exact absurd hstates hfirst
      · rw [if_neg hname] at hstates ⊢
        refine ⟨hstates, fun path => ?_⟩
        rw [Fields.scalarAt_behind hname, Fields.scalarAt_behind hname]
    · rw [if_neg hother] at h
      obtain ⟨others, hothers, rfl⟩ := Option.map_eq_some_iff.mp h
      by_cases hname : key = name
      · rw [if_pos hname] at hstates ⊢
        refine ⟨hstates, fun path => ?_⟩
        rw [Fields.scalarAt_first hname, Fields.scalarAt_first hname]
      · rw [if_neg hname] at hstates ⊢
        obtain ⟨hrest, hpath⟩ := scalarAt_note_of_states rest hstates hothers
        refine ⟨hrest, fun path => ?_⟩
        rw [Fields.scalarAt_behind hname, Fields.scalarAt_behind hname]
        exact hpath path

theorem scalarAt_members_of_states {ms : List (List Char × Node)} {stated stated' : fs.Values}
    (hstates : fs.states key stated) (h : ms.foldlM (noteMember fs) stated = some stated')
    (path : List Kind.Step) : fs.scalarAt key stated' path = fs.scalarAt key stated path := by
  induction ms generalizing stated with
  | nil => rw [Option.some.inj h]
  | cons m ms ih =>
    rw [List.foldlM_cons, Option.bind_eq_bind, Option.bind_eq_some_iff] at h
    obtain ⟨stated₁, hm, hms⟩ := h
    obtain ⟨other, -, hnote⟩ := Option.bind_eq_some_iff.mp hm
    obtain ⟨hstates₁, hpath⟩ := scalarAt_note_of_states fs hstates hnote
    rw [ih hstates₁ hms, hpath path]

theorem scalarAt_members {body : List Char} {before after : List (List Char × Node)}
    (hkey : denoted body = some key) (hfield : fs.kindOf key = some k) {stated stated' : fs.Values}
    (h : (before ++ (body, n) :: after).foldlM (noteMember fs) stated = some stated') :
    ∃ a, sense k n = some a ∧
      ∀ path, fs.scalarAt key stated' path = k.scalarAt a path := by
  rw [List.foldlM_append, Option.bind_eq_bind, Option.bind_eq_some_iff] at h
  obtain ⟨stated₁, -, h⟩ := h
  rw [List.foldlM_cons, Option.bind_eq_bind, Option.bind_eq_some_iff] at h
  obtain ⟨stated₂, hm, h⟩ := h
  rw [noteMember, hkey, Option.bind_some] at hm
  obtain ⟨a, ha, hstates, hpath⟩ := scalarAt_note fs hfield hm
  exact ⟨a, ha, fun path => (scalarAt_members_of_states hstates h path).trans (hpath path)⟩

/-- What is said at a place is found at its path. -/
theorem scalarAt_put {inner : Kind} (p : Place k inner) (hk : k.Distinct) (hn : n ≠ .null)
    {v : k.Value} (h : sense k (p.put n) = some v) :
    ∃ a, sense inner n = some a ∧
      ∀ path, k.scalarAt v (p.path ++ path) = inner.scalarAt a path := by
  induction p with
  | here => exact ⟨v, h, fun path => rfl⟩
  | optional p ih =>
    rw [Place.put, sense_optional _ (p.put_ne_null hn)] at h
    obtain ⟨w, hw, rfl⟩ := Option.map_eq_some_iff.mp h
    exact ih hk hw
  | item before p after ih =>
    rw [Place.put, sense] at h
    have hitem : (before ++ p.put n :: after)[before.length]? = some (p.put n) := by simp
    obtain ⟨w, hw, hget⟩ := getElem?_of_mapM h hitem
    obtain ⟨a, ha, hpath⟩ := ih hk hw
    refine ⟨a, ha, fun path => ?_⟩
    rw [← hpath path, Place.path, List.cons_append, Kind.scalarAt]
    simp only [hget, Option.bind_some]
  | @position name fs _ _ before hfield p after ih =>
    rw [Place.put, sense] at h
    obtain ⟨w, hw, hrecord⟩ := scalarAt_senseAt fs hk hfield h
    obtain ⟨a, ha, hpath⟩ := ih (fs.distinct_kindAt hk hfield) hw
    refine ⟨a, ha, fun path => ?_⟩
    rw [← hpath path, ← hrecord]
    rfl
  | @member name fs _ _ before body hfield p after ih =>
    rw [Place.put, sense_object] at h
    obtain ⟨key, hkey, hkind⟩ := Option.bind_eq_some_iff.mp hfield
    obtain ⟨w, hw, hrecord⟩ := scalarAt_members hkey hkind h
    obtain ⟨a, ha, hpath⟩ := ih (fs.distinct_kindOf hk hkind) hw
    refine ⟨a, ha, fun path => ?_⟩
    rw [← hpath path, ← hrecord, Place.path, hkey]
    rfl

end

end Json

namespace Toml

/-! ## TOML -/

section

variable {x : Exchange} {hole v v' : Located} {k : Kind} {fs : Fields} {n : Nat} {vs : List Located}
  {es : Entries} {path : List Kind.Step} {key : String}

theorem scalarAt_readPlaces (fs : Fields) (hfs : fs.Distinct) {i : Nat}
    (hfield : fs.kindAt i = some k) {vs : List Located} (hv : vs[i]? = some v) {stated : fs.Values}
    (h : (readPlaces fs vs).toOption = some stated) :
    ∃ a, (readKind k v.1 v.2).toOption = some a ∧
      ∀ path, fs.scalarAt (fs.keyAt i) stated path = k.scalarAt a path := by
  match fs, vs, i with
  | .cons name k' rest, w :: vs, i =>
    simp only [readPlaces, bind, toOption_bind, Option.bind_eq_some_iff] at h
    obtain ⟨b, hb, bs, hbs, h⟩ := h
    obtain rfl := Option.some.inj h
    cases i with
    | zero =>
      obtain rfl := Option.some.inj hfield
      obtain rfl := Option.some.inj hv
      exact ⟨b, hb, Fields.scalarAt_first rfl⟩
    | succ i =>
      obtain ⟨a, ha, hpath⟩ := scalarAt_readPlaces rest hfs.2.2 hfield hv hbs
      exact ⟨a, ha, fun path =>
        (Fields.scalarAt_behind (Fields.keyAt_ne hfs hfield) path).trans (hpath path)⟩

/-- An entry states what its value is read as. -/
theorem scalarAt_readField (fs : Fields) (hfield : fs.kindOf key = some k) {v : Located}
    {state state' : fs.Values} {result : Seen fs.Values}
    (h : readField fs key state v.1 v.2 = some result) (hresult : result.toOption = some state') :
    ∃ a, (readKind k v.1 v.2).toOption = some a ∧
      ∀ path, fs.scalarAt key state' path = k.scalarAt a path := by
  match fs with
  | .cons name k' rest =>
    rw [Fields.kindOf] at hfield
    rw [readField] at h
    by_cases hname : key = name
    · rw [if_pos hname] at hfield h
      obtain rfl := Option.some.inj hfield
      obtain rfl := Option.some.inj h
      rw [toOption_map] at hresult
      obtain ⟨a, ha, rfl⟩ := Option.map_eq_some_iff.mp hresult
      exact ⟨a, ha, Fields.scalarAt_first hname⟩
    · rw [if_neg hname] at hfield h
      obtain ⟨others, hothers, rfl⟩ := Option.map_eq_some_iff.mp h
      rw [toOption_map] at hresult
      obtain ⟨as, has, rfl⟩ := Option.map_eq_some_iff.mp hresult
      obtain ⟨a, ha, hpath⟩ := scalarAt_readField rest hfield hothers has
      exact ⟨a, ha, fun path => (Fields.scalarAt_behind hname path).trans (hpath path)⟩

/-- An entry with another key leaves the field as it is. -/
theorem scalarAt_readField_of_ne (fs : Fields) {other : String} (hne : key ≠ other) {v : Located}
    {state state' : fs.Values} {result : Seen fs.Values}
    (h : readField fs other state v.1 v.2 = some result) (hresult : result.toOption = some state')
    (path : List Kind.Step) : fs.scalarAt key state' path = fs.scalarAt key state path := by
  match fs with
  | .nil => rfl
  | .cons name k' rest =>
    rw [readField] at h
    by_cases hother : other = name
    · rw [if_pos hother] at h
      obtain rfl := Option.some.inj h
      rw [toOption_map] at hresult
      obtain ⟨a, ha, rfl⟩ := Option.map_eq_some_iff.mp hresult
      rw [Fields.scalarAt_behind (hother ▸ hne), Fields.scalarAt_behind (hother ▸ hne)]
    · rw [if_neg hother] at h
      obtain ⟨others, hothers, rfl⟩ := Option.map_eq_some_iff.mp h
      rw [toOption_map] at hresult
      obtain ⟨as, has, rfl⟩ := Option.map_eq_some_iff.mp hresult
      rw [Fields.scalarAt, Fields.scalarAt, scalarAt_readField_of_ne rest hne hothers has path]

theorem scalarAt_readEntry_of_ne {entry : String × Located} (hne : key ≠ entry.1)
    {state state' : fs.Values} (h : (readEntry fs state entry).toOption = some state')
    (path : List Kind.Step) : fs.scalarAt key state' path = fs.scalarAt key state path := by
  rw [readEntry, toOption_placedAt] at h
  cases hread : readField fs entry.1 state entry.2.1 entry.2.2 with
  | some result =>
    rw [hread] at h
    exact scalarAt_readField_of_ne fs hne hread h path
  | none =>
    rw [hread, toOption_map] at h
    obtain ⟨-, -, rfl⟩ := Option.map_eq_some_iff.mp h
    rfl

theorem scalarAt_readEntry (hfield : fs.kindOf key = some k) {state state' : fs.Values}
    (h : (readEntry fs state (key, v)).toOption = some state') :
    ∃ a, (readKind k v.1 v.2).toOption = some a ∧
      ∀ path, fs.scalarAt key state' path = k.scalarAt a path := by
  obtain ⟨result, hresult⟩ := Option.isSome_iff_exists.mp (isSome_readField fs hfield state v.1 v.2)
  rw [readEntry, toOption_placedAt, hresult] at h
  exact scalarAt_readField fs hfield hresult h

theorem toOption_foldlM_append {α β : Type} {step : β → α → Seen β} (before after : List α)
    (b : β) : ((before ++ after).foldlM step b).toOption
      = ((before.foldlM step b).toOption).bind fun b => (after.foldlM step b).toOption := by
  rw [List.foldlM_append]
  exact toOption_bind ..

theorem scalarAt_readEntries_of_ne (hne : ∀ e ∈ es, key ≠ e.1) {state state' : fs.Values}
    (h : (es.foldlM (readEntry fs) state).toOption = some state') (path : List Kind.Step) :
    fs.scalarAt key state' path = fs.scalarAt key state path := by
  induction es generalizing state with
  | nil => rw [Option.some.inj h]
  | cons entry es ih =>
    obtain ⟨hfirst, hothers⟩ := List.forall_mem_cons.mp hne
    simp only [List.foldlM_cons, bind, toOption_bind, Option.bind_eq_some_iff] at h
    obtain ⟨state₁, hone, hrest⟩ := h
    rw [ih hothers hrest, scalarAt_readEntry_of_ne hfirst hone]

/-- Where each key stands once, an entry states its field for good. -/
theorem scalarAt_readEntries (hfield : fs.kindOf key = some k) (hv : (key, v) ∈ es)
    (hkeys : es.Pairwise fun e e' => e.1 < e'.1) {state state' : fs.Values}
    (h : (es.foldlM (readEntry fs) state).toOption = some state') :
    ∃ a, (readKind k v.1 v.2).toOption = some a ∧
      ∀ path, fs.scalarAt key state' path = k.scalarAt a path := by
  obtain ⟨before, after, rfl⟩ := List.append_of_mem hv
  have hafter : ∀ e ∈ after, key ≠ e.1 := fun e he heq => by
    have hlt := List.rel_of_pairwise_cons (List.pairwise_append.mp hkeys).2.1 he
    exact String.lt_irrefl key (heq ▸ hlt)
  rw [toOption_foldlM_append, Option.bind_eq_some_iff] at h
  obtain ⟨state₁, -, h⟩ := h
  simp only [List.foldlM_cons, bind, toOption_bind, Option.bind_eq_some_iff] at h
  obtain ⟨state₂, hone, hrest⟩ := h
  obtain ⟨a, ha, hpath⟩ := scalarAt_readEntry hfield hone
  exact ⟨a, ha, fun path => (scalarAt_readEntries_of_ne hafter hrest path).trans (hpath path)⟩

/-- The scalar is found at its path. -/
theorem HoldsAt.scalarAt (hhole : HoldsAt hole path k v) (h : Alike x n v v') (hk : k.Distinct)
    {s : String} (hs : (scalar hole.1 hole.2).toOption = some s) {a : k.Value}
    (hread : (readKind k v.1 v.2).toOption = some a) : k.scalarAt a path = some s := by
  induction hhole generalizing n v' with
  | here =>
    obtain rfl := Option.some.inj (hs.symm.trans hread)
    rfl
  | optional _ ih =>
    rw [readKind, toOption_placedAt, toOption_map] at hread
    obtain ⟨b, hb, rfl⟩ := Option.map_eq_some_iff.mp hread
    exact ih h hk hb
  | item e ofTables hv _ ih =>
    obtain ⟨e', vs', rfl, hvs⟩ := h.of_list
    obtain ⟨m, w', -, hw⟩ := hvs.exists_of_mem (List.mem_of_getElem? hv)
    rw [readKind, toOption_placedAt] at hread
    obtain ⟨b, hb, hget⟩ := getElem?_of_mapM ((toOption_eachItem_eq ..).symm.trans hread) hv
    rw [← ih hw hk hb, Kind.scalarAt]
    simp only [hget, Option.bind_some]
  | @position path name fs i k v vs e ofTables hfield hv _ ih =>
    obtain ⟨e', vs', rfl, hvs⟩ := h.of_list
    obtain ⟨m, w', -, hw⟩ := hvs.exists_of_mem (List.mem_of_getElem? hv)
    rw [readKind, toOption_placedAt] at hread
    obtain ⟨b, hb, hrecord⟩ := scalarAt_readPlaces fs hk hfield hv hread
    rw [← ih hw (fs.distinct_kindAt hk hfield) hb, ← hrecord]
    rfl
  | @member path name key fs k v es e origin hfield hv _ ih =>
    obtain ⟨e', es', rfl, hes⟩ := h.of_table
    obtain ⟨m, w', -, hw⟩ := hes.exists_of_mem hv
    rw [readKind, toOption_placedAt] at hread
    obtain ⟨b, hb, hrecord⟩ := scalarAt_readEntries hfield hv hes.pairwise hread
    rw [← ih hw (fs.distinct_kindOf hk hfield) hb, ← hrecord]
    rfl

end

end Toml

/-! ## The fields that lead to scalars -/

section

variable {path : List Kind.Step} {s : String} {fs : Fields}

mutual

/-- Whether a scalar may stand within the kind. -/
def Kind.holdsScalars : Kind → Bool
  | .scalar => true
  | .optional k => k.holdsScalars
  | .list k => k.holdsScalars
  | .record _ fs => !fs.scalarKeys.isEmpty
  | _ => false

/-- The keys of the fields within which scalars may stand. -/
def Fields.scalarKeys : Fields → List String
  | .nil => []
  | .cons key k rest => if k.holdsScalars then key :: rest.scalarKeys else rest.scalarKeys

end

mutual

theorem Kind.holdsScalars_of_scalarAt (k : Kind) {a : k.Value} {path : List Kind.Step}
    (h : k.scalarAt a path = some s) : k.holdsScalars := by
  match k, path with
  | .scalar, _ => rfl
  | .optional k, _ =>
    obtain ⟨b, -, hb⟩ := Option.bind_eq_some_iff.mp h
    exact k.holdsScalars_of_scalarAt hb
  | .list k, .item i :: path =>
    obtain ⟨b, -, hb⟩ := Option.bind_eq_some_iff.mp h
    exact k.holdsScalars_of_scalarAt hb
  | .record _ fs, .field key :: path =>
    have hkey := fs.mem_scalarKeys_of_scalarAt h
    simpa [Kind.holdsScalars] using List.ne_nil_of_mem hkey

/-- A path leads to a scalar only by a field within which scalars may stand. -/
theorem Fields.mem_scalarKeys_of_scalarAt (fs : Fields) {key : String} {a : fs.Values}
    {path : List Kind.Step} (h : fs.scalarAt key a path = some s) : key ∈ fs.scalarKeys := by
  match fs with
  | .nil => cases h
  | .cons name k rest =>
    rw [Fields.scalarAt] at h
    rw [Fields.scalarKeys]
    split at h
    case isTrue hname =>
      obtain ⟨b, -, hb⟩ := Option.bind_eq_some_iff.mp h
      rw [if_pos (k.holdsScalars_of_scalarAt hb), hname]
      exact List.mem_cons_self
    case isFalse =>
      have hrest := rest.mem_scalarKeys_of_scalarAt h
      split
      · exact List.mem_cons_of_mem _ hrest
      · exact hrest

end

/-- A path leads into a record by one of the fields within which scalars may stand. -/
theorem exists_key_of_scalarAt {name : String} {a : fs.Values}
    (h : (Kind.record name fs).scalarAt a path = some s) :
    ∃ key ∈ fs.scalarKeys, ∃ rest, path = .field key :: rest ∧ fs.scalarAt key a rest = some s := by
  match path with
  | [] => cases h
  | .item _ :: _ => cases h
  | .field key :: rest => exact ⟨key, fs.mem_scalarKeys_of_scalarAt h, rest, rfl, h⟩

end

/-! ## Definitions -/

/-- The scalar at the path in the item that its first step leads to. -/
def scalarAmong {α : Type} (scalarAt : α → List Kind.Step → Option String) (items : List α) :
    List Kind.Step → Option String
  | .item i :: path => items[i]?.bind (scalarAt · path)
  | _ => none

def PropertyDefinition.scalarAt (d : PropertyDefinition) : List Kind.Step → Option String
  | [.field "value"] => d.value
  | _ => none

def MethodDefinition.scalarAt (d : MethodDefinition) : List Kind.Step → Option String
  | .field "args" :: path => scalarAmong (·.scalarAt) d.args path
  | _ => none

def DecoratorOptionDefinition.scalarAt (d : DecoratorOptionDefinition) :
    List Kind.Step → Option String
  | [.field "value"] => some d.value
  | _ => none

def DecoratorDefinition.scalarAt (d : DecoratorDefinition) : List Kind.Step → Option String
  | .field "options" :: path => scalarAmong (·.scalarAt) d.options path
  | _ => none

def EnumDefinition.scalarAt (d : EnumDefinition) : List Kind.Step → Option String
  | [.field "values", .item i] => d.values[i]?
  | _ => none

def OutlineDefinition.scalarAt (d : OutlineDefinition) : List Kind.Step → Option String
  | .field "properties" :: path => scalarAmong (·.scalarAt) d.properties path
  | .field "methods" :: path => scalarAmong (·.scalarAt) d.methods path
  | _ => none

def InterfaceDefinition.scalarAt (d : InterfaceDefinition) (path : List Kind.Step) :
    Option String :=
  d.toOutlineDefinition.scalarAt path

def ClassDefinition.scalarAt (d : ClassDefinition) : List Kind.Step → Option String
  | .field "args" :: path => scalarAmong (·.scalarAt) d.args path
  | .field "superArgs" :: path => scalarAmong (·.scalarAt) d.superArgs path
  | .field "decorator" :: path => d.decorator.bind (·.scalarAt path)
  | path => d.toOutlineDefinition.scalarAt path

/-- The scalar of the definition that the path leads to, if it leads to one. -/
def Definition.scalarAt (d : Definition) : List Kind.Step → Option String
  | .field "enums" :: path => scalarAmong (·.scalarAt) d.enums path
  | .field "interfaces" :: path => scalarAmong (·.scalarAt) d.interfaces path
  | .field "classes" :: path => scalarAmong (·.scalarAt) d.classes path
  | _ => none

namespace Schema

variable {path : List Kind.Step} {s : String} {k : Kind}

theorem scalarAmong_itemsOf {β : Type} {scalarAt : β → List Kind.Step → Option String}
    {record : k.Value → β}
    (hrecord : ∀ {a path}, k.scalarAt a path = some s → scalarAt (record a) path = some s)
    {stated : Option (List k.Value)}
    (h : (stated.bind fun as => (Kind.list k).scalarAt as path) = some s) :
    scalarAmong scalarAt (itemsOf record stated) path = some s := by
  obtain ⟨as, rfl, hitem⟩ := Option.bind_eq_some_iff.mp h
  match path with
  | [] => cases hitem
  | .field _ :: _ => cases hitem
  | .item i :: path =>
    obtain ⟨a, ha, hpath⟩ := Option.bind_eq_some_iff.mp hitem
    rw [scalarAmong, itemsOf, Option.getD_some, List.getElem?_map, ha]
    exact hrecord hpath

theorem scalarAt_scalar {a : String} (h : Kind.scalar.scalarAt a path = some s) :
    path = [] ∧ a = s := by
  rw [Kind.scalarAt] at h
  split at h
  · exact ⟨‹_›, Option.some.inj h⟩
  · cases h

theorem scalarAt_propertyOf {a : propertyFields.Values} (h : property.scalarAt a path = some s) :
    (propertyOf a).scalarAt path = some s := by
  obtain ⟨key, hkey, rest, rfl, h⟩ := exists_key_of_scalarAt h
  obtain rfl := List.mem_singleton.mp hkey
  obtain ⟨b, hb, hvalue⟩ := Option.bind_eq_some_iff.mp h
  obtain ⟨c, rfl, hscalar⟩ := Option.bind_eq_some_iff.mp hvalue
  obtain ⟨rfl, rfl⟩ := scalarAt_scalar hscalar
  exact congrArg Option.join hb

theorem scalarAt_methodOf {a : methodFields.Values} (h : method.scalarAt a path = some s) :
    (methodOf a).scalarAt path = some s := by
  obtain ⟨key, hkey, rest, rfl, h⟩ := exists_key_of_scalarAt h
  obtain rfl := List.mem_singleton.mp hkey
  exact scalarAmong_itemsOf scalarAt_propertyOf h

theorem scalarAt_decoratorOptionOf {a : decoratorOptionFields.Values}
    (h : (Kind.record "DecoratorOptionDef" decoratorOptionFields).scalarAt a path = some s) :
    (decoratorOptionOf a).scalarAt path = some s := by
  obtain ⟨key, hkey, rest, rfl, h⟩ := exists_key_of_scalarAt h
  obtain rfl := List.mem_singleton.mp hkey
  obtain ⟨b, hb, hscalar⟩ := Option.bind_eq_some_iff.mp h
  obtain ⟨rfl, rfl⟩ := scalarAt_scalar hscalar
  exact congrArg (fun value => some (value.getD "")) hb

theorem scalarAt_decoratorOf {a : decoratorFields.Values}
    (h : (Kind.record "DecoratorDef" decoratorFields).scalarAt a path = some s) :
    (decoratorOf a).scalarAt path = some s := by
  obtain ⟨key, hkey, rest, rfl, h⟩ := exists_key_of_scalarAt h
  obtain rfl := List.mem_singleton.mp hkey
  exact scalarAmong_itemsOf scalarAt_decoratorOptionOf h

theorem scalarAt_enumOf {a : enumFields.Values}
    (h : (Kind.record "EnumDef" enumFields).scalarAt a path = some s) :
    (enumOf a).scalarAt path = some s := by
  obtain ⟨key, hkey, rest, rfl, h⟩ := exists_key_of_scalarAt h
  obtain rfl := List.mem_singleton.mp hkey
  obtain ⟨values, hvalues, hitem⟩ := Option.bind_eq_some_iff.mp h
  match rest with
  | [] => cases hitem
  | .field _ :: _ => cases hitem
  | .item i :: rest =>
    obtain ⟨b, hb, hscalar⟩ := Option.bind_eq_some_iff.mp hitem
    obtain ⟨rfl, rfl⟩ := scalarAt_scalar hscalar
    rw [← hb]
    exact congrArg (fun values => (values.getD [])[i]?) hvalues

theorem scalarAt_interfaceOf {a : interfaceFields.Values}
    (h : (Kind.record "InterfaceDef" interfaceFields).scalarAt a path = some s) :
    (interfaceOf a).scalarAt path = some s := by
  obtain ⟨key, hkey, rest, rfl, h⟩ := exists_key_of_scalarAt h
  have hkeys : interfaceFields.scalarKeys = ["properties", "methods"] := rfl
  obtain rfl | rfl : key = "properties" ∨ key = "methods" := by simpa [hkeys] using hkey
  · exact scalarAmong_itemsOf scalarAt_propertyOf h
  · exact scalarAmong_itemsOf scalarAt_methodOf h

theorem scalarAt_classOf {a : classFields.Values}
    (h : (Kind.record "ClassDef" classFields).scalarAt a path = some s) :
    (classOf a).scalarAt path = some s := by
  obtain ⟨key, hkey, rest, rfl, h⟩ := exists_key_of_scalarAt h
  have hkeys : classFields.scalarKeys
      = ["properties", "methods", "args", "superArgs", "decorator"] := rfl
  obtain rfl | rfl | rfl | rfl | rfl : key = "properties" ∨ key = "methods" ∨ key = "args" ∨
      key = "superArgs" ∨ key = "decorator" := by simpa [hkeys] using hkey
  · exact scalarAmong_itemsOf scalarAt_propertyOf h
  · exact scalarAmong_itemsOf scalarAt_methodOf h
  · exact scalarAmong_itemsOf scalarAt_propertyOf h
  · exact scalarAmong_itemsOf scalarAt_propertyOf h
  · obtain ⟨decorator, hdecorator, hvalue⟩ := Option.bind_eq_some_iff.mp h
    obtain ⟨c, rfl, hpath⟩ := Option.bind_eq_some_iff.mp hvalue
    have hsame := congrArg (fun d => d.join.map decoratorOf) hdecorator
    exact (congrArg (fun d => d.bind (·.scalarAt rest)) hsame).trans (scalarAt_decoratorOf hpath)

/-- What a path leads to in the values that are read, it leads to in the definition. -/
theorem scalarAt_definitionOf {a : definitionFields.Values}
    (h : definition.scalarAt a path = some s) : (definitionOf a).scalarAt path = some s := by
  obtain ⟨key, hkey, rest, rfl, h⟩ := exists_key_of_scalarAt h
  have hkeys : definitionFields.scalarKeys = ["enums", "interfaces", "classes"] := rfl
  obtain rfl | rfl | rfl : key = "enums" ∨ key = "interfaces" ∨ key = "classes" := by
    simpa [hkeys] using hkey
  · exact scalarAmong_itemsOf scalarAt_enumOf h
  · exact scalarAmong_itemsOf scalarAt_interfaceOf h
  · exact scalarAmong_itemsOf scalarAt_classOf h

end Schema

end ModelScribe
