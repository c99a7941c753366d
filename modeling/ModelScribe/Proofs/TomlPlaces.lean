-- Places in a table. A value stands at a place that is read as some kind; if
-- it is read there as the string that it gives way to, the whole table is read
-- as before. Nothing else in the table has changed but where it is written.
import ModelScribe.Proofs.JsonPlaces
import ModelScribe.Proofs.TomlExchanged
import ModelScribe.Proofs.TomlReading

namespace ModelScribe.Toml

variable {x : Exchange} {hole v v' : Located} {k : Kind} {fs : Fields} {n : Nat} {e : Extent}
  {vs vs' : List Located} {es es' : Entries}

/-! ## Places -/

/-- The value is read as a scalar within what is read as the kind, and the path leads to it. -/
inductive HoldsAt (hole : Located) : List Kind.Step → Kind → Located → Prop
  | here : HoldsAt hole [] .scalar hole
  | optional {path : List Kind.Step} {k : Kind} {v : Located} (h : HoldsAt hole path k v) :
    HoldsAt hole path (.optional k) v
  | item {path : List Kind.Step} {k : Kind} {i : Nat} {v : Located} {vs : List Located} (e : Extent)
    (ofTables : Bool) (hv : vs[i]? = some v) (h : HoldsAt hole path k v) :
    HoldsAt hole (.item i :: path) (.list k) (e, .list ofTables vs)
  /-- In a list that states fields by position. -/
  | position {path : List Kind.Step} {name : String} {fs : Fields} {i : Nat} {k : Kind}
    {v : Located} {vs : List Located} (e : Extent) (ofTables : Bool) (hfield : fs.kindAt i = some k)
    (hv : vs[i]? = some v) (h : HoldsAt hole path k v) :
    HoldsAt hole (.field (fs.keyAt i) :: path) (.record name fs) (e, .list ofTables vs)
  | member {path : List Kind.Step} {name key : String} {fs : Fields} {k : Kind} {v : Located}
    {es : Entries} (e : Extent) (origin : Origin) (hfield : fs.kindOf key = some k)
    (hv : (key, v) ∈ es) (h : HoldsAt hole path k v) :
    HoldsAt hole (.field key :: path) (.record name fs) (e, .table origin es)

/-- The value is read as a scalar within what is read as the kind. -/
def Holds (hole : Located) (k : Kind) (v : Located) : Prop := ∃ path, HoldsAt hole path k v

namespace AlikeItems

theorem exists_of_mem (h : AlikeItems x n vs vs') (hv : v ∈ vs) :
    ∃ m v', m ≤ n ∧ Alike x m v v' := by
  induction vs generalizing n vs' with
  | nil => cases hv
  | cons w vs ih =>
    cases h with
    | cons hw h =>
      rcases List.mem_cons.mp hv with rfl | hv
      · exact ⟨_, _, Nat.le_add_right _ _, hw⟩
      · obtain ⟨m, v', hle, halike⟩ := ih h hv
        exact ⟨m, v', Nat.le_add_left_of_le hle, halike⟩

end AlikeItems

theorem AlikeEntries.exists_of_mem {key : String} (h : AlikeEntries x n es es')
    (hv : (key, v) ∈ es) : ∃ m v', m ≤ n ∧ Alike x m v v' := by
  induction es generalizing n es' with
  | nil => cases hv
  | cons w es ih =>
    cases h with
    | cons _ _ hw h =>
      rcases List.mem_cons.mp hv with heq | hv
      · obtain ⟨rfl, rfl⟩ := Prod.mk.inj heq
        exact ⟨_, _, Nat.le_add_right _ _, hw⟩
      · obtain ⟨m, v', hle, halike⟩ := ih h hv
        exact ⟨m, v', Nat.le_add_left_of_le hle, halike⟩

/-- A list or a table does not give way. -/
theorem Exchange.ne_hole (x : Exchange) (hv : v.2.isAtom = false) : v ≠ x.hole := by
  rintro rfl
  rw [show x.hole.2 = x.before from rfl, x.before_isAtom] at hv
  cases hv

/-- The value gives way where it stands. -/
theorem Alike.of_hole (h : Alike x n v v') (hv : v = x.hole) : n = 1 ∧ v'.2 = x.after := by
  cases h with
  | exchanged => exact ⟨rfl, rfl⟩
  | atom _ _ hne => exact absurd hv hne
  | list | table => exact absurd hv (x.ne_hole rfl)

namespace Alike

theorem of_list {ofTables : Bool} (h : Alike x n (e, .list ofTables vs) v') :
    ∃ e' vs', v' = (e', .list ofTables vs') ∧ AlikeItems x n vs vs' := by
  generalize hv : (e, Value.list ofTables vs) = v at h
  cases h with
  | exchanged => exact absurd hv (x.ne_hole rfl)
  | atom _ hatom =>
    rw [← (Prod.mk.inj hv).2] at hatom
    cases hatom
  | list _ e' _ h =>
    cases hv
    exact ⟨e', _, rfl, h⟩
  | table => cases hv

theorem of_table {origin : Origin} (h : Alike x n (e, .table origin es) v') :
    ∃ e' es', v' = (e', .table origin es') ∧ AlikeEntries x n es es' := by
  generalize hv : (e, Value.table origin es) = v at h
  cases h with
  | exchanged => exact absurd hv (x.ne_hole rfl)
  | atom _ hatom =>
    rw [← (Prod.mk.inj hv).2] at hatom
    cases hatom
  | list => cases hv
  | table _ e' _ h =>
    cases hv
    exact ⟨e', _, rfl, h⟩

end Alike

/-- Where the value stands, it gives way. -/
theorem Holds.one_le (hhole : Holds x.hole k v) (h : Alike x n v v') : 1 ≤ n := by
  obtain ⟨path, hhole⟩ := hhole
  induction hhole generalizing n v' with
  | here => exact Nat.le_of_eq (h.of_hole rfl).1.symm
  | optional _ ih => exact ih h
  | item e ofTables hv _ ih =>
    obtain ⟨e', vs', rfl, hvs⟩ := h.of_list
    obtain ⟨m, w', hle, hw⟩ := hvs.exists_of_mem (List.mem_of_getElem? hv)
    exact Nat.le_trans (ih hw) hle
  | position e ofTables hfield hv _ ih =>
    obtain ⟨e', vs', rfl, hvs⟩ := h.of_list
    obtain ⟨m, w', hle, hw⟩ := hvs.exists_of_mem (List.mem_of_getElem? hv)
    exact Nat.le_trans (ih hw) hle
  | member e origin hfield hv _ ih =>
    obtain ⟨e', es', rfl, hes⟩ := h.of_table
    obtain ⟨m, w', hle, hw⟩ := hes.exists_of_mem hv
    exact Nat.le_trans (ih hw) hle

/-! ## Numbers out of range -/

mutual

/-- Whether a number is out of range does not hang on where it is written. -/
theorem outOfRange_alike (bits : Nat) {n : Nat} {v v' : Located} (h : Alike x n v v') (hn : n = 0) :
    (outOfRange bits v'.1 v'.2).isSome = (outOfRange bits v.1 v.2).isSome := by
  match h with
  | .exchanged _ => cases hn
  | .atom (e := e) (v := v) e' hv _ =>
    cases v with
    | integer m =>
      simp only [outOfRange]
      split <;> rfl
    | _ => rfl
  | .list _ _ _ h => exact outOfRangeItem_alike bits h hn
  | .table _ _ _ h => exact outOfRangeEntry_alike bits h hn

theorem outOfRangeItem_alike (bits : Nat) {n : Nat} {vs vs' : List Located}
    (h : AlikeItems x n vs vs') (hn : n = 0) :
    (outOfRangeItem bits vs').isSome = (outOfRangeItem bits vs).isSome := by
  match h with
  | .nil => rfl
  | .cons hv h =>
    obtain ⟨hfirst, hrest⟩ := Nat.add_eq_zero_iff.mp hn
    have hone := outOfRange_alike bits hv hfirst
    have hothers := outOfRangeItem_alike bits h hrest
    simp only [outOfRangeItem, Option.isSome_or, hone, hothers]

theorem outOfRangeEntry_alike (bits : Nat) {n : Nat} {es es' : Entries}
    (h : AlikeEntries x n es es') (hn : n = 0) :
    (outOfRangeEntry bits es').isSome = (outOfRangeEntry bits es).isSome := by
  match h with
  | .nil => rfl
  | .cons _ _ hv h =>
    obtain ⟨hfirst, hrest⟩ := Nat.add_eq_zero_iff.mp hn
    have hone := outOfRange_alike bits hv hfirst
    have hothers := outOfRangeEntry_alike bits h hrest
    simp only [outOfRangeEntry, Option.isSome_or, hone, hothers]

end

theorem toOption_ignore (bits : Nat) (e : Extent) (v : Value) :
    (ignore bits e v).toOption = if (outOfRange bits e v).isSome then none else some () := by
  rw [ignore]
  cases outOfRange bits e v <;> rfl

theorem ignore_alike (bits : Nat) (h : Alike x 0 v v') :
    (ignore bits v'.1 v'.2).toOption = (ignore bits v.1 v.2).toOption := by
  rw [toOption_ignore, toOption_ignore, outOfRange_alike bits h rfl]

/-! ## Kinds -/

/-- A list or a table is no scalar. -/
theorem toOption_scalar_of_not_atom {v : Value} (hv : v.isAtom = false) (e : Extent) :
    (scalar e v).toOption = none := by
  unfold scalar
  cases ignore 64 e v with
  | error => rfl
  | ok =>
    cases v with
    | list | table => rfl
    | _ => cases hv

theorem scalar_alike (h : Alike x 0 v v') :
    (scalar v'.1 v'.2).toOption = (scalar v.1 v.2).toOption := by
  have hignore := ignore_alike 64 h
  cases h with
  | atom e' hv _ =>
    simp only [scalar, toOption_bind, hignore]
  | list | table => rw [toOption_scalar_of_not_atom rfl, toOption_scalar_of_not_atom rfl]

/-- What changes in one part of two leaves the other as it was. -/
theorem parts_of_changed {m n : Nat} {P Q : Prop} (hsum : m + n ≤ 1) (h : m + n = 0 ∨ P ∨ Q)
    (hP : P → 1 ≤ m) (hQ : Q → 1 ≤ n) : (m = 0 ∨ P) ∧ (n = 0 ∨ Q) := by
  rcases h with h | h | h
  · exact ⟨Or.inl (by omega), Or.inl (by omega)⟩
  · have := hP h
    exact ⟨Or.inr h, Or.inl (by omega)⟩
  · have := hQ h
    exact ⟨Or.inl (by omega), Or.inr h⟩

/-- A value that holds the one that gives way is read as before. -/
def Stays (x : Exchange) (k : Kind) : Prop :=
  ∀ {n v v'}, Alike x n v v' → n ≤ 1 → (n = 0 ∨ Holds x.hole k v) →
    (readKind k v'.1 v'.2).toOption = (readKind k v.1 v.2).toOption

theorem eachItem_alike (hitem : Stays x k) (h : AlikeItems x n vs vs') (hn : n ≤ 1)
    (hhole : n = 0 ∨ ∃ v ∈ vs, Holds x.hole k v) :
    (eachItem (fun e v => readKind k e v) vs').toOption
      = (eachItem (fun e v => readKind k e v) vs).toOption := by
  induction vs generalizing n vs' with
  | nil =>
    cases h
    rfl
  | cons v vs ih =>
    cases h with
    | cons hv h =>
      rw [List.exists_mem_cons_iff] at hhole
      obtain ⟨hfirst, hothers⟩ := parts_of_changed hn hhole (fun hhole => hhole.one_le hv) (by
        rintro ⟨w, hw, hhole⟩
        obtain ⟨m, w', hle, hw'⟩ := h.exists_of_mem hw
        exact Nat.le_trans (hhole.one_le hw') hle)
      have hone := hitem hv (by omega) hfirst
      have hrest := ih h (by omega) hothers
      simp only [eachItem, bind, toOption_bind, hone, hrest]

theorem isSome_readField (fs : Fields) {key : String} (hfield : fs.kindOf key = some k)
    (state : fs.Values) (e : Extent) (v : Value) : (readField fs key state e v).isSome := by
  match fs with
  | .cons name _ rest =>
    rw [Fields.kindOf] at hfield
    rw [readField]
    split
    case isTrue => rfl
    case isFalse hname =>
      rw [if_neg hname] at hfield
      rw [Option.isSome_map]
      exact isSome_readField rest hfield state.2 e v

/-- An entry is looked at, or passed over if it has no field. -/
theorem entry_alike {state : fs.Values} {found found' : Option (Seen fs.Values)}
    (hread : found'.map Except.toOption = found.map Except.toOption)
    (hpass : found = none → (ignore 128 v'.1 v'.2).toOption = (ignore 128 v.1 v.2).toOption) :
    (placedAt v'.1 <| match found' with
      | some result => result
      | none => (ignore 128 v'.1 v'.2).map fun _ => state).toOption
      = (placedAt v.1 <| match found with
        | some result => result
        | none => (ignore 128 v.1 v.2).map fun _ => state).toOption := by
  rw [toOption_placedAt, toOption_placedAt]
  cases found with
  | some result =>
    obtain ⟨result', rfl, heq⟩ := Option.map_eq_some_iff.mp hread
    exact heq
  | none =>
    rw [Option.map_eq_none_iff.mp hread, toOption_map, toOption_map, hpass rfl]

/-- Looks at one entry, which is passed over if it has no field. -/
def readEntry (fs : Fields) (state : fs.Values) (e : String × Located) : Seen fs.Values :=
  placedAt e.2.1 <| match readField fs e.1 state e.2.1 e.2.2 with
    | some result => result
    | none => (ignore 128 e.2.1 e.2.2).map fun _ => state

/-- Entries are looked at one by one; those without a field are passed over. -/
theorem entries_alike (hfield : ∀ {n key v v'}, Alike x n v v' → n ≤ 1 →
      (n = 0 ∨ ∃ k, fs.kindOf key = some k ∧ Holds x.hole k v) → ∀ state : fs.Values,
      (readField fs key state v'.1 v'.2).map Except.toOption
        = (readField fs key state v.1 v.2).map Except.toOption)
    (h : AlikeEntries x n es es') (hn : n ≤ 1)
    (hhole : n = 0 ∨ ∃ e ∈ es, ∃ k, fs.kindOf e.1 = some k ∧ Holds x.hole k e.2)
    (state : fs.Values) :
    (es'.foldlM (readEntry fs) state).toOption = (es.foldlM (readEntry fs) state).toOption := by
  induction es generalizing n es' state with
  | nil =>
    cases h
    rfl
  | cons e es ih =>
    cases h with
    | @cons m n key v v' _ es' _ _ hv h =>
      rw [List.exists_mem_cons_iff] at hhole
      obtain ⟨hfirst, hothers⟩ := parts_of_changed hn hhole (fun ⟨k, _, hhole⟩ => hhole.one_le hv)
        (by
          rintro ⟨e, he, k, -, hhole⟩
          obtain ⟨m, w', hle, hw'⟩ := h.exists_of_mem he
          exact Nat.le_trans (hhole.one_le hw') hle)
      have hone : (readEntry fs state (key, v')).toOption
          = (readEntry fs state (key, v)).toOption := by
        refine entry_alike (hfield hv (by omega) hfirst state) fun hnone => ?_
        obtain rfl | ⟨k, hkind, -⟩ := hfirst
        · exact ignore_alike 128 hv
        · have hsome := isSome_readField fs hkind state v.1 v.2
          rw [hnone] at hsome
          cases hsome
      have hrest := fun state => ih h (by omega) hothers state
      simp only [List.foldlM_cons, bind, toOption_bind, hone, hrest]

namespace Holds

theorem of_optional (h : Holds hole (.optional k) v) : Holds hole k v := by
  obtain ⟨path, h⟩ := h
  cases h with
  | optional h => exact ⟨path, h⟩

theorem of_items {ofTables : Bool} (h : Holds hole (.list k) (e, .list ofTables vs)) :
    ∃ v ∈ vs, Holds hole k v := by
  obtain ⟨path, h⟩ := h
  cases h with
  | item _ _ hv h => exact ⟨_, List.mem_of_getElem? hv, _, h⟩

/-- Neither a list nor a record is an atom. -/
theorem not_isAtom (h : Holds hole k v) (hk : k ≠ .scalar) (hk' : ∀ k', k ≠ .optional k') :
    v.2.isAtom = false := by
  obtain ⟨path, h⟩ := h
  cases h with
  | here => exact absurd rfl hk
  | optional => exact absurd rfl (hk' _)
  | item | position | member => rfl

end Holds

/-- The string that the value gives way to is the text of the value. -/
def SameScalar (x : Exchange) : Prop :=
  ∀ e e', (scalar e' x.after).toOption = (scalar e x.before).toOption

/-- A kind that is neither a scalar nor optional is not that of the value that gives way, which
stands further inside if it does at all. -/
theorem readKind_alike_of_parts (hk : k ≠ .scalar) (hk' : ∀ k', k ≠ .optional k')
    (hatom : ∀ {v : Value} (e e' : Extent), v.isAtom →
      (readKind k e' v).toOption = (readKind k e v).toOption)
    (hlist : ∀ {n : Nat} {vs vs' : List Located} (e e' : Extent) (ofTables : Bool),
      AlikeItems x n vs vs' → n ≤ 1 → (n = 0 ∨ Holds x.hole k (e, .list ofTables vs)) →
      (readKind k e' (.list ofTables vs')).toOption = (readKind k e (.list ofTables vs)).toOption)
    (htable : ∀ {n : Nat} {es es' : Entries} (e e' : Extent) (origin : Origin),
      AlikeEntries x n es es' → n ≤ 1 → (n = 0 ∨ Holds x.hole k (e, .table origin es)) →
      (readKind k e' (.table origin es')).toOption = (readKind k e (.table origin es)).toOption)
    (h : Alike x n v v') (hn : n ≤ 1) (hhole : n = 0 ∨ Holds x.hole k v) :
    (readKind k v'.1 v'.2).toOption = (readKind k v.1 v.2).toOption := by
  cases h with
  | exchanged =>
    exact absurd rfl (x.ne_hole ((hhole.resolve_left Nat.one_ne_zero).not_isAtom hk hk'))
  | atom e' hv => exact hatom _ e' hv
  | list e e' ofTables h => exact hlist e e' ofTables h hn hhole
  | table e e' origin h => exact htable e e' origin h hn hhole

theorem stays_text : Stays x .text := by
  intro n v v' h hn hhole
  refine readKind_alike_of_parts nofun nofun (fun {v} e e' _ => ?_) (fun _ _ _ _ _ _ => rfl)
    (fun _ _ _ _ _ _ => rfl) h hn hhole
  cases v <;> rfl

theorem stays_flag : Stays x .flag := by
  intro n v v' h hn hhole
  refine readKind_alike_of_parts nofun nofun (fun {v} e e' _ => ?_) (fun _ _ _ _ _ _ => rfl)
    (fun _ _ _ _ _ _ => rfl) h hn hhole
  cases v <;> rfl

theorem stays_byte : Stays x .byte := by
  intro n v v' h hn hhole
  refine readKind_alike_of_parts nofun nofun (fun {v} e e' _ => ?_) (fun _ _ _ _ _ _ => rfl)
    (fun _ _ _ _ _ _ => rfl) h hn hhole
  cases v with
  | integer m =>
    simp only [readKind]
    split <;> rfl
  | _ => rfl

theorem stays_scalar (hscalar : SameScalar x) : Stays x .scalar := by
  intro n v v' h _ _
  cases h with
  | exchanged e => exact hscalar _ e
  | atom e' hv hne => exact scalar_alike (.atom e' hv hne)
  | list | table =>
    exact (toOption_scalar_of_not_atom rfl _).trans (toOption_scalar_of_not_atom rfl _).symm

theorem stays_optional (hk : Stays x k) : Stays x (.optional k) := by
  intro n v v' h hn hhole
  rw [readKind, readKind, toOption_placedAt, toOption_placedAt, toOption_map, toOption_map,
    hk h hn (hhole.imp_right Holds.of_optional)]

theorem stays_list (hk : Stays x k) : Stays x (.list k) := by
  intro n v v' h hn hhole
  refine readKind_alike_of_parts nofun nofun (fun {v} e e' hv => ?_)
    (fun e e' ofTables h hn hhole => ?_) (fun _ _ _ _ _ _ => rfl) h hn hhole
  · cases v with
    | list => cases hv
    | _ => rfl
  · simp only [readKind, toOption_placedAt]
    exact eachItem_alike hk h hn (hhole.imp_right Holds.of_items)

theorem stays_record (name : String)
    (hplaces : ∀ {n : Nat} {vs vs' : List Located}, AlikeItems x n vs vs' → n ≤ 1 →
      (n = 0 ∨ ∃ i k v, fs.kindAt i = some k ∧ vs[i]? = some v ∧ Holds x.hole k v) →
      (readPlaces fs vs').toOption = (readPlaces fs vs).toOption)
    (hfield : ∀ {n : Nat} {key : String} {v v' : Located}, Alike x n v v' → n ≤ 1 →
      (n = 0 ∨ ∃ k, fs.kindOf key = some k ∧ Holds x.hole k v) → ∀ state : fs.Values,
      (readField fs key state v'.1 v'.2).map Except.toOption
        = (readField fs key state v.1 v.2).map Except.toOption) :
    Stays x (.record name fs) := by
  intro n v v' h hn hhole
  refine readKind_alike_of_parts nofun nofun (fun {v} e e' hv => ?_)
    (fun e e' ofTables h hn hhole => ?_) (fun e e' origin h hn hhole => ?_) h hn hhole
  · cases v with
    | list | table => cases hv
    | _ => rfl
  · simp only [readKind, toOption_placedAt]
    refine hplaces h hn (hhole.imp_right fun hhole => ?_)
    obtain ⟨path, hhole⟩ := hhole
    cases hhole with
    | position _ _ hkind hv hhole => exact ⟨_, _, _, hkind, hv, _, hhole⟩
  · simp only [readKind, toOption_placedAt]
    refine entries_alike hfield h hn (hhole.imp_right fun hhole => ?_) _
    obtain ⟨path, hhole⟩ := hhole
    cases hhole with
    | member _ _ hkind hv hhole => exact ⟨_, hv, _, hkind, _, hhole⟩

mutual

/-- A value that holds the one that gives way is read as before, and so is one that holds nothing
of it. -/
theorem readKind_alike (hscalar : SameScalar x) (k : Kind) : Stays x k := by
  match k with
  | .text => exact fun {_ _ _} => stays_text
  | .flag => exact fun {_ _ _} => stays_flag
  | .byte => exact fun {_ _ _} => stays_byte
  | .scalar => exact fun {_ _ _} => stays_scalar hscalar
  | .optional k => exact fun {_ _ _} => stays_optional (readKind_alike hscalar k)
  | .list k => exact fun {_ _ _} => stays_list (readKind_alike hscalar k)
  | .record name fs =>
    exact fun {_ _ _} =>
      stays_record name (readPlaces_alike hscalar fs) (readField_alike hscalar fs)

theorem readPlaces_alike (hscalar : SameScalar x) (fs : Fields) {n : Nat} {vs vs' : List Located}
    (h : AlikeItems x n vs vs') (hn : n ≤ 1)
    (hhole : n = 0 ∨ ∃ i k v, fs.kindAt i = some k ∧ vs[i]? = some v ∧ Holds x.hole k v) :
    (readPlaces fs vs').toOption = (readPlaces fs vs).toOption := by
  match fs, h with
  | .nil, _ => rfl
  | .cons _ k rest, .nil => rfl
  | .cons name k rest, @AlikeItems.cons _ _ _ v _ vs _ hv h =>
    have hcases (hhole : ∃ i k' w, (Fields.cons name k rest).kindAt i = some k' ∧
          (v :: vs)[i]? = some w ∧ Holds x.hole k' w) : Holds x.hole k v ∨
        ∃ i k' w, rest.kindAt i = some k' ∧ vs[i]? = some w ∧ Holds x.hole k' w := by
      obtain ⟨i, k', w, hfield, hw, hhole⟩ := hhole
      cases i with
      | zero =>
        obtain rfl := Option.some.inj hfield
        obtain rfl := Option.some.inj hw
        exact Or.inl hhole
      | succ i => exact Or.inr ⟨i, k', w, hfield, hw, hhole⟩
    obtain ⟨hfirst, hothers⟩ := parts_of_changed hn (hhole.imp_right hcases)
      (fun hhole => hhole.one_le hv) (by
        rintro ⟨i, k', w, -, hw, hhole⟩
        obtain ⟨m, w', hle, hw'⟩ := h.exists_of_mem (List.mem_of_getElem? hw)
        exact Nat.le_trans (hhole.one_le hw') hle)
    have hone := readKind_alike hscalar k hv (by omega) hfirst
    have hrest := readPlaces_alike hscalar rest h (by omega) hothers
    simp only [readPlaces, bind, toOption_bind, hone, hrest]

theorem readField_alike (hscalar : SameScalar x) (fs : Fields) {n : Nat} {key : String}
    {v v' : Located} (h : Alike x n v v') (hn : n ≤ 1)
    (hhole : n = 0 ∨ ∃ k, fs.kindOf key = some k ∧ Holds x.hole k v) (state : fs.Values) :
    (readField fs key state v'.1 v'.2).map Except.toOption
      = (readField fs key state v.1 v.2).map Except.toOption := by
  match fs with
  | .nil => rfl
  | .cons name k rest =>
    rw [readField, readField]
    by_cases hname : key = name
    · have hone := readKind_alike hscalar k h hn <| hhole.imp_right fun ⟨k', hkind, hhole⟩ =>
        Option.some.inj ((if_pos hname).symm.trans hkind) ▸ hhole
      rw [if_pos hname, if_pos hname, Option.map_some, Option.map_some, toOption_map, toOption_map,
        hone]
    · have hrest := readField_alike hscalar rest h hn (hhole.imp_right fun ⟨k', hkind, hhole⟩ =>
        ⟨k', (if_neg hname).symm.trans hkind, hhole⟩) state.2
      rw [if_neg hname, if_neg hname, Option.map_map, Option.map_map]
      have hmap (result : Option (Seen rest.Values)) :
          result.map (Except.toOption ∘ fun r => r.map fun as => (state.1, as))
            = (result.map Except.toOption).map fun r => r.map fun as => (state.1, as) := by
        cases result with
        | none => rfl
        | some r => cases r <;> rfl
      rw [hmap, hmap, hrest]

end

/-! ## Documents -/

theorem read_of_parse {document : List Char} (h : parse document = .ok es) :
    (read k (String.ofList document)).toOption
      = (readKind k ⟨document, []⟩ (.table .header es)).toOption := by
  rw [read, toOption_mapError, String.toList_ofList, h]
  rfl

/-- A document in which the value stands where a scalar is read says what it says with the string
in its place. -/
theorem read_exchanged (hscalar : SameScalar x) {text : List Char}
    (hparse : parse (text ++ x.old) = .ok es)
    (hholds : Holds x.hole k (⟨text ++ x.old, []⟩, .table .header es)) :
    (read k (String.ofList (text ++ x.old))).toOption
      = (read k (String.ofList (text ++ x.new))).toOption := by
  obtain ⟨es', hnone⟩ | ⟨n, es', hn, hparse', halike⟩ := parse_alike text hparse
  · exact absurd (hholds.one_le (.table _ ⟨[], []⟩ .header hnone)) (Nat.not_succ_le_zero 0)
  · rw [read_of_parse hparse, read_of_parse hparse']
    exact (readKind_alike hscalar k (.table _ _ .header halike) hn (Or.inr hholds)).symm

end ModelScribe.Toml
