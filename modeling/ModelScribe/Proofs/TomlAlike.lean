-- One value for another. Two documents that are the same but for one value
-- yield tables that are alike: the same keys and values, wherever they stand
-- in the text, but for the one value. Every way to build a table, by keys and
-- by headers, keeps this, and counts how often the value has gone in.
import ModelScribe.Proofs.Tree
import ModelScribe.Toml.Document

namespace ModelScribe.Toml

/-! ## Exchanges -/

/-- Neither a list nor a table. -/
def Value.isAtom : Value → Bool
  | .list .. => false
  | .table .. => false
  | _ => true

/-- A value of a document gives way to a string. -/
structure Exchange where
  /-- The document from the value on. -/
  old : List Char
  /-- The document from the string on. -/
  new : List Char
  /-- What stands behind either. -/
  behind : List Char
  before : Value
  after : Value
  begins : ∃ c ∈ old.head?, isAtomChar c
  quoted : ∃ q ∈ new.head?, q = '"' ∨ q = '\''
  shorter : behind.length < old.length
  longer : old.length ≤ new.length
  before_isAtom : before.isAtom
  after_isAtom : after.isAtom
  reads : ∀ fuel levels, value fuel levels new = .ok (locate new behind after, behind)

/-- The value where it stands. -/
def Exchange.hole (x : Exchange) : Located := (⟨x.old, x.behind⟩, x.before)

mutual

/-- The values are the same, wherever they stand, but that so many times the one value has given
way to the other. -/
inductive Alike (x : Exchange) : Nat → Located → Located → Prop
  | exchanged (e : Extent) : Alike x 1 x.hole (e, x.after)
  | atom {e : Extent} {v : Value} (e' : Extent) (hv : v.isAtom) (h : (e, v) ≠ x.hole) :
    Alike x 0 (e, v) (e', v)
  | list {n : Nat} {vs vs' : List Located} (e e' : Extent) (ofTables : Bool)
    (h : AlikeItems x n vs vs') : Alike x n (e, .list ofTables vs) (e', .list ofTables vs')
  | table {n : Nat} {es es' : Entries} (e e' : Extent) (origin : Origin)
    (h : AlikeEntries x n es es') : Alike x n (e, .table origin es) (e', .table origin es')

inductive AlikeItems (x : Exchange) : Nat → List Located → List Located → Prop
  | nil : AlikeItems x 0 [] []
  | cons {m n : Nat} {v v' : Located} {vs vs' : List Located} (hv : Alike x m v v')
    (h : AlikeItems x n vs vs') : AlikeItems x (m + n) (v :: vs) (v' :: vs')

/-- The entries stand in the order of their keys. -/
inductive AlikeEntries (x : Exchange) : Nat → Entries → Entries → Prop
  | nil : AlikeEntries x 0 [] []
  | cons {m n : Nat} {key : String} {v v' : Located} {es es' : Entries}
    (hfirst : ∀ e ∈ es, key < e.1) (hfirst' : ∀ e ∈ es', key < e.1) (hv : Alike x m v v')
    (h : AlikeEntries x n es es') : AlikeEntries x (m + n) ((key, v) :: es) ((key, v') :: es')

end

variable {x : Exchange} {n : Nat}

/-! ## Items and entries -/

namespace AlikeItems

variable {m : Nat} {vs vs' : List Located} {w w' : Located}

theorem append (h : AlikeItems x n vs vs') (hw : Alike x m w w') :
    AlikeItems x (m + n) (vs ++ [w]) (vs' ++ [w']) := by
  induction vs generalizing n vs' with
  | nil =>
    cases h
    exact .cons hw .nil
  | cons v vs ih =>
    cases h with
    | @cons k n _ _ _ _ hv h =>
      rw [show m + (k + n) = k + (m + n) by omega]
      exact .cons hv (ih h)

/-- The last item, and the list with another item in its place. -/
theorem focus (h : AlikeItems x n vs vs') (hne : vs ≠ []) :
    ∃ c r v v', c + r = n ∧ vs.getLast? = some v ∧ vs'.getLast? = some v' ∧ Alike x c v v' ∧
      ∀ {m w w'}, Alike x m w w' →
        AlikeItems x (m + r) (vs.dropLast ++ [w]) (vs'.dropLast ++ [w']) := by
  induction vs generalizing n vs' with
  | nil => exact absurd rfl hne
  | cons v vs ih =>
    cases h with
    | @cons k n _ v' _ vs' hv h =>
      by_cases hnil : vs = []
      · subst hnil
        cases h
        exact ⟨k, 0, v, v', rfl, rfl, rfl, hv, fun hw => .cons hw .nil⟩
      · obtain ⟨c, r, u, u', hsum, hlast, hlast', hu, hput⟩ := ih h hnil
        refine ⟨c, k + r, u, u', by omega, ?_, ?_, hu, fun {m w w'} hw => ?_⟩
        · rw [List.getLast?_cons, hlast]
          rfl
        · rw [List.getLast?_cons, hlast']
          rfl
        · have hnil' : vs' ≠ [] := by
            rintro rfl
            cases hlast'
          rw [List.dropLast_cons_of_ne_nil hnil, List.dropLast_cons_of_ne_nil hnil',
            show m + (k + r) = k + (m + r) by omega]
          exact .cons hv (hput hw)

end AlikeItems

/-- What is found under a key. -/
inductive AlikeFound (x : Exchange) : Nat → Option Located → Option Located → Prop
  | none : AlikeFound x 0 none none
  | some {n : Nat} {v v' : Located} (h : Alike x n v v') : AlikeFound x n (some v) (some v')

namespace AlikeEntries

variable {es es' : Entries}

/-- The keys stand in order, each of them once. -/
theorem pairwise (h : AlikeEntries x n es es') :
    es.Pairwise fun e e' => e.1 < e'.1 := by
  induction es generalizing n es' with
  | nil => exact .nil
  | cons e es ih =>
    cases h with
    | cons hfirst _ _ h => exact .cons hfirst (ih h)

theorem get?_of_first {name : String} (h : ∀ e ∈ es, name < e.1) : es.get? name = none :=
  List.lookup_eq_none_iff.mpr fun e he =>
    bne_iff_ne.mpr fun heq => String.lt_irrefl name (heq ▸ h e he)

theorem first_put {key name : String} {w : Located} (h : ∀ e ∈ es, key < e.1) (hlt : key < name) :
    ∀ e ∈ es.put name w, key < e.1 := by
  induction es with
  | nil => simpa [Entries.put] using hlt
  | cons e es ih =>
    obtain ⟨he, hes⟩ := List.forall_mem_cons.mp h
    rw [Entries.put]
    split
    · exact List.forall_mem_cons.mpr ⟨hlt, h⟩
    split
    · exact List.forall_mem_cons.mpr ⟨hlt, hes⟩
    · exact List.forall_mem_cons.mpr ⟨he, ih hes⟩

/-- What stands under a key, and the entries with another value in its place. -/
theorem focus (h : AlikeEntries x n es es') (name : String) :
    ∃ c r, c + r = n ∧ AlikeFound x c (es.get? name) (es'.get? name) ∧
      ∀ {m w w'}, Alike x m w w' → AlikeEntries x (m + r) (es.put name w) (es'.put name w') := by
  induction es generalizing n es' with
  | nil =>
    cases h
    exact ⟨0, 0, rfl, .none,
      fun hw => .cons (List.forall_mem_nil _) (List.forall_mem_nil _) hw .nil⟩
  | cons e es ih =>
    cases h with
    | @cons k n key v v' _ es' hfirst hfirst' hv h =>
      by_cases hlt : name < key
      · have hnone {v : Located} {es : Entries} (hfirst : ∀ e ∈ es, key < e.1) :
            Entries.get? ((key, v) :: es) name = none :=
          get?_of_first (List.forall_mem_cons.mpr
            ⟨hlt, fun e he => String.lt_trans hlt (hfirst e he)⟩)
        refine ⟨0, k + n, by omega, by rw [hnone hfirst, hnone hfirst']; exact .none, fun hw => ?_⟩
        rw [Entries.put, if_pos hlt, Entries.put, if_pos hlt]
        exact .cons (List.forall_mem_cons.mpr ⟨hlt, fun e he => String.lt_trans hlt (hfirst e he)⟩)
          (List.forall_mem_cons.mpr ⟨hlt, fun e he => String.lt_trans hlt (hfirst' e he)⟩)
          hw (.cons hfirst hfirst' hv h)
      by_cases heq : name = key
      · subst heq
        refine ⟨k, n, rfl, ?_, fun hw => ?_⟩
        · simp only [Entries.get?, List.lookup_cons_self]
          exact .some hv
        · rw [Entries.put, if_neg hlt, if_pos rfl, Entries.put, if_neg hlt, if_pos rfl]
          exact .cons hfirst hfirst' hw h
      · have hgt : key < name := Std.lt_of_le_of_ne hlt (Ne.symm heq)
        have hskip (v : Located) (es : Entries) :
            Entries.get? ((key, v) :: es) name = es.get? name := by
          rw [Entries.get?, List.lookup_cons, beq_false_of_ne heq]
          rfl
        obtain ⟨c, r, hsum, hfound, hput⟩ := ih h
        refine ⟨c, k + r, by omega, by rw [hskip, hskip]; exact hfound, fun {m w w'} hw => ?_⟩
        rw [Entries.put, if_neg hlt, if_neg heq, Entries.put, if_neg hlt, if_neg heq,
          show m + (k + r) = k + (m + r) by omega]
        exact .cons (first_put hfirst hgt) (first_put hfirst' hgt) hv (hput hw)

end AlikeEntries

/-! ## Paths -/

/-- Nothing leads on from what stands under the key: neither a table nor a list that ends with
one. -/
def Blocked (es : Entries) (name : String) : Prop :=
  ∃ e v, es.get? name = some (e, v) ∧ (∀ o inner, v ≠ .table o inner) ∧
    ∀ vs ie o inner, v = .list true vs → vs.getLast? ≠ some (ie, .table o inner)

section

variable {dotted : Bool} {change : Origin → Entries → Except Fault Entries} {p last : Key}
  {path : List Key} {origin o : Origin} {e ie : Extent} {es inner : Entries} {vs : List Located}

theorem blocked_of_isAtom {v : Value} {name : String} (h : es.get? name = some (e, v))
    (hv : v.isAtom) : Blocked es name := by
  refine ⟨e, v, h, ?_, ?_⟩
  · rintro o inner rfl
    cases hv
  · rintro vs ie o inner rfl
    cases hv

theorem blocked_of_getLast? {ofTables : Bool} {name : String}
    (h : es.get? name = some (e, .list ofTables vs))
    (hlast : ofTables = true → ∀ ie o inner, vs.getLast? ≠ some (ie, .table o inner)) :
    Blocked es name := by
  refine ⟨e, _, h, nofun, ?_⟩
  rintro _ ie o inner ⟨⟩
  exact hlast rfl ie o inner

theorem descend_blocked (h : Blocked es p.name) :
    Entries.descend dotted change (p :: path) origin es = .error (some p.extent) := by
  obtain ⟨e, v, hget, htable, hlast⟩ := h
  rw [Entries.descend, hget]
  cases v with
  | table o inner => exact absurd rfl (htable o inner)
  | list ofTables vs =>
    cases ofTables with
    | false => rfl
    | true =>
      simp only
      split
      case h_1 heq => exact absurd heq (hlast vs _ _ _ rfl)
      case h_2 => rfl
  | _ => rfl

theorem lookup_nil (path : List Key) (last : Key) : Draft.lookup path last [] = none := by
  cases path <;> rfl

theorem lookup_absent (h : es.get? p.name = none) : Draft.lookup (p :: path) last es = none := by
  rw [Draft.lookup, h]

theorem lookup_table (h : es.get? p.name = some (e, .table o inner)) :
    Draft.lookup (p :: path) last es = Draft.lookup path last inner := by
  rw [Draft.lookup, h]

theorem lookup_items (h : es.get? p.name = some (e, .list true vs))
    (hlast : vs.getLast? = some (ie, .table o inner)) :
    Draft.lookup (p :: path) last es = Draft.lookup path last inner := by
  rw [Draft.lookup, h]
  simp only [hlast]

theorem lookup_blocked (h : Blocked es p.name) : Draft.lookup (p :: path) last es = none := by
  obtain ⟨e, v, hget, htable, hlast⟩ := h
  rw [Draft.lookup, hget]
  cases v with
  | table o inner => exact absurd rfl (htable o inner)
  | list ofTables vs =>
    cases ofTables with
    | false => rfl
    | true =>
      simp only
      split
      case h_1 heq => exact absurd heq (hlast vs _ _ _ rfl)
      case h_2 => rfl
  | _ => rfl

/-- The first part of a path leads into a table, which is put back as `wrap` says. -/
structure Enters (dotted : Bool) (p : Key) (path : List Key) (origin : Origin) (es : Entries)
    (o : Origin) (inner : Entries) (wrap : Entries → Entries) : Prop where
  descends : ∀ change, Entries.descend dotted change (p :: path) origin es
    = (Entries.descend dotted change path o inner).map wrap
  looks : ∀ last, Draft.lookup (p :: path) last es = Draft.lookup path last inner

theorem enters_absent (h : es.get? p.name = none) :
    Enters dotted p path origin es (if dotted then .dotted else .implied) [] fun inner =>
      es.put p.name (p.extent, .table (if dotted then .dotted else .implied) inner) where
  descends _ := by rw [Entries.descend, h]
  looks last := by rw [lookup_nil, lookup_absent h]

theorem enters_table (h : es.get? p.name = some (e, .table o inner))
    (ho : ¬(o = .inline ∨ (dotted = true ∧ o = .header))) :
    Enters dotted p path origin es o inner fun inner => es.put p.name (e, .table o inner) where
  descends _ := by
    rw [Entries.descend, h]
    exact if_neg ho
  looks _ := lookup_table h

theorem enters_items (h : es.get? p.name = some (e, .list true vs))
    (hlast : vs.getLast? = some (ie, .table o inner)) :
    Enters dotted p path origin es o inner fun inner =>
      es.put p.name (e, .list true (vs.dropLast ++ [(ie, .table o inner)])) where
  descends _ := by
    rw [Entries.descend, h]
    simp only [hlast]
  looks _ := lookup_items h hlast

end

theorem Value.ne_table {v : Value} (hv : v.isAtom) {o : Origin} {inner : Entries} :
    v ≠ .table o inner := by
  rintro rfl
  cases hv

theorem Value.ne_list {v : Value} (hv : v.isAtom) {ofTables : Bool} {vs : List Located} :
    v ≠ .list ofTables vs := by
  rintro rfl
  cases hv

/-- Where a key leads in two tables that are alike. -/
inductive Leads (x : Exchange) (n : Nat) (es es' : Entries) (name : String) : Prop
  | absent (h : es.get? name = none) (h' : es'.get? name = none)
    (hput : ∀ {m w w'}, Alike x m w w' → AlikeEntries x (m + n) (es.put name w) (es'.put name w'))
  | table {k r : Nat} {e e' : Extent} {o : Origin} {inner inner' : Entries} (hsum : k + r = n)
    (h : es.get? name = some (e, .table o inner)) (h' : es'.get? name = some (e', .table o inner'))
    (hinner : AlikeEntries x k inner inner')
    (hput : ∀ {m t t'}, AlikeEntries x m t t' → AlikeEntries x (m + r)
      (es.put name (e, .table o t)) (es'.put name (e', .table o t')))
  | items {k r : Nat} {e e' ie ie' : Extent} {o : Origin} {vs vs' : List Located}
    {inner inner' : Entries} (hsum : k + r = n) (h : es.get? name = some (e, .list true vs))
    (h' : es'.get? name = some (e', .list true vs'))
    (hlast : vs.getLast? = some (ie, .table o inner))
    (hlast' : vs'.getLast? = some (ie', .table o inner')) (hinner : AlikeEntries x k inner inner')
    (hput : ∀ {m t t'}, AlikeEntries x m t t' → AlikeEntries x (m + r)
      (es.put name (e, .list true (vs.dropLast ++ [(ie, .table o t)])))
      (es'.put name (e', .list true (vs'.dropLast ++ [(ie', .table o t')]))))
  | blocked (h : Blocked es name) (h' : Blocked es' name)

/-- The last item of a list, if it is a table, is where the key leads. -/
theorem AlikeItems.leads {c r : Nat} {es es' : Entries} {name : String} {e e' : Extent}
    {ofTables : Bool} {vs vs' : List Located} (h : AlikeItems x c vs vs') (hsum : c + r = n)
    (hget : es.get? name = some (e, .list ofTables vs))
    (hget' : es'.get? name = some (e', .list ofTables vs'))
    (hput : ∀ {m ws ws'}, AlikeItems x m ws ws' → AlikeEntries x (m + r)
      (es.put name (e, .list ofTables ws)) (es'.put name (e', .list ofTables ws'))) :
    Leads x n es es' name := by
  have hblocked
      (hlast : ofTables = true → ∀ ie o inner, vs.getLast? ≠ some (ie, .table o inner))
      (hlast' : ofTables = true → ∀ ie o inner, vs'.getLast? ≠ some (ie, .table o inner)) :
      Leads x n es es' name :=
    .blocked (blocked_of_getLast? hget hlast) (blocked_of_getLast? hget' hlast')
  by_cases hnil : vs = []
  · subst hnil
    cases h
    exact hblocked (fun _ _ _ _ => nofun) fun _ _ _ _ => nofun
  obtain ⟨k, r', v, v', hsum', hlast, hlast', hv, hreplace⟩ := h.focus hnil
  have hother (hv : ∀ o inner, v.2 ≠ .table o inner) (hv' : ∀ o inner, v'.2 ≠ .table o inner) :
      Leads x n es es' name :=
    hblocked
      (fun _ _ o inner heq =>
        hv o inner (congrArg Prod.snd (Option.some.inj (hlast.symm.trans heq))))
      fun _ _ o inner heq =>
        hv' o inner (congrArg Prod.snd (Option.some.inj (hlast'.symm.trans heq)))
  cases hv with
  | exchanged =>
    exact hother (fun _ _ => Value.ne_table x.before_isAtom)
      fun _ _ => Value.ne_table x.after_isAtom
  | atom _ hv => exact hother (fun _ _ => Value.ne_table hv) fun _ _ => Value.ne_table hv
  | list => exact hother (fun _ _ => nofun) fun _ _ => nofun
  | table ie ie' o hinner =>
    cases ofTables with
    | false => exact hblocked (fun h => by cases h) fun h => by cases h
    | true =>
      refine .items (by omega : k + (r' + r) = n) hget hget' hlast hlast' hinner
        fun {m t t'} ht => ?_
      rw [← Nat.add_assoc]
      exact hput (hreplace (.table ie ie' o ht))

theorem AlikeEntries.leads {es es' : Entries} (h : AlikeEntries x n es es') (name : String) :
    Leads x n es es' name := by
  obtain ⟨c, r, hsum, hfound, hput⟩ := h.focus name
  generalize hget : es.get? name = found at hfound
  generalize hget' : es'.get? name = found' at hfound
  cases hfound with
  | none =>
    obtain rfl : r = n := by omega
    exact .absent hget hget' hput
  | some hv =>
    cases hv with
    | exchanged =>
      exact .blocked (blocked_of_isAtom hget x.before_isAtom)
        (blocked_of_isAtom hget' x.after_isAtom)
    | atom _ hv => exact .blocked (blocked_of_isAtom hget hv) (blocked_of_isAtom hget' hv)
    | table e e' o hinner =>
      exact .table hsum hget hget' hinner fun ht => hput (.table e e' o ht)
    | list e e' ofTables hitems =>
      exact hitems.leads hsum hget hget' fun hws => hput (.list e e' ofTables hws)

theorem exists_sameNames_cons {p : Key} {path path' : List Key}
    (h : path'.map (·.name) = (p :: path).map (·.name)) :
    ∃ p' ps, path' = p' :: ps ∧ p'.name = p.name ∧ ps.map (·.name) = path.map (·.name) :=
  List.map_eq_cons_iff.mp h

/-- Where a path leads in two tables that are alike: there one may go on with any two tables that
are alike, and build the tables around them again. -/
structure Reaches (x : Exchange) (dotted : Bool) (path path' : List Key) (origin : Origin) (n : Nat)
    (es es' : Entries) (o : Origin) (k r : Nat) (inner inner' : Entries)
    (rebuild rebuild' : Entries → Entries) : Prop where
  sum : k + r = n
  alike : AlikeEntries x k inner inner'
  descends : ∀ change,
    Entries.descend dotted change path origin es = (change o inner).map rebuild
  descends' : ∀ change,
    Entries.descend dotted change path' origin es' = (change o inner').map rebuild'
  looks : ∀ last, Draft.lookup path last es = (inner.get? last.name).map (·.2)
  looks' : ∀ last, Draft.lookup path' last es' = (inner'.get? last.name).map (·.2)
  rebuilds : ∀ {m t t'}, AlikeEntries x m t t' → AlikeEntries x (m + r) (rebuild t) (rebuild' t')

/-- Where the rest of a path leads, the whole path does. -/
theorem Reaches.enter {dotted : Bool} {p p' : Key} {path path' : List Key} {origin o o' : Origin}
    {k r k' r' : Nat} {es es' inner inner' t t' : Entries}
    {wrap wrap' rebuild rebuild' : Entries → Entries}
    (h : Reaches x dotted path path' o k inner inner' o' k' r' t t' rebuild rebuild')
    (hsum : k + r = n) (henters : Enters dotted p path origin es o inner wrap)
    (henters' : Enters dotted p' path' origin es' o inner' wrap')
    (hwrap : ∀ {m t t'}, AlikeEntries x m t t' → AlikeEntries x (m + r) (wrap t) (wrap' t')) :
    Reaches x dotted (p :: path) (p' :: path') origin n es es' o' k' (r' + r) t t'
      (wrap ∘ rebuild) (wrap' ∘ rebuild') where
  sum := by
    have := h.sum
    omega
  alike := h.alike
  descends change := by
    rw [henters.descends, h.descends]
    cases change o' t <;> rfl
  descends' change := by
    rw [henters'.descends, h.descends']
    cases change o' t' <;> rfl
  looks last := by rw [henters.looks, h.looks]
  looks' last := by rw [henters'.looks, h.looks']
  rebuilds ht := by
    rw [← Nat.add_assoc]
    exact hwrap (h.rebuilds ht)

/-- A path leads nowhere, or to tables that are alike. -/
def EndsAlike (x : Exchange) (dotted : Bool) (path path' : List Key) (origin : Origin) (n : Nat)
    (es es' : Entries) : Prop :=
  (∀ change, ∃ fault, Entries.descend dotted change path origin es = .error fault) ∨
    ∃ o k r inner inner' rebuild rebuild',
      Reaches x dotted path path' origin n es es' o k r inner inner' rebuild rebuild'

theorem EndsAlike.enter {dotted : Bool} {p p' : Key} {path path' : List Key} {origin o : Origin}
    {k r : Nat} {es es' inner inner' : Entries} {wrap wrap' : Entries → Entries}
    (h : EndsAlike x dotted path path' o k inner inner') (hsum : k + r = n)
    (henters : Enters dotted p path origin es o inner wrap)
    (henters' : Enters dotted p' path' origin es' o inner' wrap')
    (hwrap : ∀ {m t t'}, AlikeEntries x m t t' → AlikeEntries x (m + r) (wrap t) (wrap' t')) :
    EndsAlike x dotted (p :: path) (p' :: path') origin n es es' := by
  obtain hnowhere | ⟨_, _, _, _, _, _, _, hreach⟩ := h
  · refine Or.inl fun change => ?_
    obtain ⟨fault, hfault⟩ := hnowhere change
    exact ⟨fault, by rw [henters.descends, hfault]; rfl⟩
  · exact Or.inr ⟨_, _, _, _, _, _, _, hreach.enter hsum henters henters' hwrap⟩

theorem descend_alike (dotted : Bool) {path path' : List Key}
    (hpath : path'.map (·.name) = path.map (·.name)) {es es' : Entries} (origin : Origin)
    (h : AlikeEntries x n es es') : EndsAlike x dotted path path' origin n es es' := by
  induction path generalizing path' es es' n origin with
  | nil =>
    obtain rfl : path' = [] := List.map_eq_nil_iff.mp hpath
    have hid (r : Except Fault Entries) : r.map id = r := by cases r <;> rfl
    exact Or.inr ⟨origin, n, 0, es, es', id, id, rfl, h, fun change => (hid _).symm,
      fun change => (hid _).symm, fun _ => rfl, fun _ => rfl, id⟩
  | cons p path ih =>
    obtain ⟨p', path', rfl, hp, hpath⟩ := exists_sameNames_cons hpath
    cases h.leads p.name with
    | absent hget hget' hput =>
      rw [← hp] at hget'
      refine (ih hpath _ .nil).enter (Nat.zero_add n) (enters_absent hget) (enters_absent hget')
        fun ht => ?_
      rw [hp]
      exact hput (.table p.extent p'.extent _ ht)
    | @table k r e e' o inner inner' hsum hget hget' hinner hput =>
      rw [← hp] at hget'
      by_cases ho : o = .inline ∨ (dotted = true ∧ o = .header)
      · refine Or.inl fun change => ⟨some p.extent, ?_⟩
        rw [Entries.descend, hget]
        exact if_pos ho
      · refine (ih hpath _ hinner).enter hsum (enters_table hget ho) (enters_table hget' ho)
          fun ht => ?_
        rw [hp]
        exact hput ht
    | items hsum hget hget' hlast hlast' hinner hput =>
      rw [← hp] at hget'
      refine (ih hpath _ hinner).enter hsum (enters_items hget hlast) (enters_items hget' hlast')
        fun ht => ?_
      rw [hp]
      exact hput ht
    | blocked h => exact Or.inl fun change => ⟨_, descend_blocked h⟩

/-- An entry goes into tables that are alike. -/
theorem insert_alike {path path' : List Key} {key key' : Key} {es es' res : Entries} {m : Nat}
    {v v' : Located} (hpath : path'.map (·.name) = path.map (·.name)) (hkey : key'.name = key.name)
    (h : AlikeEntries x n es es') (hv : Alike x m v v')
    (hinsert : es.insert path key v.1 v.2 = .ok res) :
    ∃ res', es'.insert path' key' v'.1 v'.2 = .ok res' ∧ AlikeEntries x (m + n) res res' := by
  have hempty : path'.isEmpty = path.isEmpty := by
    simpa using congrArg List.isEmpty hpath
  rw [Entries.insert] at hinsert ⊢
  rw [hempty]
  obtain hnowhere | ⟨o, k, r, inner, inner', rebuild, rebuild', hreach⟩ :=
    descend_alike (!path.isEmpty) hpath .header h
  · obtain ⟨fault, hfault⟩ := hnowhere _
    rw [hfault] at hinsert
    cases hinsert
  · obtain ⟨c, r', hsum', hfound, hput⟩ := hreach.alike.focus key.name
    have hsum := hreach.sum
    rw [hreach.descends] at hinsert
    rw [hreach.descends', hkey]
    generalize hget : inner.get? key.name = found at hfound hinsert
    generalize hget' : inner'.get? key.name = found' at hfound ⊢
    cases hfound with
    | some => simp [Except.map] at hinsert
    | none =>
      by_cases ho : (decide (o = .dotted) != !path.isEmpty) = true ∨ (none : Option Located).isSome
      · rw [if_pos ho] at hinsert
        cases hinsert
      · rw [if_neg ho] at hinsert ⊢
        obtain rfl := Except.ok.inj hinsert
        refine ⟨_, rfl, ?_⟩
        rw [show m + n = m + r' + r by omega]
        exact hreach.rebuilds (hput hv)

/-! ## Headers -/

/-- What a path leads to in tables that are alike. -/
theorem lookup_alike {path path' : List Key} {last last' : Key} {es es' : Entries}
    (hpath : path'.map (·.name) = path.map (·.name)) (hlast : last'.name = last.name)
    (h : AlikeEntries x n es es') :
    ∃ c found found', c ≤ n ∧ AlikeFound x c found found' ∧
      Draft.lookup path last es = found.map (·.2) ∧
      Draft.lookup path' last' es' = found'.map (·.2) := by
  induction path generalizing path' es es' n with
  | nil =>
    obtain rfl : path' = [] := List.map_eq_nil_iff.mp hpath
    obtain ⟨c, r, hsum, hfound, -⟩ := h.focus last.name
    refine ⟨c, _, _, by omega, hfound, rfl, ?_⟩
    rw [Draft.lookup, hlast]
  | cons p path ih =>
    obtain ⟨p', path', rfl, hp, hpath⟩ := exists_sameNames_cons hpath
    cases h.leads p.name with
    | absent hget hget' =>
      rw [← hp] at hget'
      exact ⟨0, none, none, Nat.zero_le n, .none, lookup_absent hget, lookup_absent hget'⟩
    | table hsum hget hget' hinner =>
      rw [← hp] at hget'
      obtain ⟨c, found, found', hle, hfound, hlook, hlook'⟩ := ih hpath hinner
      exact ⟨c, found, found', by omega, hfound, (lookup_table hget).trans hlook,
        (lookup_table hget').trans hlook'⟩
    | items hsum hget hget' hend hend' hinner =>
      rw [← hp] at hget'
      obtain ⟨c, found, found', hle, hfound, hlook, hlook'⟩ := ih hpath hinner
      exact ⟨c, found, found', by omega, hfound, (lookup_items hget hend).trans hlook,
        (lookup_items hget' hend').trans hlook'⟩
    | blocked h h' =>
      rw [← hp] at h'
      exact ⟨0, none, none, Nat.zero_le n, .none, lookup_blocked h, lookup_blocked h'⟩

/-! ## Drafts -/

/-- Drafts that are alike: their open tables, and, whatever alike stands in these, the tables of
the two documents once they are complete. -/
def DraftAlike (x : Exchange) (n : Nat) (d d' : Draft) : Prop :=
  ∃ c r, c + r = n ∧ AlikeEntries x c d.current d'.current ∧
    ∀ {m current current' es}, AlikeEntries x m current current' →
      Draft.close { d with current } = .ok es →
      ∃ es', Draft.close { d' with current := current' } = .ok es' ∧ AlikeEntries x (m + r) es es'

/-- Headers of the same table. -/
def SameHeader (h h' : Header) : Prop :=
  h'.path.map (·.name) = h.path.map (·.name) ∧ h'.last.name = h.last.name ∧ h'.isItem = h.isItem

namespace DraftAlike

variable {d d' : Draft}

theorem initial : DraftAlike x 0 {} {} := by
  refine ⟨0, 0, rfl, .nil, fun {m current current' es} hcurrent hclose => ?_⟩
  obtain rfl := Except.ok.inj hclose
  exact ⟨current', rfl, hcurrent⟩

theorem close {es : Entries} (h : DraftAlike x n d d') (hclose : d.close = .ok es) :
    ∃ es', d'.close = .ok es' ∧ AlikeEntries x n es es' := by
  obtain ⟨c, r, rfl, hcurrent, hcloses⟩ := h
  exact hcloses hcurrent hclose

/-- An entry goes into the open tables. -/
theorem insert {path path' : List Key} {key key' : Key} {m : Nat} {v v' : Located}
    {current : Entries} (h : DraftAlike x n d d') (hpath : path'.map (·.name) = path.map (·.name))
    (hkey : key'.name = key.name) (hv : Alike x m v v')
    (hinsert : d.current.insert path key v.1 v.2 = .ok current) :
    ∃ current', d'.current.insert path' key' v'.1 v'.2 = .ok current' ∧
      DraftAlike x (m + n) { d with current } { d' with current := current' } := by
  obtain ⟨c, r, hsum, hcurrent, hcloses⟩ := h
  obtain ⟨current', hinsert', halike⟩ := insert_alike hpath hkey hcurrent hv hinsert
  exact ⟨current', hinsert', m + c, r, by omega, halike, hcloses⟩

/-- What closing a draft does to the table that its header stands in. -/
def settle (h : Header) (current es : Entries) : Except Fault Entries :=
  if h.isItem then
    match es.get? h.last.name with
    | none => .ok (es.put h.last.name (h.extent, .list true [(h.extent, .table .header current)]))
    | some (extent, .list true vs) =>
      .ok (es.put h.last.name (extent, .list true (vs ++ [(h.extent, .table .header current)])))
    | some _ => .error (some h.last.extent)
  else .ok (es.put h.last.name (h.extent, .table .header current))

theorem close_header (h : Header) (root current : Entries) :
    Draft.close { root, header := some h, current }
      = root.descend false (fun _ es => settle h current es) h.path .header := rfl

section

variable {h : Header} {current es : Entries} {e : Extent} {v : Value}

theorem settle_table (hitem : h.isItem = false) :
    settle h current es = .ok (es.put h.last.name (h.extent, .table .header current)) := by
  simp [settle, hitem]

theorem settle_first (hitem : h.isItem) (hget : es.get? h.last.name = none) :
    settle h current es
      = .ok (es.put h.last.name (h.extent, .list true [(h.extent, .table .header current)])) := by
  rw [settle, if_pos hitem, hget]

theorem settle_next {vs : List Located} (hitem : h.isItem)
    (hget : es.get? h.last.name = some (e, .list true vs)) : settle h current es
      = .ok (es.put h.last.name (e, .list true (vs ++ [(h.extent, .table .header current)]))) := by
  rw [settle, if_pos hitem, hget]

theorem settle_blocked (hitem : h.isItem) (hget : es.get? h.last.name = some (e, v))
    (hv : ∀ vs, v ≠ .list true vs) : settle h current es = .error (some h.last.extent) := by
  rw [settle, if_pos hitem, hget]
  split
  · contradiction
  · rename_i heq
    cases heq
    exact absurd rfl (hv _)
  · rfl

end

/-- An item goes behind those that its header finds, or is the first one. -/
theorem settle_item_alike {h h' : Header} (hlast : h'.last.name = h.last.name)
    (his : h.isItem) (his' : h'.isItem) {k m : Nat} {es es' current current' res : Entries}
    (hes : AlikeEntries x k es es') (hcurrent : AlikeEntries x m current current')
    (hsettle : settle h current es = .ok res) :
    ∃ res', settle h' current' es' = .ok res' ∧ AlikeEntries x (m + k) res res' := by
  obtain ⟨c, r, hsum, hfound, hput⟩ := hes.focus h.last.name
  have htable : Alike x m (h.extent, .table .header current) (h'.extent, .table .header current') :=
    .table _ _ _ hcurrent
  have hother {e : Extent} {v : Value} (hget : es.get? h.last.name = some (e, v))
      (hv : ∀ vs, v ≠ .list true vs) : False := by
    rw [settle_blocked his hget hv] at hsettle
    cases hsettle
  generalize hget : es.get? h.last.name = found at hfound
  generalize hget' : es'.get? h.last.name = found' at hfound
  rw [← hlast] at hget' hput
  cases hfound with
  | none =>
    rw [settle_first his hget, ← hlast] at hsettle
    obtain rfl := Except.ok.inj hsettle
    refine ⟨_, settle_first his' hget', ?_⟩
    rw [show m + k = m + 0 + r by omega]
    exact hput (.list _ _ true (.cons htable .nil))
  | some hv =>
    cases hv with
    | exchanged => exact (hother hget fun _ => Value.ne_list x.before_isAtom).elim
    | atom _ hv => exact (hother hget fun _ => Value.ne_list hv).elim
    | table => exact (hother hget fun _ heq => by cases heq).elim
    | @list _ vs vs' e e' ofTables hitems =>
      cases ofTables with
      | false => exact (hother hget fun _ heq => by cases heq).elim
      | true =>
        rw [settle_next his hget, ← hlast] at hsettle
        obtain rfl := Except.ok.inj hsettle
        refine ⟨_, settle_next his' hget', ?_⟩
        rw [show m + k = m + c + r by omega]
        exact hput (.list e e' true (hitems.append htable))

/-- Closing adds what the open table holds; a table goes in the place of what its header found. -/
theorem settle_alike {h h' : Header} (hsame : SameHeader h h') {k : Nat} {es es' : Entries}
    (hes : AlikeEntries x k es es') :
    ∃ c r, c + r = k ∧ AlikeFound x c (es.get? h.last.name) (es'.get? h'.last.name) ∧
      ∀ {m current current' res}, AlikeEntries x m current current' →
        settle h current es = .ok res →
        ∃ res', settle h' current' es' = .ok res' ∧
          AlikeEntries x (m + if h.isItem then k else r) res res' := by
  obtain ⟨-, hlast, hitem⟩ := hsame
  obtain ⟨c, r, hsum, hfound, hput⟩ := hes.focus h.last.name
  rw [← hlast] at hput
  refine ⟨c, r, hsum, hlast ▸ hfound, fun {m current current' res} hcurrent hsettle => ?_⟩
  cases his : h.isItem with
  | false =>
    rw [settle_table his, ← hlast] at hsettle
    obtain rfl := Except.ok.inj hsettle
    exact ⟨_, settle_table (hitem.trans his), hput (.table _ _ _ hcurrent)⟩
  | true =>
    rw [if_pos rfl]
    exact settle_item_alike hlast his (hitem.trans his) hes hcurrent hsettle

/-- A header opens an item, a new table, or one in which tables have been opened before. -/
theorem openTable_cases {h : Header} {root : Entries} (hopen : Draft.openTable h root = .ok d) :
    (h.isItem ∧ d = { root, header := some h }) ∨
      h.isItem = false ∧
        ((Draft.lookup h.path h.last root = none ∧ d = { root, header := some h }) ∨
          ∃ inner, Draft.lookup h.path h.last root = some (.table .implied inner) ∧
            d = { root, header := some h, current := inner }) := by
  rw [Draft.openTable] at hopen
  split at hopen
  case isTrue hitem => exact Or.inl ⟨hitem, (Except.ok.inj hopen).symm⟩
  case isFalse hitem =>
    refine Or.inr ⟨Bool.eq_false_iff.mpr hitem, ?_⟩
    split at hopen
    case h_1 hlook => exact Or.inl ⟨hlook, (Except.ok.inj hopen).symm⟩
    case h_2 inner hlook => exact Or.inr ⟨inner, hlook, (Except.ok.inj hopen).symm⟩
    case h_3 => cases hopen

/-- A table is opened with what its header finds. It can be closed with anything in its place;
an item of a list goes in besides. -/
theorem openTable_found {h h' : Header} (hsame : SameHeader h h') {root root' : Entries} {c r : Nat}
    {found found' : Option Located} (hsum : c + r = n) (hfound : AlikeFound x c found found')
    (hlook : Draft.lookup h.path h.last root = found.map (·.2))
    (hlook' : Draft.lookup h'.path h'.last root' = found'.map (·.2))
    (hcloses : ∀ {m current current' es}, AlikeEntries x m current current' →
      Draft.close { root, header := some h, current } = .ok es →
      ∃ es', Draft.close { root := root', header := some h', current := current' } = .ok es' ∧
        AlikeEntries x (m + if h.isItem then n else r) es es')
    (hopen : Draft.openTable h root = .ok d) :
    ∃ d', Draft.openTable h' root' = .ok d' ∧ DraftAlike x n d d' := by
  obtain ⟨hitem, rfl⟩ | ⟨hitem, hopened⟩ := openTable_cases hopen
  · simp only [hitem, if_pos] at hcloses
    exact ⟨_, if_pos (hsame.2.2.trans hitem), 0, n, Nat.zero_add n, .nil, hcloses⟩
  have hitem' := hsame.2.2.trans hitem
  simp only [hitem, Bool.false_eq_true, if_false] at hcloses
  obtain ⟨hnone, rfl⟩ | ⟨inner, htable, rfl⟩ := hopened
  · rw [hnone] at hlook
    cases hfound with
    | some => cases hlook
    | none =>
      refine ⟨{ root := root', header := some h' }, ?_, 0, r, hsum, .nil, hcloses⟩
      rw [Draft.openTable, hitem', hlook']
      rfl
  · rw [htable] at hlook
    cases hfound with
    | none => cases hlook
    | some hv =>
      cases hv with
      | exchanged => exact absurd (Option.some.inj hlook).symm (Value.ne_table x.before_isAtom)
      | atom _ hv => exact absurd (Option.some.inj hlook).symm (Value.ne_table hv)
      | list => cases hlook
      | @table _ _ current' e e' o hinner =>
        cases hlook
        refine ⟨{ root := root', header := some h', current := current' }, ?_, c, r, hsum,
          hinner, hcloses⟩
        rw [Draft.openTable, hitem', hlook']
        rfl

/-- A header opens tables that are alike. -/
theorem openTable {h h' : Header} (hsame : SameHeader h h') {root root' : Entries}
    (hroot : AlikeEntries x n root root') (hopen : Draft.openTable h root = .ok d) :
    ∃ d', Draft.openTable h' root' = .ok d' ∧ DraftAlike x n d d' := by
  obtain ⟨hpath, hlast, -⟩ := id hsame
  obtain hnowhere | ⟨o, k, r, inner, inner', rebuild, rebuild', hreach⟩ :=
    descend_alike false hpath .header hroot
  · -- nothing will ever close the table
    obtain ⟨c, found, found', hle, hfound, hlook, hlook'⟩ := lookup_alike hpath hlast hroot
    refine openTable_found hsame (by omega : c + (n - c) = n) hfound hlook hlook'
      (fun {m current current' es} _ hclose => ?_) hopen
    obtain ⟨fault, hfault⟩ := hnowhere fun _ es => settle h current es
    rw [close_header, hfault] at hclose
    cases hclose
  · obtain ⟨c, r', hsum', hfound, hsettles⟩ := settle_alike hsame hreach.alike
    have hsum := hreach.sum
    refine openTable_found hsame (by omega : c + (r' + r) = n) hfound (hreach.looks h.last)
      (hreach.looks' h'.last) (fun {m current current' es} hcurrent hclose => ?_) hopen
    rw [close_header, hreach.descends] at hclose
    rw [close_header, hreach.descends']
    obtain ⟨res, hsettle, rfl⟩ := map_eq_ok hclose
    obtain ⟨res', hsettle', halike⟩ := hsettles hcurrent hsettle
    refine ⟨_, by rw [hsettle']; rfl, ?_⟩
    rw [show (m + if h.isItem then n else r' + r) = (m + if h.isItem then k else r') + r by
      split <;> omega]
    exact hreach.rebuilds halike

end DraftAlike

end ModelScribe.Toml
