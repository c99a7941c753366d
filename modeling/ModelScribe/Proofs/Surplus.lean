-- Surplus items. A list may stand for a record, with its items at the
-- positions of the fields. One that has more items than the record has fields
-- means nothing; a format may still read it, as if the items that belong to
-- no field were not there.
import ModelScribe.Proofs.Tree

namespace ModelScribe

/-! ## Trees without surplus items -/

mutual

/-- No list at the place of a record in the tree has more items than the record has fields. -/
def Kind.Fits (k : Kind) (t : Tree) : Prop :=
  match k with
  | .optional k => k.Fits t
  | .list k =>
    match t with
    | .list ts => ∀ t ∈ ts, k.Fits t
    | _ => True
  | .record _ fs =>
    match t with
    | .list ts => fs.FitPlaces ts
    | .table es => fs.FitNamed es
    | _ => True
  | _ => True

/-- There are no more trees than fields, and each fits at its position. -/
def Fields.FitPlaces (fs : Fields) (ts : List Tree) : Prop :=
  match fs with
  | .nil => ts = []
  | .cons _ k rest =>
    match ts with
    | [] => True
    | t :: ts => k.Fits t ∧ rest.FitPlaces ts

/-- What is found under the keys of the fields fits there. -/
def Fields.FitNamed (fs : Fields) (es : List (String × Tree)) : Prop :=
  match fs with
  | .nil => True
  | .cons key k rest => (∀ t, es.lookup key = some t → k.Fits t) ∧ rest.FitNamed es

end

mutual

/-- The tree without the items that a list at the place of a record has too many. -/
def Kind.trim (k : Kind) (t : Tree) : Tree :=
  match k with
  | .optional k => k.trim t
  | .list k =>
    match t with
    | .list ts => .list (ts.map fun t => k.trim t)
    | t => t
  | .record _ fs =>
    match t with
    | .list ts => .list (fs.trimPlaces ts)
    | .table es => .table (es.map fun e => (e.1, fs.trimNamed e.1 e.2))
    | t => t
  | _ => t

def Fields.trimPlaces (fs : Fields) (ts : List Tree) : List Tree :=
  match fs with
  | .nil => []
  | .cons _ k rest =>
    match ts with
    | [] => []
    | t :: ts => k.trim t :: rest.trimPlaces ts

/-- What stands under a key, without surplus items if the key is that of a field. -/
def Fields.trimNamed (fs : Fields) (key : String) (t : Tree) : Tree :=
  match fs with
  | .nil => t
  | .cons name k rest => if key = name then k.trim t else rest.trimNamed key t

end

/-! ## What is missing -/

theorem Kind.trim_ne_null (k : Kind) {t : Tree} (h : t ≠ .null) : k.trim t ≠ .null := by
  match k with
  | .optional k =>
    rw [trim]
    exact trim_ne_null k h
  | .text | .flag | .byte | .scalar =>
    rw [trim] <;> first | exact h | nofun
  | .list k => cases t <;> simp [trim] at h ⊢
  | .record name fs => cases t <;> simp [trim] at h ⊢

theorem Kind.fits_null (k : Kind) : k.Fits .null := by
  match k with
  | .optional k =>
    rw [Fits]
    exact fits_null k
  | .text | .flag | .byte | .scalar | .list k | .record name fs => simp [Fits]

@[simp] theorem Kind.trim_null (k : Kind) : k.trim .null = .null := by
  match k with
  | .optional k =>
    rw [trim]
    exact trim_null k
  | .text | .flag | .byte | .scalar | .list k | .record name fs => simp [trim]

/-! ## Meaning -/

theorem isSome_of_isSome_mapM {α β : Type} {f : α → Option β} {xs : List α}
    (h : (xs.mapM f).isSome) : ∀ x ∈ xs, (f x).isSome := by
  induction xs with
  | nil => exact List.forall_mem_nil _
  | cons x xs ih =>
    rw [List.mapM_cons, Option.bind_eq_bind, Option.isSome_bind, Option.any_eq_true] at h
    obtain ⟨b, hb, h⟩ := h
    rw [Option.bind_eq_bind, Option.isSome_bind, Option.any_eq_true] at h
    obtain ⟨bs, hbs, -⟩ := h
    exact List.forall_mem_cons.mpr ⟨by simp [hb], ih (by simp [hbs])⟩

theorem lookup_map {α β : Type} (f : String → α → β) (es : List (String × α)) (key : String) :
    (es.map fun e => (e.1, f e.1 e.2)).lookup key = (es.lookup key).map (f key) := by
  induction es with
  | nil => rfl
  | cons e es ih =>
    obtain ⟨name, a⟩ := e
    by_cases h : key = name
    · simp [h]
    · simp [List.lookup_cons, beq_false_of_ne h, ih]

/-- The fields behind the first see what stands under their own keys alone. -/
theorem Fields.named_trimNamed_rest {name : String} {k : Kind} {rest : Fields}
    (hname : name ∉ rest.keys) (es : List (String × Tree)) (stated : rest.Values) :
    rest.named (es.map fun e => (e.1, (Fields.cons name k rest).trimNamed e.1 e.2)) stated
      = rest.named (es.map fun e => (e.1, rest.trimNamed e.1 e.2)) stated := by
  refine rest.named_congr stated fun key hkey => ?_
  have hne : key ≠ name := fun h => hname (h ▸ hkey)
  rw [lookup_map, lookup_map rest.trimNamed]
  congr 1
  funext t
  rw [trimNamed, if_neg hne]

mutual

/-- Where there are no surplus items, nothing is lost without them. -/
theorem Kind.meaning_trim (k : Kind) (hk : k.Distinct) {t : Tree} (h : k.Fits t) :
    k.meaning (k.trim t) = k.meaning t := by
  match k with
  | .text | .flag | .byte | .scalar => simp [Kind.trim]
  | .optional k =>
    rw [Kind.Fits] at h
    rw [Kind.trim]
    by_cases ht : t = .null
    · rw [ht, k.trim_null]
    · rw [k.meaning_optional ht, k.meaning_optional (k.trim_ne_null ht), k.meaning_trim hk h]
  | .list k =>
    cases t with
    | list ts =>
      simp only [Kind.Fits] at h
      simp only [Kind.trim, Kind.meaning, List.mapM_map]
      exact mapM_congr fun t ht => k.meaning_trim hk (h t ht)
    | _ => simp [Kind.trim]
  | .record name fs =>
    cases t with
    | list ts =>
      simp only [Kind.Fits] at h
      simp only [Kind.trim, Kind.meaning, fs.placed_trimPlaces hk h]
    | table es =>
      simp only [Kind.Fits] at h
      simp only [Kind.trim, Kind.meaning, fs.named_trimNamed hk h]
    | _ => simp [Kind.trim]

theorem Fields.placed_trimPlaces (fs : Fields) (hfs : fs.Distinct) {ts : List Tree}
    (h : fs.FitPlaces ts) : fs.placed (fs.trimPlaces ts) = fs.placed ts := by
  match fs, ts with
  | .nil, ts =>
    rw [show ts = [] from h]
    rfl
  | .cons _ k rest, [] => rfl
  | .cons _ k rest, t :: ts =>
    obtain ⟨-, hk, hrest⟩ := hfs
    rw [Fields.trimPlaces, Fields.placed, Fields.placed, k.meaning_trim hk h.1,
      rest.placed_trimPlaces hrest h.2]

theorem Fields.named_trimNamed (fs : Fields) (hfs : fs.Distinct) {es : List (String × Tree)}
    {stated : fs.Values} (h : fs.FitNamed es) :
    fs.named (es.map fun e => (e.1, fs.trimNamed e.1 e.2)) stated = fs.named es stated := by
  match fs with
  | .nil => rfl
  | .cons name k rest =>
    obtain ⟨hname, hk, hrest⟩ := hfs
    have hfirst : restated (fun t => k.meaning t) stated.1
        ((es.map fun e => (e.1, (Fields.cons name k rest).trimNamed e.1 e.2)).lookup name)
        = restated (fun t => k.meaning t) stated.1 (es.lookup name) := by
      rw [lookup_map (Fields.cons name k rest).trimNamed]
      cases hfound : es.lookup name with
      | none => rfl
      | some t => simp [restated, Fields.trimNamed, k.meaning_trim hk (h.1 t hfound)]
    rw [Fields.named, Fields.named, hfirst, Fields.named_trimNamed_rest hname,
      rest.named_trimNamed hrest h.2]

end

mutual

/-- What means something has no surplus items. -/
theorem Kind.fits_of_meaning (k : Kind) {t : Tree} (h : (k.meaning t).isSome) : k.Fits t := by
  match k with
  | .text | .flag | .byte | .scalar => simp [Kind.Fits]
  | .optional k =>
    rw [Kind.Fits]
    by_cases ht : t = .null
    · rw [ht]
      exact k.fits_null
    · rw [k.meaning_optional ht, Option.isSome_map] at h
      exact k.fits_of_meaning h
  | .list k =>
    cases t with
    | list ts =>
      simp only [Kind.meaning] at h
      simp only [Kind.Fits]
      exact fun t ht => k.fits_of_meaning (isSome_of_isSome_mapM h t ht)
    | _ => simp [Kind.Fits]
  | .record name fs =>
    cases t with
    | list ts =>
      simp only [Kind.meaning] at h
      simp only [Kind.Fits]
      exact fs.fitPlaces_of_placed h
    | table es =>
      simp only [Kind.meaning] at h
      simp only [Kind.Fits]
      exact fs.fitNamed_of_named h
    | _ => simp [Kind.Fits]

theorem Fields.fitPlaces_of_placed (fs : Fields) {ts : List Tree} (h : (fs.placed ts).isSome) :
    fs.FitPlaces ts := by
  match fs, ts with
  | .nil, [] => rfl
  | .nil, t :: ts => simp [Fields.placed] at h
  | .cons _ k rest, [] => trivial
  | .cons _ k rest, t :: ts =>
    rw [Fields.placed, Option.bind_eq_bind, Option.isSome_bind, Option.any_eq_true] at h
    obtain ⟨a, ha, h⟩ := h
    rw [Option.bind_eq_bind, Option.isSome_bind, Option.any_eq_true] at h
    obtain ⟨as, has, -⟩ := h
    exact ⟨k.fits_of_meaning (by simp [ha]), rest.fitPlaces_of_placed (by simp [has])⟩

theorem Fields.fitNamed_of_named (fs : Fields) {es : List (String × Tree)} {stated : fs.Values}
    (h : (fs.named es stated).isSome) : fs.FitNamed es := by
  match fs with
  | .nil => trivial
  | .cons name k rest =>
    rw [Fields.named, Option.bind_eq_bind, Option.isSome_bind, Option.any_eq_true] at h
    obtain ⟨a, ha, h⟩ := h
    rw [Option.bind_eq_bind, Option.isSome_bind, Option.any_eq_true] at h
    obtain ⟨as, has, -⟩ := h
    refine ⟨fun t ht => k.fits_of_meaning ?_,
      rest.fitNamed_of_named (Option.isSome_iff_exists.mpr ⟨as, has⟩)⟩
    rw [ht] at ha
    cases hmeaning : k.meaning t with
    | none => simp [restated, hmeaning] at ha
    | some => rfl

end

end ModelScribe
