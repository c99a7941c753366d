-- What the TOML reader reads. It looks at the value of a document as a kind. A
-- value that stands for a tree means what the tree means without its surplus
-- items, and is refused if that is nothing. As with JSON, the fault that is
-- reported is of no concern.
import ModelScribe.Toml.Reader
import ModelScribe.Proofs.Surplus
import ModelScribe.Proofs.TomlValues

namespace ModelScribe.Toml

/-! ## Kinds -/

section

variable {α : Type} {v : Value} {t : Tree} {e : Extent}

theorem toOption_placedAt (e : Extent) (r : Seen α) : (placedAt e r).toOption = r.toOption :=
  toOption_mapError ..

theorem outOfRangeItem_eq_none {bits : Nat} {vs : List Located}
    (h : ∀ v ∈ vs, outOfRange bits v.1 v.2 = none) : outOfRangeItem bits vs = none := by
  induction vs with
  | nil => rfl
  | cons v vs ih =>
    rw [outOfRangeItem, h v List.mem_cons_self, Option.none_or]
    exact ih fun w hw => h w (List.mem_cons_of_mem _ hw)

theorem outOfRangeEntry_eq_none {bits : Nat} {es : Entries}
    (h : ∀ e ∈ es, outOfRange bits e.2.1 e.2.2 = none) : outOfRangeEntry bits es = none := by
  induction es with
  | nil => rfl
  | cons e es ih =>
    rw [outOfRangeEntry, h e List.mem_cons_self, Option.none_or]
    exact ih fun w hw => h w (List.mem_cons_of_mem _ hw)

/-- Integers of 64 bits are in range wherever they are passed over. -/
theorem outOfRange_shows {bits : Nat} (hbits : bits = 64 ∨ bits = 128) (h : Shows v t)
    (e : Extent) : outOfRange bits e v = none := by
  induction h generalizing e with
  | text | flag => rfl
  | integer n lower upper =>
    have hfits : fits bits n = true := by
      rw [fits, Bool.and_eq_true, decide_eq_true_eq, decide_eq_true_eq]
      rcases hbits with rfl | rfl
      · exact ⟨lower, by simp only [Nat.pow_eq]; omega⟩
      · exact ⟨by simp only [Nat.pow_eq]; omega, by simp only [Nat.pow_eq]; omega⟩
    rw [outOfRange, if_pos hfits]
  | list parts _ ih =>
    rw [outOfRange]
    refine outOfRangeItem_eq_none fun p hp => ?_
    obtain ⟨q, hq, rfl⟩ := List.mem_map.mp hp
    exact ih q hq q.1.1
  | table origin parts _ _ _ ih =>
    rw [outOfRange]
    refine outOfRangeEntry_eq_none fun p hp => ?_
    obtain ⟨q, hq, rfl⟩ := List.mem_map.mp hp
    exact ih q hq q.located.1

theorem ignore_shows {bits : Nat} (hbits : bits = 64 ∨ bits = 128) (h : Shows v t) (e : Extent) :
    ignore bits e v = .ok () := by
  rw [ignore, outOfRange_shows hbits h]

theorem toOption_scalar (h : Shows v t) (e : Extent) : (scalar e v).toOption = t.scalar := by
  unfold scalar
  rw [ignore_shows (Or.inl rfl) h]
  cases h <;> rfl

theorem Shows.ne_null (h : Shows v t) : t ≠ .null := by
  cases h <;> nofun

theorem toOption_eachItem_eq (item : Extent → Value → Seen α) (vs : List Located) :
    (eachItem item vs).toOption = vs.mapM fun v => (item v.1 v.2).toOption := by
  induction vs with
  | nil => rfl
  | cons v vs ih =>
    rw [List.mapM_cons, ← ih, eachItem]
    cases item v.1 v.2 with
    | error => rfl
    | ok a => cases eachItem item vs <;> rfl

theorem toOption_eachItem {item : Extent → Value → Seen α} {read : Tree → Option α}
    {parts : List (Located × Tree)}
    (h : ∀ p ∈ parts, (item p.1.1 p.1.2).toOption = read p.2) :
    (eachItem item (parts.map (·.1))).toOption = (parts.map (·.2)).mapM read := by
  rw [toOption_eachItem_eq, List.mapM_map, List.mapM_map]
  exact mapM_congr h

/-- Entries are looked at one by one, in whatever order they stand. -/
theorem toOption_foldlM {fs : Fields} (hfs : fs.Distinct)
    {step : fs.Values → String × Located → Seen fs.Values} (trim : String → Tree → Tree)
    {parts : List Part} (hkeys : (parts.map (·.key)).Nodup)
    (hstep : ∀ p ∈ parts, ∀ state,
      (step state p.entry).toOption = fs.named [(p.key, trim p.key p.tree)] state)
    (state : fs.Values) :
    ((parts.map Part.entry).foldlM step state).toOption
      = fs.named (parts.map fun p => (p.key, trim p.key p.tree)) state := by
  induction parts generalizing state with
  | nil => exact (fs.named_nil state).symm
  | cons p parts ih =>
    rw [List.map_cons, List.nodup_cons] at hkeys
    have hfresh : p.key ∉ (parts.map fun p => (p.key, trim p.key p.tree)).map (·.1) := by
      simpa [Function.comp_def] using hkeys.1
    rw [List.map_cons, List.map_cons, List.foldlM_cons, fs.named_cons _ _ hfs hfresh,
      ← hstep p List.mem_cons_self]
    change ((step state p.entry).bind _).toOption = _
    rw [toOption_bind]
    congr 1
    funext state'
    exact ih hkeys.2 (fun q hq => hstep q (List.mem_cons_of_mem _ hq)) state'

/-- An entry without a field is passed over, and means nothing. -/
theorem toOption_entry {fs : Fields} {key : String} {state : fs.Values} (h : Shows v t)
    {found : Option (Seen fs.Values)}
    (hfound : match found with
      | some result => result.toOption = fs.named [(key, fs.trimNamed key t)] state
      | none => key ∉ fs.keys) :
    (placedAt e <| match found with
      | some result => result
      | none => (ignore 128 e v).map fun _ => state).toOption
      = fs.named [(key, fs.trimNamed key t)] state := by
  rw [toOption_placedAt]
  cases found with
  | some result => exact hfound
  | none =>
    rw [fs.named_of_not_mem _ _ _ hfound, fs.named_nil, ignore_shows (Or.inr rfl) h]
    rfl

end

mutual

/-- A value is read as what the tree that it stands for means without its surplus items. -/
theorem readKind_shows (k : Kind) (hk : k.Distinct) {v : Value} {t : Tree} (h : Shows v t)
    (e : Extent) : (readKind k e v).toOption = k.meaning (k.trim t) := by
  match k with
  | .text | .flag => cases h <;> rfl
  | .byte =>
    cases h with
    | integer n =>
      simp only [readKind, Kind.trim, Kind.meaning]
      split <;> rfl
    | _ => rfl
  | .scalar => exact toOption_scalar h e
  | .optional k =>
    rw [readKind, toOption_placedAt, toOption_map, readKind_shows k hk h, Kind.trim,
      k.meaning_optional (k.trim_ne_null h.ne_null)]
  | .list k =>
    cases h with
    | list parts h =>
      have hitems : (eachItem (fun e v => readKind k e v) (parts.map (·.1))).toOption
          = (parts.map (·.2)).mapM fun t => k.meaning (k.trim t) :=
        toOption_eachItem fun p hp => readKind_shows k hk (h p hp) p.1.1
      simp only [readKind, toOption_placedAt, Kind.trim, Kind.meaning]
      rw [hitems, List.mapM_map, List.mapM_map, List.mapM_map]
      rfl
    | _ => rfl
  | .record name fs =>
    cases h with
    | list parts h =>
      simp only [readKind, toOption_placedAt, Kind.trim, Kind.meaning]
      exact readPlaces_shows fs hk parts h
    | @table origin es parts h hes hkeys =>
      have hnodup : (parts.map (·.key)).Nodup := by
        simpa [Function.comp_def, Part.stated] using (hes.map (·.1)).nodup_iff.mp hkeys
      have hperm : (parts.map fun p => (p.key, fs.trimNamed p.key p.tree)).Perm
          (es.map fun e => (e.1, fs.trimNamed e.1 e.2)) := by
        simpa [Function.comp_def, Part.stated]
          using (hes.map fun e => (e.1, fs.trimNamed e.1 e.2)).symm
      simp only [readKind, toOption_placedAt, Kind.trim, Kind.meaning]
      refine (toOption_foldlM hk fs.trimNamed hnodup (fun p hp state => ?_) fs.unstated).trans
        (fs.named_perm fs.unstated hperm (by simpa [Function.comp_def] using hnodup))
      exact toOption_entry (h p hp) (readField_shows fs hk (h p hp) p.key state p.located.1)
    | _ => rfl

theorem readPlaces_shows (fs : Fields) (hfs : fs.Distinct) (parts : List (Located × Tree))
    (h : ∀ p ∈ parts, Shows p.1.2 p.2) :
    (readPlaces fs (parts.map (·.1))).toOption
      = fs.placed (fs.trimPlaces (parts.map (·.2))) := by
  match fs, parts with
  | .nil, _ => rfl
  | .cons _ k rest, [] => rfl
  | .cons _ k rest, p :: parts =>
    obtain ⟨-, hk, hrest⟩ := hfs
    have hfirst := readKind_shows k hk (h p List.mem_cons_self) p.1.1
    have hplaces := readPlaces_shows rest hrest parts fun q hq => h q (List.mem_cons_of_mem _ hq)
    rw [List.map_cons, List.map_cons, Fields.trimPlaces, Fields.placed, ← hfirst, ← hplaces,
      readPlaces]
    cases readKind k p.1.1 p.1.2 with
    | error => rfl
    | ok a => cases readPlaces rest (parts.map (·.1)) <;> rfl

theorem readField_shows (fs : Fields) (hfs : fs.Distinct) {v : Value} {t : Tree} (h : Shows v t)
    (key : String) (state : fs.Values) (e : Extent) :
    match readField fs key state e v with
    | some result => result.toOption = fs.named [(key, fs.trimNamed key t)] state
    | none => key ∉ fs.keys := by
  match fs with
  | .nil => exact List.not_mem_nil
  | .cons name k rest =>
    obtain ⟨hname, hk, hrest⟩ := hfs
    rw [readField]
    by_cases hkey : key = name
    · subst hkey
      simp only [if_pos, toOption_map, readKind_shows k hk h, Fields.trimNamed, Fields.named,
        restated, rest.named_of_not_mem _ _ _ hname, Fields.named_nil, List.lookup_cons_self]
      cases k.meaning (k.trim t) <;> rfl
    · have hfield := readField_shows rest hrest h key state.2 e
      rw [if_neg hkey]
      cases hread : readField rest key state.2 e v with
      | none =>
        rw [hread] at hfield
        simpa [Fields.keys, hkey] using hfield
      | some result =>
        rw [hread] at hfield
        change (result.map _).toOption = _
        change result.toOption = rest.named [(key, rest.trimNamed key t)] state.2 at hfield
        rw [toOption_map, hfield, Fields.trimNamed, if_neg hkey, Fields.named,
          lookup_cons_of_ne (Ne.symm hkey), List.lookup_nil]
        cases rest.named [(key, rest.trimNamed key t)] state.2 <;> rfl

end

/-! ## Documents -/

/-- A document is read as what its tree means without its surplus items, and refused if that
is nothing. -/
theorem read_of_states {k : Kind} (hk : k.Distinct) {t : Tree} {document : String}
    (h : States t document) (hwithin : t.Within (maxLevels + 1)) :
    (read k document).toOption = k.meaning (k.trim t) := by
  obtain ⟨es, hparse, hshows⟩ := parse_of_states h hwithin
  rw [read, toOption_mapError, hparse]
  exact readKind_shows k hk hshows _

end ModelScribe.Toml
