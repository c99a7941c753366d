-- What a TOML document states, as values. The text is read as a whole before
-- anything in it is looked at. A text that spells a tree yields a value that
-- stands for the tree; the entries of a table come in the order of their keys,
-- in whatever order they are written.
import ModelScribe.Proofs.TomlText

namespace ModelScribe.Toml

/-! ## Values that stand for trees -/

/-- An entry of a table as it was read, with the tree that its value stands for. -/
structure Part where
  key : String
  located : Located
  tree : Tree

namespace Part

def entry (p : Part) : String × Located := (p.key, p.located)

def stated (p : Part) : String × Tree := (p.key, p.tree)

end Part

/-- What a value stands for. The entries of a table stand in an order of their own. -/
inductive Shows : Value → Tree → Prop
  | text (s : String) : Shows (.text s) (.text s)
  | flag (b : Bool) : Shows (.flag b) (.flag b)
  | integer (n : Int) (lower : -2 ^ 63 ≤ n) (upper : n < 2 ^ 63) : Shows (.integer n) (.integer n)
  | list (parts : List (Located × Tree)) (h : ∀ p ∈ parts, Shows p.1.2 p.2) :
    Shows (.list false (parts.map (·.1))) (.list (parts.map (·.2)))
  | table (origin : Origin) {es : List (String × Tree)} (parts : List Part)
    (h : ∀ p ∈ parts, Shows p.located.2 p.tree) (hes : es.Perm (parts.map Part.stated))
    (hkeys : (es.map (·.1)).Nodup) : Shows (.table origin (parts.map Part.entry)) (.table es)

/-- The entries that have been read so far stand for these. -/
def Gathers (read : Entries) (es : List (String × Tree)) : Prop :=
  ∃ parts : List Part, read = parts.map Part.entry ∧
    (∀ p ∈ parts, Shows p.located.2 p.tree) ∧ es.Perm (parts.map Part.stated)

namespace Gathers

variable {read : Entries} {es : List (String × Tree)}

theorem nil : Gathers [] [] := ⟨[], rfl, List.forall_mem_nil _, .refl _⟩

theorem keys_perm (h : Gathers read es) : (read.map (·.1)).Perm (es.map (·.1)) := by
  obtain ⟨parts, rfl, -, hes⟩ := h
  simpa [Function.comp_def, Part.entry, Part.stated] using (hes.map (·.1)).symm

theorem shows_table (h : Gathers read es) (origin : Origin) (hkeys : (es.map (·.1)).Nodup) :
    Shows (.table origin read) (.table es) := by
  obtain ⟨parts, rfl, hparts, hes⟩ := h
  exact .table origin parts hparts hes hkeys

/-- An entry with a new key finds its place between the others. -/
theorem exists_put (p : Part) {parts : List Part} (hkey : p.key ∉ parts.map (·.key)) :
    ∃ parts' : List Part, Entries.put p.key p.located (parts.map Part.entry)
      = parts'.map Part.entry ∧ parts'.Perm (p :: parts) := by
  induction parts with
  | nil => exact ⟨[p], rfl, .refl _⟩
  | cons q parts ih =>
    rw [List.map_cons, List.mem_cons, not_or] at hkey
    obtain ⟨parts', hput, hperm⟩ := ih hkey.2
    by_cases hlt : p.key < q.key
    · exact ⟨p :: q :: parts, if_pos hlt, .refl _⟩
    · refine ⟨q :: parts', ?_, (hperm.cons q).trans (.swap p q parts)⟩
      rw [List.map_cons, List.map_cons, ← hput]
      exact (if_neg hlt).trans (if_neg hkey.1)

theorem put (h : Gathers read es) {key : String} {located : Located} {t : Tree}
    (hkey : key ∉ es.map (·.1)) (ht : Shows located.2 t) :
    Gathers (Entries.put key located read) (es ++ [(key, t)]) := by
  have hread : key ∉ read.map (·.1) := fun hmem => hkey (h.keys_perm.mem_iff.mp hmem)
  obtain ⟨parts, rfl, hparts, hes⟩ := h
  obtain ⟨parts', hput, hperm⟩ := exists_put { key, located, tree := t }
    (by simpa [Function.comp_def, Part.entry] using hread)
  refine ⟨parts', hput, fun p hp => ?_, ?_⟩
  · rcases List.mem_cons.mp (hperm.mem_iff.mp hp) with rfl | hp
    · exact ht
    · exact hparts p hp
  · exact (List.perm_append_singleton ..).trans
      ((hes.cons (key, t)).trans (hperm.map Part.stated).symm)

end Gathers

/-! ## Chunks -/

section

variable {chunk body : List Char} {chunks : List (List Char)} {c : Char}

theorem skipLines_done {first : Bool} (h : Separated isGap first [] body) (hc : isSolid c)
    (rest : List Char) : skipLines false (body ++ c :: rest) = some (c :: rest) := by
  cases h with
  | done hgap => rw [skipLines_append hgap, skipLines_solid hc]

theorem skipLines_first (h : Separated isGap true (chunk :: chunks) body)
    (hchunk : ∃ c cs, chunk = c :: cs ∧ isSolid c) :
    ∃ tail, Separated isGap false chunks tail ∧
      ∀ rest, skipLines false (body ++ rest) = some (chunk ++ (tail ++ rest)) := by
  obtain ⟨c, cs, rfl, hc⟩ := hchunk
  cases h with
  | @first gap _ tail _ hgap htail =>
    refine ⟨tail, htail, fun rest => ?_⟩
    rw [List.append_assoc, skipLines_append hgap, List.append_assoc, List.cons_append,
      skipLines_solid hc]

/-- What stands behind a comma begins like the whole. -/
theorem skipLines_next (h : Separated isGap false (chunk :: chunks) body) :
    ∃ tail, Separated isGap true (chunk :: chunks) tail ∧
      ∀ rest, skipLines false (body ++ rest) = some (',' :: (tail ++ rest)) := by
  cases h with
  | @next gap gap' _ tail _ hgap hgap' htail =>
    refine ⟨_, .first hgap' htail, fun rest => ?_⟩
    rw [List.append_assoc, skipLines_append hgap, List.cons_append, skipLines_solid (by decide)]

theorem spelled_cons {t : Tree} {cs : List Char} (h : grammar.Spells t cs) :
    ∃ c tail, cs = c :: tail ∧ isSolid c := by
  obtain ⟨c, tail, hcs, hc⟩ := h.exists_cons
  exact ⟨c, tail, hcs, isSolid_of_beginsWith hc⟩

end

/-! ## Lists -/

section

variable {item : ValueReader} {fuel : Nat} {cs rest : List Char}

theorem items_close (h : skipLines false cs = some (']' :: rest)) :
    items item (fuel + 1) cs = .ok ([], rest) := by
  simp only [items, h]

theorem items_item {start : List Char} {v : Located} (h : skipLines false cs = some start)
    (hstart : start.head? ≠ some ']') (hitem : item start = .ok (v, rest)) :
    items item (fuel + 1) cs = match skipLines false rest with
      | some (',' :: rest) => (items item fuel rest).map fun p => (v :: p.1, p.2)
      | some (']' :: rest) => .ok ([v], rest)
      | _ => .error none := by
  rw [items, h]
  split
  · rename_i heq
    cases heq
  · rename_i heq
    rw [Option.some.inj heq] at hstart
    exact absurd rfl hstart
  · rename_i heq
    rw [← Option.some.inj heq, hitem]
    rfl

/-- Items are read one by one, up to the bracket that closes the list. -/
theorem items_spelled {parts : List (Tree × List Char)}
    (hparts : ∀ p ∈ parts, grammar.Spells p.1 p.2)
    (hitem : ∀ p ∈ parts, ∀ rest, Delimited rest →
      ∃ v, item (p.2 ++ rest) = .ok (v, rest) ∧ Shows v.2 p.1)
    {body : List Char} (hbody : Separated isGap true (parts.map (·.2)) body)
    (hfuel : parts.length < fuel) (rest : List Char) :
    ∃ shown : List (Located × Tree), items item fuel (body ++ ']' :: rest)
      = .ok (shown.map (·.1), rest) ∧ shown.map (·.2) = parts.map (·.1) ∧
        ∀ p ∈ shown, Shows p.1.2 p.2 := by
  induction parts generalizing body fuel with
  | nil =>
    obtain ⟨fuel, rfl⟩ : ∃ f, fuel = f + 1 := ⟨fuel - 1, by omega⟩
    exact ⟨[], items_close (skipLines_done hbody (by decide) rest), rfl, List.forall_mem_nil _⟩
  | cons p parts ih =>
    obtain ⟨fuel, rfl⟩ : ∃ f, fuel = f + 1 := ⟨fuel - 1, by omega⟩
    obtain ⟨c, cs, hcs, hc⟩ := (hparts p List.mem_cons_self).exists_cons
    obtain ⟨tail, htail, hfirst⟩ := skipLines_first hbody ⟨c, cs, hcs, isSolid_of_beginsWith hc⟩
    have hdelimited : Delimited (tail ++ ']' :: rest) :=
      htail.delimited (fun _ => mem_delimiters_of_isGap) (by simp [delimiters])
    obtain ⟨v, hv, hshows⟩ := hitem p List.mem_cons_self _ hdelimited
    have hclose : c ≠ ']' := fun h => hc.not_mem_delimiters (h ▸ by decide)
    have hstart : (p.2 ++ (tail ++ ']' :: rest)).head? ≠ some ']' := by simpa [hcs] using hclose
    have hread : items item (fuel + 1) (body ++ ']' :: rest) = _ :=
      items_item (hfirst (']' :: rest)) hstart hv
    cases parts with
    | nil =>
      rw [skipLines_done htail (by decide)] at hread
      exact ⟨[(v, p.1)], hread, rfl, by simpa using hshows⟩
    | cons q parts =>
      obtain ⟨tail', htail', hnext⟩ := skipLines_next htail
      obtain ⟨shown, hshown, htrees, hall⟩ := ih (fun q hq => hparts q (List.mem_cons_of_mem _ hq))
        (fun q hq => hitem q (List.mem_cons_of_mem _ hq)) htail' (by simpa using hfuel)
      rw [hnext] at hread
      refine ⟨(v, p.1) :: shown, ?_, by simp [htrees], List.forall_mem_cons.mpr ⟨hshows, hall⟩⟩
      rw [hread]
      simp only [hshown]
      rfl

end

/-! ## Tables -/

section

variable {item : ValueReader} {gap : List Char → Option (List Char)} {read : Entries} {fuel : Nat}
  {cs rest : List Char} {m : Member}

theorem insert_new {name : String} (h : name ∉ read.map (·.1)) (extent : Extent) (v : Located) :
    Entries.insert [] { name, extent } v.1 v.2 read = .ok (Entries.put name v read) := by
  have hget : Entries.get? read name = none := lookup_eq_none_of_not_mem h
  simp [Entries.insert, Entries.descend, hget]

/-- A member is read up to the end of its value, and is a new entry. -/
theorem keyed_spelled (hgap : IsGapReader gap) (hm : grammar.Names m)
    (hvalue : ∃ c tail, m.valueText = c :: tail ∧ isSolid c) {v : Located}
    (hitem : item (m.valueText ++ rest) = .ok (v, rest)) (hkey : m.key ∉ read.map (·.1)) :
    keyed item gap read (m.text '=' ++ rest) = .ok (Entries.put m.key v read, rest) := by
  obtain ⟨extent, hread⟩ := key_spelled hm (m.afterSign ++ (m.valueText ++ rest))
  obtain ⟨c, tail, hc, hsolid⟩ := hvalue
  have hsign := hgap [] '=' (m.afterSign ++ (m.valueText ++ rest)) (List.forall_mem_nil _)
    (by decide)
  have hstart : gap (m.afterSign ++ (m.valueText ++ rest)) = some (m.valueText ++ rest) := by
    rw [hc, List.cons_append, hgap _ _ _ hm.after hsolid]
  have htext : m.text '=' ++ rest
      = m.keyText ++ (m.beforeSign ++ '=' :: (m.afterSign ++ (m.valueText ++ rest))) := by
    simp [Member.text]
  rw [htext, keyed, hread]
  rw [List.nil_append] at hsign
  simp only [bind, Except.bind, hsign, Option.bind, after, if_pos, orFault, hstart, hitem,
    insert_new hkey]
  rfl

/-- A member adds what its entry stands for to what has been gathered. -/
theorem keyed_gathers (hgap : IsGapReader gap) (hm : grammar.Names m)
    (hspelled : grammar.Spells m.value m.valueText)
    (hitem : ∃ v, item (m.valueText ++ rest) = .ok (v, rest) ∧ Shows v.2 m.value)
    {es : List (String × Tree)} (hread : Gathers read es) (hkey : m.key ∉ es.map (·.1)) :
    ∃ read', keyed item gap read (m.text '=' ++ rest) = .ok (read', rest) ∧
      Gathers read' (es ++ [m.entry]) := by
  obtain ⟨v, hv, hshows⟩ := hitem
  have hfresh : m.key ∉ read.map (·.1) := fun h => hkey (hread.keys_perm.mem_iff.mp h)
  exact ⟨_, keyed_spelled hgap hm (spelled_cons hspelled) hv hfresh, hread.put hkey hshows⟩

theorem key_not_mem_of_nodup {es es' : List (String × Tree)}
    (h : (((es ++ [m.entry]) ++ es').map (·.1)).Nodup) : m.key ∉ es.map (·.1) := by
  rw [List.map_append, List.map_append, List.nodup_append] at h
  have hboth := (List.nodup_append.mp h.1).2.2
  exact fun hmem => hboth _ hmem m.key (by simp [Member.entry]) rfl

theorem inlineEntries_close (h : skipLines false cs = some ('\x7d' :: rest)) :
    inlineEntries item (fuel + 1) read cs = .ok (read, rest) := by
  simp only [inlineEntries, h]

theorem inlineEntries_entry {start : List Char} {read' : Entries}
    (h : skipLines false cs = some start) (hstart : start.head? ≠ some '\x7d')
    (hkeyed : keyed item (skipLines false) read start = .ok (read', rest)) :
    inlineEntries item (fuel + 1) read cs = match skipLines false rest with
      | some (',' :: rest) => inlineEntries item fuel read' rest
      | some ('\x7d' :: rest) => .ok (read', rest)
      | _ => .error none := by
  rw [inlineEntries, h]
  split
  · rename_i heq
    cases heq
  · rename_i heq
    rw [Option.some.inj heq] at hstart
    exact absurd rfl hstart
  · rename_i heq
    rw [← Option.some.inj heq, hkeyed]
    rfl

theorem member_cons (hm : grammar.Names m) :
    ∃ c tail, m.text '=' = c :: tail ∧ isSolid c ∧ c ≠ '[' ∧ c ≠ '\x7d' ∧ c ≠ '\ufeff' := by
  obtain ⟨c, tail, hkey, hc⟩ := keyText_cons hm.key
  exact ⟨c, _, by rw [Member.text, hkey, List.cons_append], hc⟩

/-- Members are read one by one, up to the brace that closes the table. -/
theorem inlineEntries_spelled {ms : List Member} (hnames : ∀ m ∈ ms, grammar.Names m)
    (hvalues : ∀ m ∈ ms, grammar.Spells m.value m.valueText)
    (hitem : ∀ m ∈ ms, ∀ rest, Delimited rest →
      ∃ v, item (m.valueText ++ rest) = .ok (v, rest) ∧ Shows v.2 m.value)
    {body : List Char} (hbody : Separated isGap true (ms.map (·.text '=')) body)
    (hfuel : ms.length < fuel) {es : List (String × Tree)} (hread : Gathers read es)
    (hkeys : ((es ++ ms.map (·.entry)).map (·.1)).Nodup) (rest : List Char) :
    ∃ read', inlineEntries item fuel read (body ++ '\x7d' :: rest) = .ok (read', rest) ∧
      Gathers read' (es ++ ms.map (·.entry)) := by
  induction ms generalizing read es body fuel with
  | nil =>
    obtain ⟨fuel, rfl⟩ : ∃ f, fuel = f + 1 := ⟨fuel - 1, by omega⟩
    exact ⟨read, inlineEntries_close (skipLines_done hbody (by decide) rest), by simpa using hread⟩
  | cons m ms ih =>
    obtain ⟨fuel, rfl⟩ : ∃ f, fuel = f + 1 := ⟨fuel - 1, by omega⟩
    obtain ⟨c, cs, hcs, hc, -, hclose, -⟩ := member_cons (hnames m List.mem_cons_self)
    obtain ⟨tail, htail, hfirst⟩ := skipLines_first hbody ⟨c, cs, hcs, hc⟩
    have hdelimited : Delimited (tail ++ '\x7d' :: rest) :=
      htail.delimited (fun _ => mem_delimiters_of_isGap) (by simp [delimiters])
    have happend : es ++ (m :: ms).map (·.entry) = (es ++ [m.entry]) ++ ms.map (·.entry) := by simp
    rw [happend] at hkeys ⊢
    have hkey := key_not_mem_of_nodup hkeys
    obtain ⟨read', hkeyed, hgathers⟩ := keyed_gathers isGapReader_skipLines
      (hnames m List.mem_cons_self) (hvalues m List.mem_cons_self)
      (hitem m List.mem_cons_self _ hdelimited) hread hkey
    have hstart : (m.text '=' ++ (tail ++ '\x7d' :: rest)).head? ≠ some '\x7d' := by
      simpa [hcs] using hclose
    have hstep : inlineEntries item (fuel + 1) read (body ++ '\x7d' :: rest) = _ :=
      inlineEntries_entry (hfirst ('\x7d' :: rest)) hstart hkeyed
    cases ms with
    | nil =>
      rw [skipLines_done htail (by decide)] at hstep
      exact ⟨read', hstep, by simpa using hgathers⟩
    | cons m' ms =>
      obtain ⟨tail', htail', hnext⟩ := skipLines_next htail
      rw [hnext] at hstep
      obtain ⟨read'', hread'', hall⟩ := ih (fun q hq => hnames q (List.mem_cons_of_mem _ hq))
        (fun q hq => hvalues q (List.mem_cons_of_mem _ hq))
        (fun q hq => hitem q (List.mem_cons_of_mem _ hq)) htail' (by simpa using hfuel) hgathers
        hkeys
      exact ⟨read'', hstep.trans hread'', hall⟩

end

/-! ## Values -/

section

variable {fuel levels : Nat} {cs rest : List Char}

theorem value_quotes {s : String} (h : grammar.Quotes s cs) (hrest : Delimited rest) :
    value fuel levels (cs ++ rest) = .ok (locate (cs ++ rest) rest (.text s), rest) := by
  obtain ⟨body, rfl, hbody, hopen⟩ := quotes_body h
  rw [List.cons_append]
  unfold value
  split
  case h_1 heq => exact absurd (List.cons.inj heq).2 (hopen rest hrest _)
  case h_2 heq =>
    rw [← (List.cons.inj heq).2, hbody]
    rfl
  case h_7 hquote _ _ _ _ => exact (hquote _ rfl).elim
  all_goals
    rename_i heq
    exact absurd (List.cons.inj heq).1 (by decide)

/-- A word that is no date begins with no quote and no bracket. -/
theorem value_word {v : Value} (hne : cs ≠ []) (hcs : ∀ c ∈ cs, isAtomChar c)
    (hdate : date cs = none) (h : atom cs = some v) (hrest : Delimited rest) :
    value fuel levels (cs ++ rest) = .ok (locate (cs ++ rest) rest v, rest) := by
  obtain ⟨c, tail, rfl⟩ := List.exists_cons_of_ne_nil hne
  have hc : isAtomChar c := hcs c List.mem_cons_self
  have hatom := atomValue_append hcs hdate h hrest
  rw [List.cons_append] at hatom ⊢
  unfold value
  split
  case h_7 =>
    rw [hatom]
    rfl
  all_goals
    rename_i heq
    obtain rfl := (List.cons.inj heq).1
    exact absurd hc (by decide)

theorem value_integer (z : Int) (hrest : Delimited rest) :
    value fuel levels ((Int.repr z).toList ++ rest)
      = .ok (locate ((Int.repr z).toList ++ rest) rest (.integer z), rest) :=
  value_word (by rw [digits_repr]; simp [Nat.toDigits_ne_nil]) (fun _ => isAtomChar_of_mem_repr)
    (date_eq_none (dash_not_mem_drop_repr z)) (atom_repr z) hrest

theorem value_list :
    value fuel (levels + 1) ('[' :: cs) = (items (value fuel levels) fuel cs).map fun p =>
      (locate ('[' :: cs) p.2 (.list false p.1), p.2) := by
  rw [value]

theorem value_table :
    value fuel (levels + 1) ('\x7b' :: cs)
      = (inlineEntries (value fuel levels) fuel [] cs).map fun p =>
        (locate ('\x7b' :: cs) p.2 (.table .inline p.1), p.2) := by
  rw [value]

/-- A text that spells a tree is read as a value that stands for the tree. -/
theorem value_spelled {t : Tree} (h : grammar.Spells t cs) (hlevels : t.Within levels)
    (hfuel : cs.length < fuel) (hrest : Delimited rest) :
    ∃ v, value fuel levels (cs ++ rest) = .ok (v, rest) ∧ Shows v.2 t := by
  induction h generalizing levels rest with
  | null h => cases h
  | text h => exact ⟨_, value_quotes h hrest, .text _⟩
  | yes => exact ⟨_, value_word (by simp) (List.all_eq_true.mp rfl) rfl rfl hrest, .flag true⟩
  | no => exact ⟨_, value_word (by simp) (List.all_eq_true.mp rfl) rfl rfl hrest, .flag false⟩
  | integer z lower upper => exact ⟨_, value_integer z hrest, .integer z lower upper⟩
  | @list body parts hparts hbody ih =>
    obtain ⟨levels, rfl⟩ : ∃ l, levels = l + 1 := by
      cases levels with
      | zero => exact hlevels.elim
      | succ levels => exact ⟨levels, rfl⟩
    simp only [List.length_cons, List.length_append] at hfuel
    obtain ⟨hcount, hlength⟩ :=
      bounds_of_total_le hbody.total_le fun p hp => (hparts p hp).length_pos
    obtain ⟨shown, hshown, htrees, hall⟩ := items_spelled hparts
      (fun p hp rest hrest => ih p hp (hlevels p.1 (List.mem_map_of_mem hp))
        (by have := hlength p hp; omega) hrest)
      hbody (show parts.length < fuel by omega) rest
    rw [List.cons_append, List.append_assoc, List.singleton_append, value_list, hshown, ← htrees]
    exact ⟨_, rfl, .list shown hall⟩
  | @table body ms hkeys hnames hvalues hbody ih =>
    obtain ⟨levels, rfl⟩ : ∃ l, levels = l + 1 := by
      cases levels with
      | zero => exact hlevels.elim
      | succ levels => exact ⟨levels, rfl⟩
    simp only [List.length_cons, List.length_append] at hfuel
    obtain ⟨hcount, hlength⟩ := Member.bounds_of_total_le hbody.total_le
    have hnodup : ((ms.map (·.entry)).map (·.1)).Nodup := by
      simpa [Function.comp_def, Member.entry] using hkeys
    obtain ⟨read, hread, hgathers⟩ := inlineEntries_spelled hnames hvalues
      (fun m hm rest hrest => ih m hm (Member.within_values hlevels m hm)
        (by have := hlength m hm; omega) hrest)
      hbody (show ms.length < fuel by omega) .nil hnodup rest
    rw [List.cons_append, List.append_assoc, List.singleton_append, value_table, hread]
    exact ⟨_, rfl, hgathers.shows_table .inline hnodup⟩

end

/-! ## Lines -/

/-- Chunks on lines of their own, with white space around. -/
inductive Lines : List (List Char) → List Char → Prop
  | done {gap : List Char} (hgap : ∀ c ∈ gap, isGap c) : Lines [] gap
  | last {gap chunk after : List Char} (hgap : ∀ c ∈ gap, isGap c)
    (hafter : ∀ c ∈ after, isSpace c) : Lines [chunk] (gap ++ (chunk ++ after))
  | next {gap chunk after rest : List Char} {chunks : List (List Char)}
    (hgap : ∀ c ∈ gap, isGap c) (hafter : ∀ c ∈ after, isSpace c) (h : Lines chunks rest) :
    Lines (chunk :: chunks) (gap ++ (chunk ++ (after ++ '\n' :: rest)))

namespace Lines

variable {chunk body : List Char} {chunks : List (List Char)}

theorem total_le (h : Lines chunks body) : chunks.flatten.length ≤ body.length := by
  induction h with
  | done => exact Nat.zero_le _
  | last =>
    simp only [List.flatten_cons, List.flatten_nil, List.length_append, List.length_nil]
    omega
  | next _ _ _ ih =>
    simp only [List.flatten_cons, List.length_append, List.length_cons]
    omega

/-- A line feed ends the line, and so does the end of the document. -/
theorem lineEnd_last {after : List Char} (h : ∀ c ∈ after, isSpace c) :
    lineEnd after = some [] := by
  have hspace : skipSpace after = [] := by
    rw [← List.append_nil after, skipSpace_append h]
    rfl
  rw [lineEnd, hspace]
  rfl

theorem lineEnd_next {after : List Char} (h : ∀ c ∈ after, isSpace c) (rest : List Char) :
    lineEnd (after ++ '\n' :: rest) = some rest := by
  rw [lineEnd, skipSpace_append h]
  rfl

/-- The first chunk is found behind white space, and the others on the lines behind it. -/
theorem exists_rest (h : Lines (chunk :: chunks) body)
    (hchunk : ∃ c cs, chunk = c :: cs ∧ isSolid c) :
    ∃ tail rest, skipLines false body = some (chunk ++ tail) ∧ Delimited tail ∧
      lineEnd tail = some rest ∧ Lines chunks rest := by
  obtain ⟨c, cs, rfl, hc⟩ := hchunk
  cases h with
  | @last gap _ after hgap hafter =>
    refine ⟨after, [], ?_, ?_, lineEnd_last hafter, .done (List.forall_mem_nil _)⟩
    · rw [skipLines_append hgap, List.cons_append, skipLines_solid hc]
    · have hdelimited := delimited_append
        (fun c hc => mem_delimiters_of_isGap (isGap_of_isSpace (hafter c hc))) delimited_nil
      rwa [List.append_nil] at hdelimited
  | @next gap _ after rest _ hgap hafter hrest =>
    refine ⟨after ++ '\n' :: rest, rest, ?_, ?_, lineEnd_next hafter rest, hrest⟩
    · rw [skipLines_append hgap, List.cons_append, skipLines_solid hc]
    · exact delimited_append
        (fun c hc => mem_delimiters_of_isGap (isGap_of_isSpace (hafter c hc)))
        (by simp [delimiters])

/-- A document does not begin with a byte order mark if no chunk does. -/
theorem ne_mark (h : Lines chunks body)
    (hchunk : ∀ chunk ∈ chunks, ∃ c cs, chunk = c :: cs ∧ c ≠ '\ufeff') (rest : List Char) :
    body ≠ '\ufeff' :: rest := by
  have hgap (gap rest' : List Char) (hgap : ∀ c ∈ gap, isGap c)
      (hrest : ∀ rest, rest' ≠ '\ufeff' :: rest) : gap ++ rest' ≠ '\ufeff' :: rest := by
    cases gap with
    | nil => exact hrest rest
    | cons c gap =>
      intro heq
      have := hgap c List.mem_cons_self
      rw [(List.cons.inj heq).1] at this
      exact absurd this (by decide)
  have hfirst (chunk tail : List Char) (h : ∃ c cs, chunk = c :: cs ∧ c ≠ '\ufeff')
      (rest : List Char) : chunk ++ tail ≠ '\ufeff' :: rest := by
    obtain ⟨c, cs, rfl, hc⟩ := h
    exact fun heq => hc (List.cons.inj heq).1
  cases h with
  | done h => simpa using hgap _ [] h (by simp)
  | last h => exact hgap _ _ h (hfirst _ _ (hchunk _ List.mem_cons_self))
  | next h => exact hgap _ _ h (hfirst _ _ (hchunk _ List.mem_cons_self))

end Lines

section

variable {limit fuel : Nat} {d : Draft} {cs : List Char}

theorem lines_end (h : skipLines false cs = some []) : lines limit (fuel + 1) d cs = .ok d := by
  simp only [lines, h]

/-- A line that opens no table is an entry of the table that is open. -/
theorem lines_entry {start tail rest : List Char} {current : Entries}
    (h : skipLines false cs = some start) (hstart : ∃ c cs, start = c :: cs ∧ c ≠ '[')
    (hkeyed : keyed (value limit maxLevels) (some ∘ skipSpace) d.current start
      = .ok (current, tail))
    (hend : lineEnd tail = some rest) :
    lines limit (fuel + 1) d cs = lines limit fuel { d with current } rest := by
  obtain ⟨c, start, rfl, hc⟩ := hstart
  rw [lines, h]
  split
  case h_5 heq =>
    rw [← Option.some.inj heq, hkeyed]
    simp only [bind, Except.bind, hend]
    rfl
  all_goals
    rename_i heq
    simp [hc] at heq

/-- The lines of a document gather what its members stand for. -/
theorem lines_spelled {ms : List Member} (hnames : ∀ m ∈ ms, grammar.Names m)
    (hvalues : ∀ m ∈ ms, grammar.Spells m.value m.valueText)
    (hwithin : ∀ m ∈ ms, m.value.Within maxLevels)
    (hlimit : ∀ m ∈ ms, m.valueText.length < limit) {body : List Char}
    (hbody : Lines (ms.map (·.text '=')) body) (hfuel : ms.length < fuel)
    {es : List (String × Tree)} (hread : Gathers d.current es)
    (hkeys : ((es ++ ms.map (·.entry)).map (·.1)).Nodup) :
    ∃ current, lines limit fuel d body = .ok { d with current } ∧
      Gathers current (es ++ ms.map (·.entry)) := by
  induction ms generalizing d es body fuel with
  | nil =>
    obtain ⟨fuel, rfl⟩ : ∃ f, fuel = f + 1 := ⟨fuel - 1, by omega⟩
    cases hbody with
    | done hgap =>
      refine ⟨d.current, lines_end ?_, by simpa using hread⟩
      rw [← List.append_nil body, skipLines_append hgap]
      rfl
  | cons m ms ih =>
    obtain ⟨fuel, rfl⟩ : ∃ f, fuel = f + 1 := ⟨fuel - 1, by omega⟩
    obtain ⟨c, cs, hcs, hc, hopen, -⟩ := member_cons (hnames m List.mem_cons_self)
    obtain ⟨tail, rest, hstart, hdelimited, hend, hrest⟩ := hbody.exists_rest ⟨c, cs, hcs, hc⟩
    have happend : es ++ (m :: ms).map (·.entry) = (es ++ [m.entry]) ++ ms.map (·.entry) := by simp
    rw [happend] at hkeys ⊢
    have hkey := key_not_mem_of_nodup hkeys
    obtain ⟨read', hkeyed, hgathers⟩ := keyed_gathers isGapReader_skipSpace
      (hnames m List.mem_cons_self) (hvalues m List.mem_cons_self)
      (value_spelled (hvalues m List.mem_cons_self) (hwithin m List.mem_cons_self)
        (hlimit m List.mem_cons_self) hdelimited) hread hkey
    have hstep : lines limit (fuel + 1) d body = _ :=
      lines_entry hstart ⟨c, cs ++ tail, by simp [hcs], hopen⟩ hkeyed hend
    obtain ⟨current, hcurrent, hall⟩ := ih (d := { d with current := read' })
      (fun q hq => hnames q (List.mem_cons_of_mem _ hq))
      (fun q hq => hvalues q (List.mem_cons_of_mem _ hq))
      (fun q hq => hwithin q (List.mem_cons_of_mem _ hq))
      (fun q hq => hlimit q (List.mem_cons_of_mem _ hq)) hrest (by simpa using hfuel) hgathers hkeys
    exact ⟨current, hstep.trans hcurrent, hall⟩

end

/-- The document is a spelling of the table, an entry on each line. -/
inductive States : Tree → String → Prop
  | intro {body : List Char} (ms : List Member) (hkeys : (ms.map (·.key)).Nodup)
    (hnames : ∀ m ∈ ms, grammar.Names m) (hvalues : ∀ m ∈ ms, grammar.Spells m.value m.valueText)
    (hbody : Lines (ms.map (·.text '=')) body) :
    States (.table (ms.map (·.entry))) (String.ofList body)

theorem parse_of_ne_mark {cs : List Char} (h : ∀ rest, cs ≠ '\ufeff' :: rest) :
    parse cs = (lines (cs.length + 1) (cs.length + 1) {} cs).bind Draft.close := by
  unfold parse
  split
  · exact absurd rfl (h _)
  · rfl

/-- A document is read as a table that stands for its tree. -/
theorem parse_of_states {t : Tree} {document : String} (h : States t document)
    (hwithin : t.Within (maxLevels + 1)) :
    ∃ es, parse document.toList = .ok es ∧ Shows (.table .header es) t := by
  cases h with
  | @intro body ms hkeys hnames hvalues hbody =>
    obtain ⟨hcount, hlength⟩ := Member.bounds_of_total_le hbody.total_le
    have hnodup : ((ms.map (·.entry)).map (·.1)).Nodup := by
      simpa [Function.comp_def, Member.entry] using hkeys
    have hmark := hbody.ne_mark fun chunk hchunk => by
      obtain ⟨m, hm, rfl⟩ := List.mem_map.mp hchunk
      obtain ⟨c, cs, hcs, -, -, -, hc⟩ := member_cons (hnames m hm)
      exact ⟨c, cs, hcs, hc⟩
    have hlines : ∃ es, lines (body.length + 1) (body.length + 1) {} body
        = .ok { current := es } ∧ Gathers es ([] ++ ms.map (·.entry)) :=
      lines_spelled hnames hvalues (Member.within_values hwithin)
        (fun m hm => Nat.lt_succ_of_lt (hlength m hm)) hbody (Nat.lt_succ_of_le hcount) .nil hnodup
    obtain ⟨es, hlines, hes⟩ := hlines
    refine ⟨es, ?_, hes.shows_table .header hnodup⟩
    rw [String.toList_ofList, parse_of_ne_mark hmark, hlines]
    rfl

end ModelScribe.Toml
