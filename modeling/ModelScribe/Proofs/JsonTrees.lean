-- Trees in JSON. A text that spells a tree is the text of a node that shows
-- the tree, and at a place of any kind this node says what the tree means
-- there. So a document that states a tree is read as what the tree means, and
-- refused if that is nothing.
import ModelScribe.Proofs.JsonSense

namespace ModelScribe.Json

/-! ## Nodes that show trees -/

/-- The node states the values of the tree. -/
inductive Shows : Node → Tree → Prop
  | null : Shows .null .null
  | flag (b : Bool) : Shows (.flag b) (.flag b)
  | text {body : List Char} {s : String} (h : denoted body = some s) : Shows (.text body) (.text s)
  | integer {negative : Bool} {magnitude : List Char} {z : Int}
    (h : numeral negative magnitude = some (.integer z)) :
    Shows (.number negative magnitude) (.integer z)
  | list (parts : List (Node × Tree)) (h : ∀ p ∈ parts, Shows p.1 p.2) :
    Shows (.list (parts.map (·.1))) (.list (parts.map (·.2)))
  | table (parts : List ((List Char × Node) × String × Tree))
    (hnodup : (parts.map (·.2.1)).Nodup) (hkeys : ∀ p ∈ parts, denoted p.1.1 = some p.2.1)
    (hvalues : ∀ p ∈ parts, Shows p.1.2 p.2.2) :
    Shows (.object (parts.map (·.1))) (.table (parts.map (·.2)))

/-! ## What is spelled is shown -/

theorem denoted_pieces {pieces : List (Char × List Char)}
    (h : ∀ p ∈ pieces, SpellsChar p.1 p.2) :
    denoted (pieces.flatMap (·.2)) = some (String.ofList (pieces.map (·.1))) := by
  rw [denoted, string, stringBody_pieces pieces h]
  rfl

theorem isMagnitude_toDigits (n : Nat) : IsMagnitude (Nat.toDigits 10 n) := by
  have hdigits : IsDigits (Nat.toDigits 10 n) :=
    ⟨Nat.toDigits_ne_nil, fun c hc => isDigit_of_bounds (isDigit_of_mem_toDigits hc)⟩
  simpa using IsMagnitude.intro hdigits (fun _ _ => toDigits_ne_zero_cons_cons) .none .none

theorem writes_repr (z : Int) :
    (Node.number (z < 0) (Nat.toDigits 10 z.natAbs)).Writes (Int.repr z).toList := by
  have hwrites := Node.Writes.number (z < 0) (isMagnitude_toDigits z.natAbs)
  rw [digits_repr]
  by_cases hneg : z < 0 <;> simpa [hneg, Node.sign] using hwrites

/-- An integer that 64 bits hold, with a sign or without, is read to its last digit. -/
theorem numeral_repr {z : Int} (lower : -2 ^ 63 ≤ z) (upper : z < 2 ^ 64) :
    numeral (z < 0) (Nat.toDigits 10 z.natAbs) = some (.integer z) := by
  have hread := number_digits (decide (z < 0)) (by omega : z.natAbs < 2 ^ 64) delimited_nil
  rw [List.append_nil] at hread
  rw [numeral, hread]
  by_cases hneg : z < 0
  · rw [integral, if_neg (by simp [hneg]), if_pos (by omega), show -(z.natAbs : Int) = z by omega]
    rfl
  · rw [integral, if_pos (by simp [hneg]), show (z.natAbs : Int) = z by omega]
    rfl

theorem exists_integer (z : Int) (lower : -2 ^ 63 ≤ z) (upper : z < 2 ^ 63) :
    ∃ n : Node, n.Writes (Int.repr z).toList ∧ Shows n (.integer z) :=
  ⟨_, writes_repr z, .integer (numeral_repr lower (by omega))⟩

/-- A member of a table is written as an entry of an object. -/
theorem exists_entry {m : Member} (hm : grammar.Names m) {n : Node} (hn : n.Writes m.valueText) :
    ∃ e : Entry, (e.Sound ∧ e.value.Writes e.valueText) ∧ e.text = m.text ':' ∧ e.value = n ∧
      denoted e.key = some m.key := by
  obtain ⟨key, keyText, before, after, value, valueText⟩ := m
  cases quotes_of_spellsKey hm.key with
  | intro pieces hpieces =>
    refine ⟨⟨pieces.flatMap (·.2), before, after, n, valueText⟩,
      ⟨⟨isBody_pieces hpieces, hm.before, hm.after⟩, hn⟩, ?_, rfl, denoted_pieces hpieces⟩
    simp [Entry.text, Entry.afterKey, Member.text]

/-- Items that are written as nodes make a list that is. -/
theorem exists_list {body : List Char} {parts : List (Tree × List Char)}
    (hbody : Separated isSpace true (parts.map (·.2)) body)
    (h : ∀ p ∈ parts, ∃ n : Node, n.Writes p.2 ∧ Shows n p.1) :
    ∃ n : Node, n.Writes ('[' :: (body ++ [']'])) ∧ Shows n (.list (parts.map (·.1))) := by
  obtain ⟨trips, htrips, rfl⟩ :
      ∃ trips : List (Node × Tree × List Char),
        (∀ p ∈ trips, p.1.Writes p.2.2 ∧ Shows p.1 p.2.1) ∧ trips.map (·.2) = parts :=
    exists_map_eq fun p hp => by
      obtain ⟨n, hn⟩ := h p hp
      exact ⟨(n, p), hn, rfl⟩
  rw [List.map_map]
  have hseparated : Separated isSpace true ((trips.map fun p => (p.1, p.2.2)).map (·.2)) body := by
    rw [List.map_map] at hbody ⊢
    exact hbody
  have hwrites := Node.Writes.list (trips.map fun p => (p.1, p.2.2))
    (List.forall_mem_map.mpr fun p hp => (htrips p hp).1) hseparated
  have hshows := Shows.list (trips.map fun p => (p.1, p.2.1))
    (List.forall_mem_map.mpr fun p hp => (htrips p hp).2)
  rw [List.map_map] at hwrites hshows
  rw [List.map_map] at hshows
  exact ⟨_, hwrites, hshows⟩

/-- Members whose values are written as nodes make an object that is. -/
theorem exists_object {body : List Char} {ms : List Member} (hkeys : (ms.map (·.key)).Nodup)
    (hnames : ∀ m ∈ ms, grammar.Names m)
    (hbody : Separated isSpace true (ms.map (·.text ':')) body)
    (h : ∀ m ∈ ms, ∃ n : Node, n.Writes m.valueText ∧ Shows n m.value) :
    ∃ n : Node, n.Writes ('\x7b' :: (body ++ ['\x7d'])) ∧ Shows n (.table (ms.map (·.entry))) := by
  obtain ⟨parts, hparts, rfl⟩ :
      ∃ parts : List (Entry × Member), (∀ p ∈ parts, (p.1.Sound ∧ p.1.value.Writes p.1.valueText)
        ∧ p.1.text = p.2.text ':' ∧ Shows p.1.value p.2.value
        ∧ denoted p.1.key = some p.2.key) ∧ parts.map (·.2) = ms :=
    exists_map_eq fun m hm => by
      obtain ⟨n, hn, hshows⟩ := h m hm
      obtain ⟨e, hsound, htext, rfl, hkey⟩ := exists_entry (hnames m hm) hn
      exact ⟨(e, m), ⟨hsound, htext, hshows, hkey⟩, rfl⟩
  have htexts : (parts.map (·.1)).map (·.text) = (parts.map (·.2)).map (·.text ':') := by
    rw [List.map_map, List.map_map]
    exact List.map_congr_left fun p hp => (hparts p hp).2.1
  have hseparated : Separated isSpace true ((parts.map (·.1)).map (·.text)) body := by
    rw [htexts]
    exact hbody
  rw [List.map_map] at hkeys ⊢
  have hwrites := Node.Writes.object (parts.map (·.1))
    (List.forall_mem_map.mpr fun p hp => (hparts p hp).1.1)
    (List.forall_mem_map.mpr fun p hp => (hparts p hp).1.2) hseparated
  have hshows := Shows.table (parts.map fun p => (p.1.member, p.2.entry))
    (by rw [List.map_map]; exact hkeys)
    (List.forall_mem_map.mpr fun p hp => (hparts p hp).2.2.2)
    (List.forall_mem_map.mpr fun p hp => (hparts p hp).2.2.1)
  rw [List.map_map] at hwrites hshows
  rw [List.map_map] at hshows
  exact ⟨_, hwrites, hshows⟩

/-- A text of a tree is one of a node that shows the tree. -/
theorem exists_node {t : Tree} {cs : List Char} (h : grammar.Spells t cs) :
    ∃ n : Node, n.Writes cs ∧ Shows n t := by
  induction h with
  | null => exact ⟨.null, .null, .null⟩
  | text h =>
    cases h with
    | intro pieces hpieces =>
      exact ⟨_, .text (isBody_pieces hpieces), .text (denoted_pieces hpieces)⟩
  | yes => exact ⟨_, .yes, .flag true⟩
  | no => exact ⟨_, .no, .flag false⟩
  | integer z lower upper => exact exists_integer z lower upper
  | list parts _ hbody ih => exact exists_list hbody ih
  | table ms hkeys hnames _ hbody ih => exact exists_object hkeys hnames hbody ih

/-! ## What is shown is said -/

/-- Members that each say one entry of a table say together what the table means. -/
theorem foldlM_noteMember_shows {fs : Fields} (hfs : fs.Distinct)
    {parts : List ((List Char × Node) × String × Tree)} (hnodup : (parts.map (·.2.1)).Nodup)
    (hkeys : ∀ p ∈ parts, denoted p.1.1 = some p.2.1)
    (hnote : ∀ p ∈ parts, ∀ stated, fs.states p.2.1 stated = false →
      note fs p.2.1 p.1.2 stated = fs.named [p.2] stated)
    {stated : fs.Values} (hstated : ∀ p ∈ parts, fs.states p.2.1 stated = false) :
    (parts.map (·.1)).foldlM (noteMember fs) stated = fs.named (parts.map (·.2)) stated := by
  induction parts generalizing stated with
  | nil => exact (fs.named_nil stated).symm
  | cons p parts ih =>
    obtain ⟨⟨body, n⟩, key, t⟩ := p
    obtain ⟨hkey, hkeys⟩ := List.forall_mem_cons.mp hkeys
    obtain ⟨hone, hnote⟩ := List.forall_mem_cons.mp hnote
    obtain ⟨hfresh, hstated⟩ := List.forall_mem_cons.mp hstated
    rw [List.map_cons, List.nodup_cons] at hnodup
    have hnot : key ∉ (parts.map (·.2)).map (·.1) := by simpa using hnodup.1
    rw [List.map_cons, List.map_cons, List.foldlM_cons, noteMember, hkey, Option.bind_some,
      hone stated hfresh, fs.named_cons t stated hfs hnot]
    cases hnamed : fs.named [(key, t)] stated with
    | none => rfl
    | some stated' =>
      refine ih hnodup.2 hkeys hnote fun q hq => ?_
      have hne : q.2.1 ≠ key := fun he => hnodup.1 (List.mem_map.mpr ⟨q, hq, he⟩)
      rw [Fields.states_of_named hnamed hne]
      exact hstated q hq

mutual

/-- A node that shows a tree says what the tree means. -/
theorem sense_of_shows (k : Kind) (hk : k.Distinct) {n : Node} {t : Tree} (h : Shows n t) :
    sense k n = k.meaning t := by
  match k with
  | .text =>
    cases h with
    | text h => exact h
    | _ => rfl
  | .flag => cases h <;> rfl
  | .byte =>
    cases h with
    | integer h =>
      simp only [sense, h, Option.bind_some, Number.byte?, byteOf, Kind.meaning]
      split <;> rfl
    | _ => rfl
  | .scalar =>
    cases h with
    | text h => exact h
    | integer h =>
      simp only [sense, Node.scalar, h]
      rfl
    | _ => rfl
  | .optional k =>
    by_cases hn : n = .null
    · subst hn
      cases h
      rfl
    · have ht : t ≠ .null := by
        rintro rfl
        cases h
        exact hn rfl
      rw [sense_optional k hn, Kind.meaning_optional k ht, sense_of_shows k hk h]
  | .list k =>
    cases h with
    | list parts h =>
      simp only [sense, Kind.meaning, List.mapM_map]
      exact mapM_congr fun p hp => sense_of_shows k hk (h p hp)
    | _ => rfl
  | .record name fs =>
    cases h with
    | list parts h =>
      rw [sense, Kind.meaning]
      exact senseAt_of_shows fs hk h
    | table parts hnodup hkeys hvalues =>
      rw [sense_object, Kind.meaning]
      exact foldlM_noteMember_shows hk hnodup hkeys
        (fun p hp stated hstated => note_of_shows fs hk (hvalues p hp) hstated)
        fun p _ => fs.states_unstated p.2.1
    | _ => rfl

theorem senseAt_of_shows (fs : Fields) (hfs : fs.Distinct) {parts : List (Node × Tree)}
    (h : ∀ p ∈ parts, Shows p.1 p.2) :
    senseAt fs (parts.map (·.1)) = fs.placed (parts.map (·.2)) := by
  match fs, parts with
  | .nil, [] => rfl
  | .nil, p :: parts => rfl
  | .cons key k fs, [] => rfl
  | .cons key k fs, p :: parts =>
    obtain ⟨hp, h⟩ := List.forall_mem_cons.mp h
    rw [List.map_cons, List.map_cons, senseAt, Fields.placed, sense_of_shows k hfs.2.1 hp,
      senseAt_of_shows fs hfs.2.2 h]
    cases k.meaning p.2 <;> cases fs.placed (parts.map (·.2)) <;> rfl

/-- A field that is not stated takes what the node says. -/
theorem note_of_shows (fs : Fields) (hfs : fs.Distinct) {key : String} {n : Node} {t : Tree}
    (h : Shows n t) {stated : fs.Values} (hstated : fs.states key stated = false) :
    note fs key n stated = fs.named [(key, t)] stated := by
  match fs with
  | .nil => rfl
  | .cons name k fs =>
    obtain ⟨hname, hk, hfs⟩ := hfs
    rw [note, Fields.named]
    by_cases hkey : key = name
    · subst hkey
      have hfirst : stated.1.isSome = false := by simpa [Fields.states] using hstated
      rw [if_pos rfl, if_neg (by simp [hfirst]), sense_of_shows k hk h,
        Fields.named_of_not_mem fs t _ _ hname, Fields.named_nil, List.lookup_cons_self]
      cases hmeaning : k.meaning t <;> simp [restated, hmeaning]
    · have hothers : fs.states key stated.2 = false := by
        simpa [Fields.states, hkey] using hstated
      rw [if_neg hkey, note_of_shows fs hfs h hothers, lookup_cons_of_ne (Ne.symm hkey),
        List.lookup_nil]
      cases fs.named [(key, t)] stated.2 <;> rfl

end

/-! ## Documents -/

/-- The document is a spelling of the tree, with white space around it. -/
inductive States (t : Tree) : String → Prop
  | intro {before cs after : List Char} (hbefore : ∀ c ∈ before, isSpace c)
    (h : grammar.Spells t cs) (hafter : ∀ c ∈ after, isSpace c) :
    States t (String.ofList (before ++ (cs ++ after)))

/-- A document is read as what its tree means, and refused if that is nothing. -/
theorem read_of_states {k : Kind} (hk : k.Distinct) (hheight : k.height ≤ maxLevels) {t : Tree}
    {document : String} (h : States t document) : (read k document).toOption = k.meaning t := by
  obtain @⟨before, cs, after, hbefore, h, hafter⟩ := h
  obtain ⟨n, hn, hshows⟩ := exists_node h
  rw [read_of_document hheight (.intro hbefore hn hafter), sense_of_shows k hk hshows]

end ModelScribe.Json
