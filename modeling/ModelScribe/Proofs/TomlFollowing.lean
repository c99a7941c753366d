-- Values, tables and lines read side by side. Each reader keeps together with
-- itself on the other document, given that the readers it is made of do; so
-- does the whole document. Where the value is found, it goes in once, and the
-- string goes in for it.
import ModelScribe.Proofs.TomlBeside
import ModelScribe.Proofs.TomlValues

namespace ModelScribe.Toml

variable {x : Exchange} {k fuel fuel' : Nat} {cs cs' rest rest' : List Char}
  {item item' : ValueReader} {gap : List Char → Option (List Char)}

/-! ## Right before the value -/

theorem skipLines_old : skipLines false x.old = some x.old := by
  obtain ⟨c, text, hold, hc⟩ := x.exists_old
  rw [hold, skipLines_solid (isSolid_of_isAtomChar hc)]

theorem skipSpace_old : skipSpace x.old = x.old := by
  obtain ⟨c, text, hold, hc⟩ := x.exists_old
  have hspace : isSpace c = false := Bool.eq_false_iff.mpr fun hspace => by
    have hsolid := isSolid_of_isAtomChar hc
    simp [isSolid, isGap, hspace] at hsolid
  rw [hold, skipSpace, List.dropWhile_cons, if_neg (by simp [hspace])]

/-- The value begins with no sign that a key, a header or an item may end with. -/
theorem old_ne {c : Char} (hc : isAtomChar c = false) (rest : List Char) : x.old ≠ c :: rest := by
  obtain ⟨d, text, hold, hd⟩ := x.exists_old
  rw [hold]
  intro heq
  rw [(List.cons.inj heq).1, hc] at hd
  cases hd

theorem after_old {c : Char} (hc : isAtomChar c = false) : after c x.old = none := by
  obtain ⟨d, text, hold, hd⟩ := x.exists_old
  rw [hold, after, if_neg]
  rintro rfl
  rw [hc] at hd
  cases hd

theorem lineEnd_old : lineEnd x.old = none := by
  obtain ⟨c, text, hold, hc⟩ := x.exists_old
  have hcomment : skipComment x.old = x.old := by
    unfold skipComment
    split
    · rename_i heq
      exact absurd heq (old_ne (c := '#') rfl _)
    · rfl
  rw [lineEnd, skipSpace_old, hcomment]
  split
  · rename_i heq
    rw [hold] at heq
    cases heq
  · unfold lineBreak
    split
    · rename_i heq
      exact absurd heq (old_ne (c := '\n') rfl _)
    · rename_i heq
      exact absurd heq (old_ne (c := '\r') rfl _)
    · rfl

/-! ## Entries -/

/-- A reader of values keeps together with another. It may end right before the value, where
nothing that reads on goes through. -/
def Follows (x : Exchange) (item item' : ValueReader) : Prop :=
  ∀ ⦃cs cs'⦄, Beside x cs cs' → Keeps x true (Alike x) 0 cs (item cs) (item' cs')

/-- An entry as it is written: the key and the value. -/
def entryOf (item : ValueReader) (gap : List Char → Option (List Char)) (cs : List Char) :
    Except Fault (((List Key × Key) × Located) × List Char) :=
  (key maxParts cs).bind fun k =>
    (passing gap k.2).bind fun p =>
      (passing (after '=') p.2).bind fun p =>
        (passing gap p.2).bind fun p => (item p.2).map fun v => ((k.1, v.1), v.2)

theorem keyed_eq (item : ValueReader) (gap : List Char → Option (List Char)) (es : Entries)
    (cs : List Char) : keyed item gap es cs = (entryOf item gap cs).bind fun e =>
      (es.insert e.1.1.1 e.1.1.2 e.1.2.1 e.1.2.2).map fun es => (es, e.2) := by
  unfold keyed entryOf passing
  cases key maxParts cs with
  | error => rfl
  | ok k =>
    simp only [bind, Except.bind]
    cases gap k.2 with
    | none => rfl
    | some start =>
      simp only [Option.bind, orFault, Except.map]
      cases after '=' start with
      | none => rfl
      | some behind =>
        simp only
        cases gap behind with
        | none => rfl
        | some text =>
          simp only
          cases item text with
          | error => rfl
          | ok v =>
            simp only
            cases es.insert k.1.1 k.1.2 v.1.1 v.1.2 <;> rfl

/-- Entries of the same key, with values that are alike. -/
def AlikeEntry (x : Exchange) (n : Nat) (e e' : (List Key × Key) × Located) : Prop :=
  SameKey e.1 e'.1 ∧ Alike x n e.2 e'.2

theorem keeps_entry (hitem : Follows x item item') (hgap : Passes x gap)
    (hstop : gap x.old = some x.old) (h : Beside x cs cs') :
    Keeps x true (AlikeEntry x) 0 cs (entryOf item gap cs) (entryOf item' gap cs') := by
  refine (keeps_key h due_le_one).bind_loose due_le_one (fun a => ?_) fun hR hrest hdue hle => ?_
  · simp only [passing, hstop, orFault, Except.map, Except.bind, after_old (c := '=') rfl]
  obtain ⟨rfl, hsame⟩ := hR
  refine (hgap hrest due_le_one).bind due_le_one fun hR hrest _ _ => ?_
  obtain ⟨rfl, -⟩ := hR
  refine (passes_after '=' hrest due_le_one).bind due_le_one fun hR hrest _ _ => ?_
  obtain ⟨rfl, -⟩ := hR
  refine (hgap hrest due_le_one).bind due_le_one fun hR hrest _ _ => ?_
  obtain ⟨rfl, -⟩ := hR
  exact (hitem hrest).map fun _ _ hv => ⟨hsame, hv⟩

/-- An entry goes into a table, if its key may stand there. -/
theorem keeps_keyed {es es' : Entries} {S : Nat → Entries → Entries → Prop}
    (hitem : Follows x item item') (hgap : Passes x gap) (hstop : gap x.old = some x.old)
    (h : Beside x cs cs') (hk : k + x.due cs ≤ 1)
    (hinsert : ∀ {m key key' v v' res}, SameKey key key' → Alike x m v v' →
      es.insert key.1 key.2 v.1 v.2 = .ok res →
      ∃ res', es'.insert key'.1 key'.2 v'.1 v'.2 = .ok res' ∧ S (m + k) res res') :
    Keeps x true S k cs (keyed item gap es cs) (keyed item' gap es' cs') := by
  rw [keyed_eq, keyed_eq]
  refine ((keeps_entry hitem hgap hstop h).shift hk).follow fun _ _ hR hres => ?_
  obtain ⟨n, rfl, hsame, hv⟩ := hR
  exact hinsert hsame hv hres

/-! ## Lists -/

/-- What follows an item. -/
def itemsBehind (item : ValueReader) (fuel : Nat) (v : Located) (cs : List Char) :
    Except Fault (List Located × List Char) :=
  match cs with
  | ',' :: rest => (items item fuel rest).map fun vs => (v :: vs.1, vs.2)
  | ']' :: rest => .ok ([v], rest)
  | _ => .error none

/-- The items of a list from the next item or the closing bracket on. -/
def itemsFrom (item : ValueReader) (fuel : Nat) (cs : List Char) :
    Except Fault (List Located × List Char) :=
  match cs with
  | ']' :: rest => .ok ([], rest)
  | cs => (item cs).bind fun v =>
    (passing (skipLines false) v.2).bind fun p => itemsBehind item fuel v.1 p.2

theorem itemsFrom_item (h : ∀ rest, cs ≠ ']' :: rest) :
    itemsFrom item fuel cs = (item cs).bind fun v =>
      (passing (skipLines false) v.2).bind fun p => itemsBehind item fuel v.1 p.2 := by
  unfold itemsFrom
  split
  · exact absurd rfl (h _)
  · rfl

theorem items_eq : items item (fuel + 1) cs
    = (passing (skipLines false) cs).bind fun p => itemsFrom item fuel p.2 := by
  rw [items, passing]
  cases skipLines false cs with
  | none => rfl
  | some start =>
    simp only [orFault, Except.map, Except.bind]
    split
    case h_1 heq => cases heq
    case h_2 heq =>
      obtain rfl := Option.some.inj heq
      rfl
    case h_3 hclose heq =>
      obtain rfl := Option.some.inj heq
      rw [itemsFrom_item hclose]
      cases item start with
      | error => rfl
      | ok v =>
        simp only [bind, Except.bind, passing]
        cases skipLines false v.2 with
        | none => rfl
        | some behind =>
          simp only [orFault, Except.map]
          unfold itemsBehind
          split <;> split <;> simp_all [Except.map, pure, Except.pure]

theorem itemsBehind_old (v : Located) : itemsBehind item fuel v x.old = .error none := by
  unfold itemsBehind
  split
  · rename_i heq
    exact absurd heq (old_ne (c := ',') rfl _)
  · rename_i heq
    exact absurd heq (old_ne (c := ']') rfl _)
  · rfl

theorem keeps_itemsBehind {v v' : Located}
    (hitems : ∀ {cs cs'}, Beside x cs cs' →
      Keeps x false (AlikeItems x) 0 cs (items item fuel cs) (items item' fuel' cs'))
    (hv : Alike x k v v') (h : Beside x cs cs') (hk : k + x.due cs ≤ 1) :
    Keeps x false (AlikeItems x) k cs (itemsBehind item fuel v cs)
      (itemsBehind item' fuel' v' cs') := by
  unfold itemsBehind
  split
  case h_1 rest =>
    obtain ⟨rest', rfl, hrest⟩ := h.cons (by decide)
    have hle : rest.length ≤ (',' :: rest).length := Nat.le_succ _
    have hdue := due_mono (x := x) hle
    refine (((hitems hrest).shift (by omega)).map fun _ _ hR => ?_).of_longer hle
    obtain ⟨n, rfl, hvs⟩ := hR
    rw [Nat.add_comm]
    exact .cons hv hvs
  case h_2 rest =>
    obtain ⟨rest', rfl, hrest⟩ := h.cons (by decide)
    exact (Keeps.done hrest (.cons hv .nil)).of_longer (Nat.le_succ _)
  case h_3 => exact .error

/-- Lists keep together if their items do. -/
theorem keeps_items (hitem : Follows x item item') (hfuel : fuel ≤ fuel') (h : Beside x cs cs') :
    Keeps x false (AlikeItems x) 0 cs (items item fuel cs) (items item' fuel' cs') := by
  induction fuel generalizing fuel' cs cs' with
  | zero => exact .error
  | succ fuel ih =>
    obtain ⟨fuel', rfl⟩ : ∃ f, fuel' = f + 1 := ⟨fuel' - 1, by omega⟩
    rw [items_eq, items_eq]
    refine (passes_skipLines h due_le_one).bind due_le_one
      fun {_ _ _ start start'} hR hrest _ _ => ?_
    obtain ⟨rfl, -⟩ := hR
    by_cases hclose : ∃ text, start = ']' :: text
    · obtain ⟨text, rfl⟩ := hclose
      obtain ⟨text', rfl, htext⟩ := hrest.cons (by decide)
      exact (Keeps.done htext .nil).of_longer (Nat.le_succ _)
    · rw [not_exists] at hclose
      rw [itemsFrom_item hclose, itemsFrom_item (hrest.not_cons hclose (by decide) (by decide))]
      refine (hitem hrest).bind_loose due_le_one (fun v => ?_) fun hv hrest hdue _ => ?_
      · simp only [passing, skipLines_old, orFault, Except.map, Except.bind, itemsBehind_old]
      · refine (passes_skipLines hrest hdue).bind hdue fun hR hrest hdue' _ => ?_
        obtain ⟨rfl, -⟩ := hR
        exact keeps_itemsBehind (ih (by omega)) hv hrest hdue'

/-! ## Inline tables -/

/-- What follows an entry. -/
def entriesBehind (item : ValueReader) (fuel : Nat) (es : Entries) (cs : List Char) :
    Except Fault (Entries × List Char) :=
  match cs with
  | ',' :: rest => inlineEntries item fuel es rest
  | '\x7d' :: rest => .ok (es, rest)
  | _ => .error none

/-- The entries of an inline table from the next key or the closing brace on. -/
def entriesFrom (item : ValueReader) (fuel : Nat) (es : Entries) (cs : List Char) :
    Except Fault (Entries × List Char) :=
  match cs with
  | '\x7d' :: rest => .ok (es, rest)
  | cs => (keyed item (skipLines false) es cs).bind fun es =>
    (passing (skipLines false) es.2).bind fun p => entriesBehind item fuel es.1 p.2

theorem entriesFrom_entry {es : Entries} (h : ∀ rest, cs ≠ '\x7d' :: rest) :
    entriesFrom item fuel es cs = (keyed item (skipLines false) es cs).bind fun es =>
      (passing (skipLines false) es.2).bind fun p => entriesBehind item fuel es.1 p.2 := by
  unfold entriesFrom
  split
  · exact absurd rfl (h _)
  · rfl

theorem inlineEntries_eq {es : Entries} : inlineEntries item (fuel + 1) es cs
    = (passing (skipLines false) cs).bind fun p => entriesFrom item fuel es p.2 := by
  rw [inlineEntries, passing]
  cases skipLines false cs with
  | none => rfl
  | some start =>
    simp only [orFault, Except.map, Except.bind]
    split
    case h_1 heq => cases heq
    case h_2 heq =>
      obtain rfl := Option.some.inj heq
      rfl
    case h_3 hclose heq =>
      obtain rfl := Option.some.inj heq
      rw [entriesFrom_entry hclose]
      cases keyed item (skipLines false) es start with
      | error => rfl
      | ok es =>
        simp only [bind, Except.bind, passing]
        cases skipLines false es.2 with
        | none => rfl
        | some behind =>
          simp only [orFault, Except.map]
          unfold entriesBehind
          split <;> split <;> simp_all [pure, Except.pure]

theorem entriesBehind_old (es : Entries) : entriesBehind item fuel es x.old = .error none := by
  unfold entriesBehind
  split
  · rename_i heq
    exact absurd heq (old_ne (c := ',') rfl _)
  · rename_i heq
    exact absurd heq (old_ne (c := '\x7d') rfl _)
  · rfl

theorem keeps_entriesBehind {es es' : Entries}
    (hentries : ∀ {k es es' cs cs'}, AlikeEntries x k es es' → Beside x cs cs' →
      k + x.due cs ≤ 1 → Keeps x false (AlikeEntries x) k cs (inlineEntries item fuel es cs)
        (inlineEntries item' fuel' es' cs'))
    (hes : AlikeEntries x k es es') (h : Beside x cs cs') (hk : k + x.due cs ≤ 1) :
    Keeps x false (AlikeEntries x) k cs (entriesBehind item fuel es cs)
      (entriesBehind item' fuel' es' cs') := by
  unfold entriesBehind
  split
  case h_1 rest =>
    obtain ⟨rest', rfl, hrest⟩ := h.cons (by decide)
    have hle : rest.length ≤ (',' :: rest).length := Nat.le_succ _
    have hdue := due_mono (x := x) hle
    exact (hentries hes hrest (by omega)).of_longer hle
  case h_2 rest =>
    obtain ⟨rest', rfl, hrest⟩ := h.cons (by decide)
    exact (Keeps.done hrest hes).of_longer (Nat.le_succ _)
  case h_3 => exact .error

/-- Inline tables keep together if their values do. -/
theorem keeps_inlineEntries (hitem : Follows x item item') (hfuel : fuel ≤ fuel')
    {es es' : Entries} (hes : AlikeEntries x k es es') (h : Beside x cs cs')
    (hk : k + x.due cs ≤ 1) :
    Keeps x false (AlikeEntries x) k cs (inlineEntries item fuel es cs)
      (inlineEntries item' fuel' es' cs') := by
  induction fuel generalizing fuel' es es' k cs cs' with
  | zero => exact .error
  | succ fuel ih =>
    obtain ⟨fuel', rfl⟩ : ∃ f, fuel' = f + 1 := ⟨fuel' - 1, by omega⟩
    rw [inlineEntries_eq, inlineEntries_eq]
    refine (passes_skipLines h hk).bind hk fun {_ _ _ start start'} hR hrest hdue _ => ?_
    obtain ⟨rfl, -⟩ := hR
    by_cases hclose : ∃ text, start = '\x7d' :: text
    · obtain ⟨text, rfl⟩ := hclose
      obtain ⟨text', rfl, htext⟩ := hrest.cons (by decide)
      exact (Keeps.done htext hes).of_longer (Nat.le_succ _)
    · rw [not_exists] at hclose
      rw [entriesFrom_entry hclose,
        entriesFrom_entry (hrest.not_cons hclose (by decide) (by decide))]
      have hkeyed := keeps_keyed hitem passes_skipLines skipLines_old hrest hdue
        fun hsame hv => insert_alike hsame.1 hsame.2 hes hv
      refine hkeyed.bind_loose hdue (fun es => ?_) fun hes hrest hdue _ => ?_
      · simp only [passing, skipLines_old, orFault, Except.map, Except.bind, entriesBehind_old]
      · refine (passes_skipLines hrest hdue).bind hdue fun hR hrest hdue' _ => ?_
        obtain ⟨rfl, -⟩ := hR
        exact keeps_entriesBehind (ih (by omega)) hes hrest hdue'

/-! ## Values -/

/-- Reads a string behind its opening quote. Two quotes more begin a string over several lines. -/
def quoted (quote : Char) (cs : List Char) : Option (String × List Char) :=
  if cs.take 2 = [quote, quote] then blockStringBody quote (quote = '"') (cs.drop 2)
  else lineString quote (quote = '"') [] 0 cs

theorem local_quoted (quote : Char) : Local (quoted quote) := by
  intro cs s rest h
  unfold quoted at h
  split at h
  case isTrue hopen =>
    obtain ⟨taken, hcs, hread⟩ := local_blockStringBody _ _ h
    refine ⟨quote :: quote :: taken, ?_, fun rest' hkin => ?_⟩
    · rw [← List.take_append_drop 2 cs, hopen, hcs]
      rfl
    · rw [quoted, if_pos (by rfl)]
      exact hread rest' hkin
  case isFalse hopen =>
    obtain ⟨taken, rfl, hlength, -, hread⟩ := (scans_lineString _ _).exists_taken h
    refine ⟨taken, rfl, fun rest' hkin => ?_⟩
    -- the quotes that open the string are told by the head of what follows, if not before
    have hsame : (taken ++ rest').take 2 = (taken ++ rest).take 2 := by
      obtain ⟨c, taken, rfl⟩ := List.exists_cons_of_length_pos hlength
      rw [List.cons_append, List.cons_append, List.take_succ_cons, List.take_succ_cons,
        List.take_one, List.take_one, head?_append_congr taken hkin.head]
    rw [quoted, hsame, if_neg hopen]
    exact hread rest' hkin.head

theorem quoted_length {q : Char} {s : String} (h : quoted q cs = some (s, rest)) :
    s.length + rest.length ≤ cs.length := by
  unfold quoted at h
  split at h
  case isTrue =>
    obtain ⟨taken, heq, -, hlength, -⟩ := (scans_blockString _ _).exists_taken h
    have hline : ((lineBreak (cs.drop 2)).getD (cs.drop 2)).length ≤ (cs.drop 2).length := by
      cases hbreak : lineBreak (cs.drop 2) with
      | none => exact Nat.le_refl _
      | some line =>
        obtain ⟨c, signs, heq, -⟩ := exact_lineBreak hbreak
        rw [heq, Option.getD_some, List.length_cons, List.length_append]
        omega
    rw [heq, List.length_append, List.length_drop] at hline
    rw [List.length_nil] at hlength
    omega
  case isFalse =>
    obtain ⟨taken, rfl, -, hlength, -⟩ := (scans_lineString _ _).exists_taken h
    rw [List.length_append]
    rw [List.length_nil] at hlength
    omega

theorem value_quoted {levels : Nat} {q : Char} (hq : q = '"' ∨ q = '\'') :
    value fuel levels (q :: cs) = (orFault (quoted q cs)).map fun p =>
      (locate (q :: cs) p.2 (.text p.1), p.2) := by
  have hopen (rest : List Char) (h : cs = q :: q :: rest) :
      quoted q cs = blockStringBody q (q = '"') rest := by
    rw [quoted, h]
    exact if_pos rfl
  have hline (h : ∀ rest, cs ≠ q :: q :: rest) :
      quoted q cs = lineString q (q = '"') [] 0 cs := by
    refine if_neg fun htake => h (cs.drop 2) ?_
    nth_rewrite 1 [← List.take_append_drop 2 cs]
    rw [htake]
    rfl
  unfold value
  rcases hq with rfl | rfl
  · split
    case h_1 rest heq => rw [hopen rest (List.cons.inj heq).2]; rfl
    case h_2 rest hne heq =>
      obtain ⟨-, rfl⟩ := List.cons.inj heq
      rw [hline fun rest h => hne rest (by rw [h])]; rfl
    case h_7 hne _ _ _ _ => exact (hne _ rfl).elim
    all_goals
      rename_i heq
      exact absurd (List.cons.inj heq).1 (by decide)
  · split
    case h_3 rest heq => rw [hopen rest (List.cons.inj heq).2]; rfl
    case h_4 rest hne heq =>
      obtain ⟨-, rfl⟩ := List.cons.inj heq
      rw [hline fun rest h => hne rest (by rw [h])]; rfl
    case h_7 hne _ _ => exact (hne _ rfl).elim
    all_goals
      rename_i heq
      exact absurd (List.cons.inj heq).1 (by decide)

/-- What begins with neither a quote nor a bracket is a word. -/
theorem value_plain {levels : Nat} (h : ∀ c ∈ cs.head?, c ∉ ['"', '\'', '[', '\x7b']) :
    value fuel levels cs = (orFault (atomValue cs)).map fun p => (locate cs p.2 p.1, p.2) := by
  unfold value
  split
  case h_7 => rfl
  all_goals exact absurd (h _ rfl) (by decide)

theorem isAtom_of_moment {v : Value} (h : moment cs = some v) : v.isAtom := by
  unfold moment at h
  dsimp only at h
  split at h
  · obtain rfl := Option.some.inj h
    rfl
  · cases h

theorem isAtom_of_integer {v : Value} (h : integer cs = some v) : v.isAtom := by
  unfold integer at h
  split at h
  all_goals
    obtain ⟨n, -, rfl⟩ := Option.map_eq_some_iff.mp h
    rfl

theorem isAtom_nearest (negative : Bool) (significand : Nat) (exponent : Int) :
    (nearest negative significand exponent).isAtom := by
  have hcases {p : Prop} [Decidable p] {v w : Value} (hv : v.isAtom) (hw : w.isAtom) :
      (if p then v else w).isAtom := by
    split
    · exact hv
    · exact hw
  exact hcases rfl rfl

theorem isAtom_of_real {v : Value} (h : real cs = some v) : v.isAtom := by
  unfold real at h
  dsimp only at h
  split at h
  · obtain rfl := Option.some.inj h
    rfl
  split at h
  · obtain rfl := Option.some.inj h
    rfl
  split at h
  all_goals
    obtain ⟨exponent, -, h⟩ := Option.bind_eq_some_iff.mp h
    obtain ⟨whole, -, h⟩ := Option.bind_eq_some_iff.mp h
    split at h
    all_goals
      obtain ⟨fraction, -, h⟩ := Option.bind_eq_some_iff.mp h
      obtain ⟨significand, -, h⟩ := Option.bind_eq_some_iff.mp h
      obtain rfl := Option.some.inj h
      exact isAtom_nearest _ _ _

theorem isAtom_of_atom {v : Value} (h : atom cs = some v) : v.isAtom := by
  unfold atom at h
  split at h
  · obtain rfl := Option.some.inj h
    rfl
  split at h
  · obtain rfl := Option.some.inj h
    rfl
  rcases Option.or_eq_some_iff.mp h with h | ⟨-, h⟩
  · exact isAtom_of_integer h
  rcases Option.or_eq_some_iff.mp h with h | ⟨-, h⟩
  · exact isAtom_of_real h
  · exact isAtom_of_moment h

theorem isAtom_of_atomValue {v : Value} (h : atomValue cs = some (v, rest)) : v.isAtom := by
  rw [atomValue_eq] at h
  split at h
  · obtain ⟨w, hmoment, heq⟩ := Option.map_eq_some_iff.mp h
    obtain ⟨rfl, rfl⟩ := Prod.mk.inj heq
    exact isAtom_of_moment hmoment
  · obtain ⟨w, hatom, heq⟩ := Option.map_eq_some_iff.mp h
    obtain ⟨rfl, rfl⟩ := Prod.mk.inj heq
    exact isAtom_of_atom hatom

theorem atomValue_shorter {v : Value} (h : atomValue cs = some (v, rest)) :
    rest.length < cs.length := by
  rw [atomValue_eq] at h
  have hlength := congrArg List.length (List.takeWhile_append_dropWhile (p := isAtomChar) (l := cs))
  rw [List.length_append] at hlength
  cases hdated : dated (cs.takeWhile isAtomChar) (cs.dropWhile isAtomChar) with
  | none =>
    rw [hdated] at h
    obtain ⟨w, hatom, heq⟩ := Option.map_eq_some_iff.mp h
    obtain ⟨rfl, rfl⟩ := Prod.mk.inj heq
    have hne : 0 < (cs.takeWhile isAtomChar).length := List.length_pos_iff.mpr fun hnil => by
      rw [hnil, show atom [] = none from rfl] at hatom
      cases hatom
    omega
  | some found =>
    rw [hdated] at h
    obtain ⟨w, -, heq⟩ := Option.map_eq_some_iff.mp h
    obtain ⟨rfl, rfl⟩ := Prod.mk.inj heq
    obtain ⟨time, htime, -⟩ := dated_eq_some hdated
    rw [htime] at hlength
    simp only [List.length_cons, List.length_append] at hlength
    omega

/-- A value without brackets is read as before, whatever other text may follow. -/
theorem value_local {levels : Nat} {v : Located} (hcs : ∀ c ∈ cs.head?, c ≠ '[' ∧ c ≠ '\x7b')
    (h : value fuel levels cs = .ok (v, rest)) :
    ∃ taken w, cs = taken ++ rest ∧ rest.length < cs.length ∧ w.isAtom ∧ v = locate cs rest w ∧
      ∀ fuel' levels' rest', Kin rest rest' → value fuel' levels' (taken ++ rest')
        = .ok (locate (taken ++ rest') rest' w, rest') := by
  by_cases hq : ∃ q text, cs = q :: text ∧ (q = '"' ∨ q = '\'')
  · obtain ⟨q, text, rfl, hq⟩ := hq
    rw [value_quoted hq] at h
    obtain ⟨⟨s, rest⟩, hread, heq⟩ := orFault_map_eq_ok h
    obtain ⟨rfl, rfl⟩ := Prod.mk.inj heq
    obtain ⟨taken, rfl, hread'⟩ := local_quoted q hread
    have hlength : rest.length < (q :: (taken ++ rest)).length := by
      rw [List.length_cons, List.length_append]
      omega
    refine ⟨q :: taken, .text s, rfl, hlength, rfl, rfl, fun fuel' levels' rest' hkin => ?_⟩
    rw [List.cons_append, value_quoted hq, hread' rest' hkin]
    rfl
  · have hplain : ∀ c ∈ cs.head?, c ∉ ['"', '\'', '[', '\x7b'] := fun c hc => by
      obtain ⟨text, rfl⟩ := List.head?_eq_some_iff.mp hc
      have hq' : ¬(c = '"' ∨ c = '\'') := fun hq' => hq ⟨c, text, rfl, hq'⟩
      obtain ⟨hlist, htable⟩ := hcs c rfl
      simp [not_or.mp hq', hlist, htable]
    rw [value_plain hplain] at h
    obtain ⟨⟨w, rest⟩, hread, heq⟩ := orFault_map_eq_ok h
    obtain ⟨rfl, rfl⟩ := Prod.mk.inj heq
    obtain ⟨taken, rfl, hread'⟩ := local_atomValue hread
    have hlength := atomValue_shorter hread
    refine ⟨taken, w, rfl, hlength, isAtom_of_atomValue hread, rfl,
      fun fuel' levels' rest' hkin => ?_⟩
    rw [value_plain, hread' rest' hkin]
    · rfl
    · cases taken with
      | nil => exact absurd hlength (Nat.lt_irrefl _)
      | cons c taken => exact hplain

/-- The value gives way to the string, and every other one without brackets is read as before. -/
theorem keeps_local {levels : Nat} (hcs : ∀ c ∈ cs.head?, c ≠ '[' ∧ c ≠ '\x7b')
    (h : Beside x cs cs') :
    Keeps x true (Alike x) 0 cs (value fuel levels cs) (value fuel' levels cs') := by
  intro v rest hread hne
  obtain ⟨taken, w, rfl, hlength, hw, rfl, hread'⟩ := value_local hcs hread
  by_cases hold : taken ++ rest = x.old
  · rw [hold] at h hlength ⊢
    obtain rfl := h.at_old
    by_cases hhole : locate x.old rest w = x.hole
    · obtain rfl : rest = x.behind := congrArg (fun v : Located => v.1.stop) hhole
      rw [hhole]
      refine .together (x.reads fuel' levels) (.behind x.shorter) (.exchanged _) ?_
        (Nat.le_of_lt x.shorter)
      rw [due_eq_zero x.shorter, due_eq_one (Nat.le_refl _)]
    · exact .passed (.atom ⟨[], []⟩ hw hhole) (Nat.le_refl _) hlength
  · have hhole (rest' : List Char) : locate (taken ++ rest) rest' w ≠ x.hole :=
      fun heq => hold (congrArg (fun v : Located => v.1.start) heq)
    have houtcome : Outcome x (Carry 0 (Alike x 0)) 0 (taken ++ rest) (value fuel' levels cs')
        (locate (taken ++ rest) rest w) rest := by
      exact .of_taken h due_le_one (.atom _ hw (hhole rest)) fun rest' hrest =>
        ⟨_, hread' fuel' levels rest' (hrest.kin (hne rfl)), .atom _ hw (hhole rest)⟩
    refine houtcome.imp ?_
    rintro n v v' ⟨rfl, hv⟩
    exact hv

/-- Values keep together, whatever they are made of. -/
theorem follows_value (hfuel : fuel ≤ fuel') (levels : Nat) :
    Follows x (value fuel levels) (value fuel' levels) := by
  -- a bracket opens a list or a table, unless no level is left
  have hopen {levels : Nat}
      (hlist : ∀ {cs cs'}, Beside x cs cs' → Keeps x true (Alike x) 0 ('[' :: cs)
        (value fuel levels ('[' :: cs)) (value fuel' levels ('[' :: cs')))
      (htable : ∀ {cs cs'}, Beside x cs cs' → Keeps x true (Alike x) 0 ('\x7b' :: cs)
        (value fuel levels ('\x7b' :: cs)) (value fuel' levels ('\x7b' :: cs'))) :
      Follows x (value fuel levels) (value fuel' levels) := by
    intro cs cs' h
    by_cases hcs : ∃ text, cs = '[' :: text
    · obtain ⟨text, rfl⟩ := hcs
      obtain ⟨text', rfl, htext⟩ := h.cons (by decide)
      exact hlist htext
    by_cases hcs' : ∃ text, cs = '\x7b' :: text
    · obtain ⟨text, rfl⟩ := hcs'
      obtain ⟨text', rfl, htext⟩ := h.cons (by decide)
      exact htable htext
    refine keeps_local (fun c hc => ?_) h
    obtain ⟨text, rfl⟩ := List.head?_eq_some_iff.mp hc
    exact ⟨fun hc => hcs ⟨text, hc ▸ rfl⟩, fun hc => hcs' ⟨text, hc ▸ rfl⟩⟩
  induction levels with
  | zero =>
    refine hopen (fun _ => ?_) fun _ => ?_
    · rw [value]
      exact .error
    · rw [value]
      exact .error
  | succ levels ih =>
    refine hopen (fun {cs cs'} h => ?_) fun {cs cs'} h => ?_
    · rw [value_list, value_list]
      refine Keeps.loosen
        (((keeps_items ih hfuel h).of_longer (Nat.le_succ _)).map fun _ _ hvs => ?_)
      exact .list _ _ false hvs
    · rw [value_table, value_table]
      have hentries := keeps_inlineEntries ih hfuel .nil h due_le_one
      refine Keeps.loosen ((hentries.of_longer (Nat.le_succ _)).map fun _ _ hes => ?_)
      exact .table _ _ .inline hes

end ModelScribe.Toml
