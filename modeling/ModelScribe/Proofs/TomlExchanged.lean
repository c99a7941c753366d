-- A document in which one value gives way to a string. Headers and lines keep
-- together as values do, and with them the whole: either the documents state
-- tables that are alike, or the value is passed over and is no value at all.
import ModelScribe.Proofs.TomlFollowing

namespace ModelScribe.Toml

variable {x : Exchange} {k fuel fuel' limit limit' : Nat} {cs cs' rest rest' : List Char}
  {d d' : Draft}

/-! ## Headers -/

/-- Passes over the second bracket of an item's header. -/
def closing (isItem : Bool) (cs : List Char) : Option (List Char) :=
  if isItem then after ']' cs else some cs

theorem header_eq {isItem : Bool} : header isItem cs rest = (key maxParts rest).bind fun k =>
    (passing (after ']') k.2).bind fun p => (passing (closing isItem) p.2).bind fun p =>
      (passing lineEnd p.2).map fun q =>
        ({ path := k.1.1, last := k.1.2, isItem, extent := ⟨cs, p.2⟩ }, q.2) := by
  unfold header passing closing
  cases key maxParts rest with
  | error => rfl
  | ok k =>
    simp only [bind, Except.bind]
    cases after ']' k.2 with
    | none => rfl
    | some rest =>
      simp only [orFault, Except.map]
      cases isItem with
      | false => simp only [Bool.false_eq_true, if_false]; cases lineEnd rest <;> rfl
      | true =>
        simp only [if_pos]
        cases after ']' rest with
        | none => rfl
        | some rest => dsimp only; cases lineEnd rest <;> rfl

theorem passes_closing (isItem : Bool) : Passes x (closing isItem) := by
  cases isItem with
  | true => exact passes_after ']'
  | false => exact fun h _ => .done h ⟨rfl, trivial⟩

theorem keeps_header (isItem : Bool) (start start' : List Char) (h : Beside x cs cs')
    (hk : k + x.due cs ≤ 1) :
    Keeps x false (Carry k SameHeader) k cs (header isItem start cs)
      (header isItem start' cs') := by
  rw [header_eq, header_eq]
  refine (keeps_key h hk).bind_loose hk (fun a => ?_) fun hR hrest hdue _ => ?_
  · simp only [passing, orFault, Except.map, Except.bind, after_old (c := ']') rfl]
  obtain ⟨rfl, hpath, hlast⟩ := hR
  refine (passes_after ']' hrest hdue).bind hdue fun hR hrest hdue' _ => ?_
  obtain ⟨rfl, -⟩ := hR
  refine (passes_closing isItem hrest hdue').bind hdue' fun hR hrest hdue₂ _ => ?_
  obtain ⟨rfl, -⟩ := hR
  exact (passes_lineEnd hrest hdue₂).map fun _ _ hR => ⟨hR.1, hpath, hlast, rfl⟩

/-! ## Lines -/

/-- The lines of a document, as a reader that leaves nothing behind. -/
def linesOf (limit fuel : Nat) (d : Draft) (cs : List Char) : Except Fault (Draft × List Char) :=
  (lines limit fuel d cs).map fun d => (d, [])

/-- A header, and the lines behind it. -/
def linesOpened (limit fuel : Nat) (d : Draft) (isItem : Bool) (cs rest : List Char) :
    Except Fault (Draft × List Char) :=
  (header isItem cs rest).bind fun h =>
    (d.close.bind (Draft.openTable h.1)).bind fun d => linesOf limit fuel d h.2

/-- An entry, and the lines behind it. -/
def linesEntered (limit fuel : Nat) (d : Draft) (cs : List Char) :
    Except Fault (Draft × List Char) :=
  (keyed (value limit maxLevels) (some ∘ skipSpace) d.current cs).bind fun es =>
    (passing lineEnd es.2).bind fun p => linesOf limit fuel { d with current := es.1 } p.2

/-- The lines of a document from the next solid character on. -/
def linesFrom (limit fuel : Nat) (d : Draft) (cs : List Char) : Except Fault (Draft × List Char) :=
  match cs with
  | [] => .ok (d, [])
  | '[' :: '[' :: rest => linesOpened limit fuel d true ('[' :: '[' :: rest) rest
  | '[' :: rest => linesOpened limit fuel d false ('[' :: rest) rest
  | cs => linesEntered limit fuel d cs

theorem linesFrom_table (h : ∀ rest', rest ≠ '[' :: rest') :
    linesFrom limit fuel d ('[' :: rest) = linesOpened limit fuel d false ('[' :: rest) rest := by
  unfold linesFrom
  split
  case h_1 heq => cases heq
  case h_2 heq => exact absurd (List.cons.inj heq).2 (h _)
  case h_3 heq => rw [← (List.cons.inj heq).2]
  case h_4 hopen => exact absurd rfl (hopen _)

theorem linesFrom_entry (hne : cs ≠ []) (h : ∀ rest, cs ≠ '[' :: rest) :
    linesFrom limit fuel d cs = linesEntered limit fuel d cs := by
  unfold linesFrom
  split
  · exact absurd rfl hne
  · exact absurd rfl (h _)
  · exact absurd rfl (h _)
  · rfl

theorem map_opened {isItem : Bool} : Except.map (fun d => (d, []))
    (do
      let (h, rest) ← header isItem cs rest
      lines limit fuel (← Draft.openTable h (← d.close)) rest)
    = linesOpened limit fuel d isItem cs rest := by
  unfold linesOpened linesOf
  cases header isItem cs rest with
  | error => rfl
  | ok h =>
    cases d.close with
    | error => rfl
    | ok root =>
      simp only [bind, Except.bind]
      cases Draft.openTable h.1 root <;> rfl

theorem map_entered : Except.map (fun d => (d, []))
    (do
      let (current, rest) ← keyed (value limit maxLevels) (some ∘ skipSpace) d.current cs
      lines limit fuel { d with current } (← orFault (lineEnd rest)))
    = linesEntered limit fuel d cs := by
  unfold linesEntered linesOf passing
  cases keyed (value limit maxLevels) (some ∘ skipSpace) d.current cs with
  | error => rfl
  | ok es =>
    simp only [bind, Except.bind]
    cases lineEnd es.2 <;> rfl

theorem linesOf_eq : linesOf limit (fuel + 1) d cs
    = (passing (skipLines false) cs).bind fun p => linesFrom limit fuel d p.2 := by
  rw [linesOf, lines, passing]
  cases skipLines false cs with
  | none => rfl
  | some start =>
    change _ = linesFrom limit fuel d start
    split
    case h_1 heq => cases heq
    case h_2 heq =>
      obtain rfl := Option.some.inj heq
      rfl
    case h_3 heq =>
      obtain rfl := Option.some.inj heq
      exact map_opened
    case h_4 rest hopen heq =>
      obtain rfl := Option.some.inj heq
      rw [linesFrom_table fun rest' h => hopen rest' (by rw [h])]
      exact map_opened
    case h_5 hend hitem htable heq =>
      obtain rfl := Option.some.inj heq
      rw [linesFrom_entry hend htable]
      exact map_entered

/-- A header opens tables that are alike, once those before it are closed. -/
theorem keeps_opened {isItem : Bool} {start start' : List Char}
    (hlines : ∀ {k d d' cs cs'}, DraftAlike x k d d' → Beside x cs cs' → k + x.due cs ≤ 1 →
      Keeps x false (DraftAlike x) k cs (linesOf limit fuel d cs) (linesOf limit' fuel' d' cs'))
    (hd : DraftAlike x k d d') (h : Beside x cs cs') (hk : k + x.due cs ≤ 1) :
    Keeps x false (DraftAlike x) k cs (linesOpened limit fuel d isItem start cs)
      (linesOpened limit' fuel' d' isItem start' cs') := by
  refine (keeps_header isItem start start' h hk).bind hk fun hR hrest hdue _ => ?_
  obtain ⟨rfl, hsame⟩ := hR
  refine Keeps.on fun hopen => ?_
  obtain ⟨root, hclose, hopen⟩ := bind_eq_ok hopen
  obtain ⟨root', hclose', hroot⟩ := hd.close hclose
  obtain ⟨opened, hopened, halike⟩ := DraftAlike.openTable hsame hroot hopen
  exact ⟨opened, by rw [hclose']; exact hopened, hlines halike hrest hdue⟩

/-- An entry goes into the table that is open. -/
theorem keeps_entered (hlimit : limit ≤ limit')
    (hlines : ∀ {k d d' cs cs'}, DraftAlike x k d d' → Beside x cs cs' → k + x.due cs ≤ 1 →
      Keeps x false (DraftAlike x) k cs (linesOf limit fuel d cs) (linesOf limit' fuel' d' cs'))
    (hd : DraftAlike x k d d') (h : Beside x cs cs') (hk : k + x.due cs ≤ 1) :
    Keeps x false (DraftAlike x) k cs (linesEntered limit fuel d cs)
      (linesEntered limit' fuel' d' cs') := by
  have hkeyed := keeps_keyed (follows_value (x := x) hlimit maxLevels) passes_skipSpace
    (congrArg some skipSpace_old) h hk
    (S := fun n es es' => DraftAlike x n { d with current := es } { d' with current := es' })
    fun hsame hv => hd.insert hsame.1 hsame.2 hv
  refine hkeyed.bind_loose hk (fun es => ?_) fun hes hrest hdue _ => ?_
  · simp only [passing, lineEnd_old, orFault, Except.map, Except.bind]
  · refine (passes_lineEnd hrest hdue).bind hdue fun hR hrest hdue' _ => ?_
    obtain ⟨rfl, -⟩ := hR
    exact hlines hes hrest hdue'

/-- The lines of both documents keep together. -/
theorem keeps_lines (hlimit : limit ≤ limit') (hfuel : fuel ≤ fuel') (hd : DraftAlike x k d d')
    (h : Beside x cs cs') (hk : k + x.due cs ≤ 1) :
    Keeps x false (DraftAlike x) k cs (linesOf limit fuel d cs) (linesOf limit' fuel' d' cs') := by
  induction fuel generalizing fuel' k d d' cs cs' with
  | zero => exact .error
  | succ fuel ih =>
    obtain ⟨fuel', rfl⟩ : ∃ f, fuel' = f + 1 := ⟨fuel' - 1, by omega⟩
    rw [linesOf_eq, linesOf_eq]
    refine (passes_skipLines h hk).bind hk fun {_ _ _ start start'} hR hrest hdue _ => ?_
    obtain ⟨rfl, -⟩ := hR
    by_cases hend : start = []
    · subst hend
      obtain rfl := hrest.eq_nil
      exact .done hrest hd
    by_cases hopen : ∃ text, start = '[' :: text
    · obtain ⟨text, rfl⟩ := hopen
      obtain ⟨text', rfl, htext⟩ := hrest.cons (by decide)
      have hle : text.length ≤ ('[' :: text).length := Nat.le_succ _
      have hdue' := due_mono (x := x) hle
      by_cases hitem : ∃ inner, text = '[' :: inner
      · obtain ⟨inner, rfl⟩ := hitem
        obtain ⟨inner', rfl, hinner⟩ := htext.cons (by decide)
        have hle' : inner.length ≤ ('[' :: inner).length := Nat.le_succ _
        have hdue₂ := due_mono (x := x) hle'
        exact (keeps_opened (ih (by omega)) hd hinner (by omega)).of_longer (by omega)
      · rw [not_exists] at hitem
        rw [linesFrom_table hitem,
          linesFrom_table (htext.not_cons hitem (by decide) (by decide))]
        exact (keeps_opened (ih (by omega)) hd htext (by omega)).of_longer hle
    · rw [not_exists] at hopen
      have hend' : start' ≠ [] := by
        have hle := hrest.length_le
        have hpos := List.length_pos_iff.mpr hend
        exact List.length_pos_iff.mp (by omega)
      rw [linesFrom_entry hend hopen,
        linesFrom_entry hend' (hrest.not_cons hopen (by decide) (by decide))]
      exact keeps_entered hlimit (ih (by omega)) hd hrest hdue

/-! ## Documents -/

/-- A document without its byte order mark. -/
def unmarked (document : List Char) : List Char :=
  match document with
  | '\ufeff' :: rest => rest
  | _ => document

theorem parse_eq (document : List Char) : parse document
    = (lines ((unmarked document).length + 1) ((unmarked document).length + 1) {}
      (unmarked document)).bind Draft.close := rfl

theorem unmarked_beside (text : List Char) :
    Beside x (unmarked (text ++ x.old)) (unmarked (text ++ x.new)) := by
  have hsame {document : List Char} (h : ∀ rest, document ≠ '\ufeff' :: rest) :
      unmarked document = document := by
    unfold unmarked
    split
    · exact absurd rfl (h _)
    · rfl
  by_cases hmark : ∃ rest, text = '\ufeff' :: rest
  · obtain ⟨rest, rfl⟩ := hmark
    exact .before rest
  · have hold (rest : List Char) : text ++ x.old ≠ '\ufeff' :: rest := by
      cases text with
      | nil => exact old_ne rfl rest
      | cons c text => exact fun heq => hmark ⟨text, by rw [(List.cons.inj heq).1]⟩
    rw [hsame hold, hsame ((Beside.before text).not_cons hold (by decide) (by decide))]
    exact .before text

/-- The documents state tables that are alike, or the value is passed over. -/
theorem parse_alike (text : List Char) {es : Entries} (h : parse (text ++ x.old) = .ok es) :
    (∃ es', AlikeEntries x 0 es es') ∨
      ∃ n es', n ≤ 1 ∧ parse (text ++ x.new) = .ok es' ∧ AlikeEntries x n es es' := by
  have hbeside := unmarked_beside (x := x) text
  have hlength := hbeside.length_le
  rw [parse_eq] at h ⊢
  generalize unmarked (text ++ x.old) = cs at h hbeside hlength
  generalize unmarked (text ++ x.new) = cs' at hbeside hlength ⊢
  obtain ⟨d, hlines, hclose⟩ := bind_eq_ok h
  have hread : linesOf (cs.length + 1) (cs.length + 1) {} cs = .ok (d, []) := by
    rw [linesOf, hlines]
    rfl
  have hkeeps := keeps_lines (Nat.succ_le_succ hlength) (Nat.succ_le_succ hlength)
    DraftAlike.initial hbeside due_le_one
  cases hkeeps.outcome hread with
  | @together n d' rest' hother hrest hd hdue =>
    obtain ⟨d', hlines', heq⟩ := map_eq_ok hother
    obtain ⟨rfl, -⟩ := Prod.mk.inj heq
    obtain ⟨es', hclose', hes⟩ := hd.close hclose
    have hone : 0 + x.due cs ≤ 1 := due_le_one
    exact Or.inr ⟨n, es', by omega, by rw [hlines']; exact hclose', hes⟩
  | passed hd =>
    obtain ⟨es', -, hes⟩ := hd.close hclose
    exact Or.inl ⟨es', hes⟩

end ModelScribe.Toml
