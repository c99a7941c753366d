-- Two documents read side by side. They are the same but for one value that
-- gives way to a string. Before the value the readers go on alike, and so
-- they do behind it; where one of them passes over the value without taking
-- it as one, nothing that it yields holds the value.
import ModelScribe.Proofs.TomlAlike
import ModelScribe.Proofs.TomlLexemes

namespace ModelScribe.Toml

variable {x : Exchange} {k : Nat} {cs cs' rest : List Char} {α β γ : Type}

/-! ## Places -/

/-- The same place in both documents. -/
inductive Beside (x : Exchange) : List Char → List Char → Prop
  | before (text : List Char) : Beside x (text ++ x.old) (text ++ x.new)
  | behind {cs : List Char} (h : cs.length < x.old.length) : Beside x cs cs

/-- How often the value is still to come. -/
def Exchange.due (x : Exchange) (cs : List Char) : Nat :=
  if x.old.length ≤ cs.length then 1 else 0

theorem due_eq_one (h : x.old.length ≤ cs.length) : x.due cs = 1 := if_pos h

theorem due_eq_zero (h : cs.length < x.old.length) : x.due cs = 0 := if_neg (Nat.not_le.mpr h)

theorem due_le_one : 0 + x.due cs ≤ 1 := by
  unfold Exchange.due
  split <;> omega

theorem due_mono (h : rest.length ≤ cs.length) : x.due rest ≤ x.due cs := by
  unfold Exchange.due
  split <;> split <;> omega

theorem Exchange.exists_old (x : Exchange) : ∃ c text, x.old = c :: text ∧ isAtomChar c := by
  obtain ⟨c, hhead, hc⟩ := x.begins
  obtain ⟨text, htext⟩ := List.head?_eq_some_iff.mp hhead
  exact ⟨c, text, htext, hc⟩

theorem Exchange.exists_new (x : Exchange) :
    ∃ q text, x.new = q :: text ∧ (q = '"' ∨ q = '\'') := by
  obtain ⟨q, hhead, hq⟩ := x.quoted
  obtain ⟨text, htext⟩ := List.head?_eq_some_iff.mp hhead
  exact ⟨q, text, htext, hq⟩

theorem isSolid_of_isAtomChar {c : Char} (h : isAtomChar c) : isSolid c := by
  have hnone : ∀ d ∈ [' ', '\t', '\n', '\r', '#'], isAtomChar d = false := by
    intro d hd
    simp only [List.mem_cons, List.not_mem_nil, or_false] at hd
    obtain rfl | rfl | rfl | rfl | rfl := hd <;> rfl
  have hne : ∀ d ∈ [' ', '\t', '\n', '\r', '#'], c ≠ d := by
    rintro d hd rfl
    rw [hnone c hd] at h
    cases h
  simp only [List.forall_mem_cons] at hne
  simp [isSolid, isGap, isSpace, hne]

namespace Beside

variable {c : Char}

theorem length_le (h : Beside x cs cs') : cs.length ≤ cs'.length := by
  have hlonger := x.longer
  cases h with
  | before text =>
    rw [List.length_append, List.length_append]
    omega
  | behind => exact Nat.le_refl _

theorem eq_nil (h : Beside x [] cs') : cs' = [] := by
  generalize hcs : [] = cs at h
  cases h with
  | behind => rfl
  | before text =>
    obtain ⟨c, old, hold, -⟩ := x.exists_old
    rw [hold] at hcs
    exact absurd hcs.symm (List.append_ne_nil_of_right_ne_nil _ (List.cons_ne_nil c old))

theorem at_old (h : Beside x x.old cs') : cs' = x.new := by
  generalize hcs : x.old = cs at h
  cases h with
  | behind h => exact absurd (hcs ▸ h) (Nat.lt_irrefl _)
  | before text =>
    have hlength := congrArg List.length hcs
    rw [List.length_append] at hlength
    obtain rfl : text = [] := List.length_eq_zero_iff.mp (by omega)
    rfl

/-- What no value begins with stands at the same place in both documents. -/
theorem cons (h : Beside x (c :: rest) cs') (hc : isAtomChar c = false) :
    ∃ rest', cs' = c :: rest' ∧ Beside x rest rest' := by
  generalize hcs : c :: rest = cs at h
  cases h with
  | behind h =>
    subst hcs
    exact ⟨rest, rfl, .behind (by simp at h; omega)⟩
  | before text =>
    cases text with
    | nil =>
      obtain ⟨d, old, hold, hd⟩ := x.exists_old
      rw [List.nil_append, hold] at hcs
      rw [(List.cons.inj hcs).1, hd] at hc
      cases hc
    | cons d text =>
      obtain ⟨rfl, rfl⟩ := List.cons.inj hcs
      exact ⟨_, rfl, .before text⟩

/-- Where another character stands, or none, none but a quote can stand in the other document. -/
theorem not_cons (h : Beside x cs cs') (hcs : ∀ rest, cs ≠ c :: rest) (hc : c ≠ '"')
    (hc' : c ≠ '\'') (rest : List Char) : cs' ≠ c :: rest := by
  cases h with
  | behind => exact hcs rest
  | before text =>
    cases text with
    | nil =>
      obtain ⟨q, new, hnew, hq⟩ := x.exists_new
      rw [List.nil_append, hnew]
      intro heq
      rcases hq with rfl | rfl
      · exact hc (List.cons.inj heq).1.symm
      · exact hc' (List.cons.inj heq).1.symm
    | cons d text =>
      intro heq
      obtain ⟨rfl, rfl⟩ := List.cons.inj heq
      exact hcs _ rfl

/-- Somewhere else than right before the value, no lexeme can tell the documents apart. -/
theorem kin (h : Beside x cs cs') (hne : cs ≠ x.old) : Kin cs cs' := by
  cases h with
  | behind => exact .refl _
  | before text =>
    cases text with
    | nil => exact absurd rfl hne
    | cons c text =>
      refine ⟨rfl, ?_⟩
      cases text with
      | nil =>
        obtain ⟨q, new, hnew, hq⟩ := x.exists_new
        have hdigit : q.isDigit = false := by rcases hq with rfl | rfl <;> rfl
        simp [hnew, hdigit]
      | cons => exact id

end Beside

/-! ## Readings -/

/-- What one reading yields, beside the other. The value has gone in `k` times before. -/
inductive Outcome (x : Exchange) (R : Nat → β → β → Prop) (k : Nat) (cs : List Char)
    (other : Except Fault (β × List Char)) (b : β) (rest : List Char) : Prop
  /-- Both end at the same place and yield the same, but for the value. -/
  | together {m : Nat} {b' : β} {rest' : List Char} (hother : other = .ok (b', rest'))
    (hrest : Beside x rest rest') (hR : R m b b') (hdue : m + x.due rest ≤ k + x.due cs)
    (hle : rest.length ≤ cs.length)
  /-- The one has passed over the value, and holds nothing of it. -/
  | passed {b' : β} (hR : R 0 b b') (hcs : x.old.length ≤ cs.length)
    (hrest : rest.length < x.old.length)

theorem Outcome.imp {R S : Nat → β → β → Prop} {other : Except Fault (β × List Char)} {b : β}
    (h : Outcome x R k cs other b rest) (hRS : ∀ {n b b'}, R n b b' → S n b b') :
    Outcome x S k cs other b rest := by
  cases h with
  | together hother hrest hR hdue hle => exact .together hother hrest (hRS hR) hdue hle
  | passed hR hcs hrest => exact .passed (hRS hR) hcs hrest

/-- The readings keep together, or one passes over the value. A `loose` one may also end right
before it. -/
def Keeps (x : Exchange) (loose : Bool) (R : Nat → β → β → Prop) (k : Nat) (cs : List Char)
    (one other : Except Fault (β × List Char)) : Prop :=
  ∀ b rest, one = .ok (b, rest) → (loose → rest ≠ x.old) → Outcome x R k cs other b rest

namespace Keeps

variable {loose : Bool} {R : Nat → α → α → Prop} {S : Nat → β → β → Prop}
  {one other : Except Fault (α × List Char)}

theorem outcome {b : α} (h : Keeps x false R k cs one other) (hone : one = .ok (b, rest)) :
    Outcome x R k cs other b rest :=
  h b rest hone fun hfalse => by cases hfalse

theorem loosen (h : Keeps x false R k cs one other) : Keeps x loose R k cs one other :=
  fun _ _ hone _ => h.outcome hone

theorem bind_of_stuck {loose' : Bool} {next next' : α × List Char → Except Fault (β × List Char)}
    (h : Keeps x loose' R k cs one other) (hk : k + x.due cs ≤ 1)
    (hstuck : loose' → ∀ a, next (a, x.old) = .error none)
    (hnext : ∀ {m a a' rest rest'}, R m a a' → Beside x rest rest' → m + x.due rest ≤ 1 →
      rest.length ≤ cs.length → Keeps x loose S m rest (next (a, rest)) (next' (a', rest'))) :
    Keeps x loose S k cs (one.bind next) (other.bind next') := by
  intro b rest₂ hb hloose
  obtain ⟨⟨a, rest⟩, hone, hb⟩ := bind_eq_ok hb
  have hne : loose' → rest ≠ x.old := fun hl he => by
    rw [he, hstuck hl a] at hb
    cases hb
  cases h a rest hone hne with
  | @together m a' rest' hother hrest hR hdue hle =>
    have hother' : other.bind next' = next' (a', rest') := by rw [hother]; rfl
    cases hnext hR hrest (by omega) hle b rest₂ hb hloose with
    | together hother₂ hrest₂ hS hdue₂ hle₂ =>
      exact .together (hother'.trans hother₂) hrest₂ hS (by omega) (by omega)
    | passed hS hcs₂ hrest₂ => exact .passed hS (by omega) hrest₂
  | passed hR hcs hrest =>
    have hzero := due_eq_zero hrest
    -- what follows is the same text for both
    cases hnext hR (.behind hrest) (by omega) (by omega) b rest₂ hb hloose with
    | @together m _ _ _ hrest₂ hS hdue₂ hle₂ =>
      obtain rfl : m = 0 := by omega
      exact .passed hS hcs (by omega)
    | passed _ hcs₂ => omega

/-- One reading after the other. -/
theorem bind {next next' : α × List Char → Except Fault (β × List Char)}
    (h : Keeps x false R k cs one other) (hk : k + x.due cs ≤ 1)
    (hnext : ∀ {m a a' rest rest'}, R m a a' → Beside x rest rest' → m + x.due rest ≤ 1 →
      rest.length ≤ cs.length → Keeps x loose S m rest (next (a, rest)) (next' (a', rest'))) :
    Keeps x loose S k cs (one.bind next) (other.bind next') :=
  h.bind_of_stuck hk (fun hfalse => by cases hfalse) hnext

/-- A loose reading is not followed by another if it ends before the value. -/
theorem bind_loose {next next' : α × List Char → Except Fault (β × List Char)}
    (h : Keeps x true R k cs one other) (hk : k + x.due cs ≤ 1)
    (hstuck : ∀ a, next (a, x.old) = .error none)
    (hnext : ∀ {m a a' rest rest'}, R m a a' → Beside x rest rest' → m + x.due rest ≤ 1 →
      rest.length ≤ cs.length → Keeps x loose S m rest (next (a, rest)) (next' (a', rest'))) :
    Keeps x loose S k cs (one.bind next) (other.bind next') :=
  h.bind_of_stuck hk (fun _ => hstuck) hnext

/-- What is done with the result of a reading, without reading on. -/
theorem follow {f f' : α × List Char → Except Fault β} (h : Keeps x loose R k cs one other)
    (hf : ∀ {n a a' b} rest rest', R n a a' → f (a, rest) = .ok b →
      ∃ b', f' (a', rest') = .ok b' ∧ S n b b') :
    Keeps x loose S k cs (one.bind fun p => (f p).map fun b => (b, p.2))
      (other.bind fun p => (f' p).map fun b => (b, p.2)) := by
  intro b rest hb hloose
  obtain ⟨⟨a, rest⟩, hone, hb⟩ := bind_eq_ok hb
  obtain ⟨b, hfa, heq⟩ := map_eq_ok hb
  obtain ⟨rfl, rfl⟩ := Prod.mk.inj heq
  cases h a rest hone hloose with
  | @together m a' rest' hother hrest hR hdue hle =>
    obtain ⟨b', hfa', hS⟩ := hf rest rest' hR hfa
    refine .together ?_ hrest hS hdue hle
    rw [hother]
    simp only [Except.bind, hfa', Except.map]
  | passed hR hcs hrest =>
    obtain ⟨b', -, hS⟩ := hf rest rest hR hfa
    exact .passed hS hcs hrest

theorem map {f f' : α × List Char → β} (h : Keeps x loose R k cs one other)
    (hf : ∀ {n a a'} rest rest', R n a a' → S n (f (a, rest)) (f' (a', rest'))) :
    Keeps x loose S k cs (one.map fun p => (f p, p.2)) (other.map fun p => (f' p, p.2)) := by
  have hmap (f : α × List Char → β) (r : Except Fault (α × List Char)) :
      r.map (fun p => (f p, p.2)) = r.bind fun p => (Except.ok (f p)).map fun b => (b, p.2) := by
    cases r <;> rfl
  rw [hmap, hmap]
  refine h.follow fun rest rest' hR hok => ⟨_, rfl, ?_⟩
  obtain rfl := Except.ok.inj hok
  exact hf rest rest' hR

theorem of_longer {ds : List Char} (h : Keeps x loose R k cs one other)
    (hle : cs.length ≤ ds.length) : Keeps x loose R k ds one other := by
  intro b rest hb hloose
  have hdue := due_mono (x := x) hle
  cases h b rest hb hloose with
  | together hother hrest hR hdue' hle' => exact .together hother hrest hR (by omega) (by omega)
  | passed hR hcs hrest => exact .passed hR (by omega) hrest

/-- What has gone in before is added. -/
theorem shift {m : Nat} (h : Keeps x loose R 0 cs one other) (hm : m + x.due cs ≤ 1) :
    Keeps x loose (fun n a a' => ∃ p, n = p + m ∧ R p a a') m cs one other := by
  intro b rest hb hloose
  cases h b rest hb hloose with
  | together hother hrest hR hdue hle =>
    exact .together hother hrest ⟨_, rfl, hR⟩ (by omega) hle
  | passed hR hcs hrest =>
    have hone := due_eq_one hcs
    exact .passed ⟨0, by omega, hR⟩ hcs hrest

/-- Nothing is read any more. -/
theorem done {b b' : β} {rest' : List Char} (hrest : Beside x rest rest') (h : S k b b') :
    Keeps x loose S k rest (.ok (b, rest)) (.ok (b', rest')) := by
  intro a rest₂ ha _
  obtain ⟨rfl, rfl⟩ := Prod.mk.inj (Except.ok.inj ha)
  exact .together rfl hrest h (Nat.le_refl _) (Nat.le_refl _)

theorem error {fault : Fault} : Keeps x loose R k cs (.error fault) other :=
  fun _ _ herror => by cases herror

/-- What is done before reading on. -/
theorem on {a a' : Except Fault α} {next next' : α → Except Fault (β × List Char)}
    (h : ∀ {b}, a = .ok b → ∃ b', a' = .ok b' ∧ Keeps x loose S k cs (next b) (next' b')) :
    Keeps x loose S k cs (a.bind next) (a'.bind next') := by
  intro b rest hb hloose
  obtain ⟨b₀, rfl, hb⟩ := bind_eq_ok hb
  obtain ⟨b₀', rfl, hkeeps⟩ := h rfl
  exact hkeeps b rest hb hloose

end Keeps

/-! ## Lexemes -/

/-- Nothing goes in. -/
def Carry (k : Nat) (P : α → α → Prop) (n : Nat) (a a' : α) : Prop := n = k ∧ P a a'

/-- What is read from the same text, whatever stands behind it. -/
theorem Outcome.of_taken {P : α → α → Prop} {read : List Char → Except Fault (α × List Char)}
    {taken : List Char} {a : α} (h : Beside x (taken ++ rest) cs')
    (hk : k + x.due (taken ++ rest) ≤ 1) (hrefl : P a a)
    (hread : ∀ rest', Beside x rest rest' →
      ∃ a', read (taken ++ rest') = .ok (a', rest') ∧ P a a') :
    Outcome x (Carry k P) k (taken ++ rest) (read cs') a rest := by
  have htogether {rest'} (hrest : Beside x rest rest') (hcs : cs' = taken ++ rest') :
      Outcome x (Carry k P) k (taken ++ rest) (read cs') a rest := by
    obtain ⟨a', hread', hP⟩ := hread rest' hrest
    have hle : rest.length ≤ (taken ++ rest).length := by simp
    have hdue := due_mono (x := x) hle
    exact .together (hcs ▸ hread') hrest ⟨rfl, hP⟩ (by omega) hle
  generalize hwhole : taken ++ rest = whole at h
  cases h with
  | behind h =>
    refine hwhole ▸ htogether (.behind ?_) hwhole.symm
    rw [← hwhole, List.length_append] at h
    omega
  | before text =>
    rw [← hwhole]
    obtain ⟨more, rfl, rfl⟩ | ⟨more, rfl, hold⟩ := List.append_eq_append_iff.mp hwhole
    · exact htogether (.before more) (List.append_assoc ..)
    · cases more with
      | nil =>
        obtain rfl : x.old = rest := hold
        exact htogether (.before []) (by rw [List.append_nil]; rfl)
      | cons c more =>
        have hlength := congrArg List.length hold
        rw [List.length_append, List.length_cons] at hlength
        have hcs : x.old.length ≤ (text ++ c :: more ++ rest).length := by
          rw [hwhole, List.length_append]
          omega
        have hone := due_eq_one hcs
        exact .passed ⟨by omega, hrefl⟩ hcs (by omega)

/-- A reader that passes over something, as a reader of nothing. -/
def passing (skip : List Char → Option (List Char)) (cs : List Char) :
    Except Fault (Unit × List Char) :=
  (orFault (skip cs)).map fun rest => ((), rest)

/-- The two documents go on together behind what is passed over. -/
abbrev Passes (x : Exchange) (skip : List Char → Option (List Char)) : Prop :=
  ∀ {k cs cs'}, Beside x cs cs' → k + x.due cs ≤ 1 →
    Keeps x false (Carry k fun _ _ => True) k cs (passing skip cs) (passing skip cs')

theorem passing_eq_ok {skip : List Char → Option (List Char)} {u : Unit}
    (h : passing skip cs = .ok (u, rest)) : skip cs = some rest := by
  obtain ⟨_, hskip, heq⟩ := orFault_map_eq_ok h
  rw [hskip, (Prod.mk.inj heq).2]

theorem passing_of_eq_some {skip : List Char → Option (List Char)} (h : skip cs = some rest) :
    ∃ u, passing skip cs = .ok (u, rest) ∧ True :=
  ⟨(), by rw [passing, h]; rfl, trivial⟩

/-- At the end of the document nothing is left to tell the documents apart. -/
theorem Outcome.of_end {P : α → α → Prop} {read : List Char → Except Fault (α × List Char)} {a : α}
    (h : Beside x cs cs') (hk : k + x.due cs ≤ 1) (hread : read cs = .ok (a, [])) (hrefl : P a a) :
    Outcome x (Carry k P) k cs (read cs') a [] := by
  obtain ⟨c, old, hold, -⟩ := x.exists_old
  have hend : ([] : List Char).length < x.old.length := by
    rw [hold]
    exact Nat.succ_pos _
  cases h with
  | behind =>
    exact .together hread (.behind hend) ⟨rfl, hrefl⟩ (by rw [due_eq_zero hend]; omega)
      (Nat.zero_le _)
  | before text =>
    have hcs : x.old.length ≤ (text ++ x.old).length := by simp
    have hone := due_eq_one hcs
    exact .passed ⟨by omega, hrefl⟩ hcs hend

theorem Beside.exists_solid {c : Char} (h : Beside x (c :: rest) cs') (hc : isSolid c) :
    ∃ d rest', cs' = d :: rest' ∧ isSolid d := by
  generalize hcs : c :: rest = cs at h
  cases h with
  | behind => exact ⟨c, rest, hcs.symm, hc⟩
  | before text =>
    cases text with
    | nil =>
      obtain ⟨q, new, hnew, hq⟩ := x.exists_new
      exact ⟨q, new, hnew, by rcases hq with rfl | rfl <;> decide⟩
    | cons d text =>
      obtain ⟨rfl, -⟩ := List.cons.inj hcs
      exact ⟨c, _, rfl, hc⟩

theorem passes_skipLines : Passes x (skipLines false) := by
  intro k cs cs' h hk _ rest hone _
  have hskip := passing_eq_ok hone
  cases rest with
  | nil => exact .of_end h hk hone trivial
  | cons c rest =>
    obtain ⟨hc, taken, rfl, hread⟩ := skipLines_local hskip
    refine .of_taken h hk trivial fun rest' hrest => ?_
    obtain ⟨d, rest', rfl, hd⟩ := hrest.exists_solid hc
    exact passing_of_eq_some (hread d rest' hd)

theorem passes_skipSpace : Passes x (some ∘ skipSpace) := by
  intro k cs cs' h hk _ rest hone _
  have hskip : skipSpace cs = rest := Option.some.inj (passing_eq_ok hone)
  obtain ⟨spaces, hspaces, hread⟩ := skipSpace_local cs
  have hstop : ∀ c ∈ (skipSpace cs).head?, isSpace c = false := stops_dropWhile isSpace cs
  rw [hskip] at hspaces hstop
  subst hspaces
  refine .of_taken h hk trivial fun rest' hrest => passing_of_eq_some ?_
  refine congrArg some (hread rest' ?_)
  cases hrest with
  | behind => exact hstop
  | before text =>
    cases text with
    | nil =>
      obtain ⟨q, new, hnew, hq⟩ := x.exists_new
      rw [List.nil_append, hnew]
      rintro d ⟨⟩
      rcases hq with rfl | rfl <;> decide
    | cons => exact hstop

theorem passes_after (c : Char) : Passes x (after c) := by
  intro k cs cs' h hk _ rest hone _
  obtain rfl := exact_after c (passing_eq_ok hone)
  change Beside x ([c] ++ rest) cs' at h
  exact .of_taken h hk trivial fun rest' _ => passing_of_eq_some (if_pos rfl)

theorem passes_lineEnd : Passes x lineEnd := by
  intro k cs cs' h hk _ rest hone _
  by_cases hne : rest = []
  · subst hne
    exact .of_end h hk hone trivial
  · obtain ⟨taken, rfl, hread⟩ := lineEnd_exact (passing_eq_ok hone) hne
    exact .of_taken h hk trivial fun rest' _ => passing_of_eq_some (hread rest')

theorem keeps_key (h : Beside x cs cs') (hk : k + x.due cs ≤ 1) :
    Keeps x true (Carry k SameKey) k cs (key maxParts cs) (key maxParts cs') := by
  intro a rest hone hne
  obtain ⟨taken, rfl, hread⟩ := key_local hone
  exact .of_taken h hk ⟨rfl, rfl⟩ fun rest' hrest => hread rest' (hrest.kin (hne rfl)).head

end ModelScribe.Toml
