-- Spellings. The two formats write a tree in much the same way: words,
-- decimal digits, strings between quotes, lists between brackets and tables
-- between braces, with commas inside and white space wherever it may stand.
-- What they do not share is kept in a grammar. A tree has many spellings, so
-- this is a relation between trees and texts.
import ModelScribe.Proofs.Tree

namespace ModelScribe

/-! ## Delimiters -/

/-- The characters that no word and no number goes on with. -/
def delimiters : List Char := [' ', '\t', '\n', '\r', ',', ']', '\x7d']

/-- A value that stands before the rest is at its end. -/
def Delimited (rest : List Char) : Prop := ∀ c ∈ rest.head?, c ∈ delimiters

@[simp] theorem delimited_nil : Delimited [] := by simp [Delimited]

@[simp] theorem delimited_cons (c : Char) (rest : List Char) :
    Delimited (c :: rest) ↔ c ∈ delimiters := by simp [Delimited]

theorem delimited_append {cs rest : List Char} (hcs : ∀ c ∈ cs, c ∈ delimiters)
    (hrest : Delimited rest) : Delimited (cs ++ rest) := by
  cases cs with
  | nil => exact hrest
  | cons c cs => exact (delimited_cons ..).mpr (hcs c List.mem_cons_self)

section

variable {α : Type} {p : α → Bool} {xs rest : List α}

/-- What is taken ends where the first other item stands. -/
theorem takeWhile_append_stop (hxs : ∀ x ∈ xs, p x) (hrest : ∀ x ∈ rest.head?, p x = false) :
    (xs ++ rest).takeWhile p = xs := by
  rw [List.takeWhile_append_of_pos hxs]
  cases rest with
  | nil => simp
  | cons x rest => simp [hrest x rfl]

theorem dropWhile_append_stop (hxs : ∀ x ∈ xs, p x) (hrest : ∀ x ∈ rest.head?, p x = false) :
    (xs ++ rest).dropWhile p = rest := by
  rw [List.dropWhile_append_of_pos hxs]
  cases rest with
  | nil => rfl
  | cons x rest => simp [hrest x rfl]

end

section

variable {p : Char → Bool} {cs rest : List Char}

theorem Delimited.stops (h : Delimited rest) (hp : delimiters.all (!p ·)) :
    ∀ c ∈ rest.head?, p c = false :=
  fun c hc => by simpa using List.all_eq_true.mp hp c (h c hc)

theorem Delimited.takeWhile_append (h : Delimited rest) (hp : delimiters.all (!p ·))
    (hcs : ∀ c ∈ cs, p c) : (cs ++ rest).takeWhile p = cs :=
  takeWhile_append_stop hcs (h.stops hp)

theorem Delimited.dropWhile_append (h : Delimited rest) (hp : delimiters.all (!p ·))
    (hcs : ∀ c ∈ cs, p c) : (cs ++ rest).dropWhile p = rest :=
  dropWhile_append_stop hcs (h.stops hp)

end

/-! ## Grammars -/

/-- What one format has of its own. -/
structure Grammar where
  /-- White space around a key, the sign after it and its value. -/
  isBlank : Char → Bool
  /-- White space between the items of a list or a table. -/
  isGap : Char → Bool
  /-- What stands between a key and its value. -/
  sign : Char
  /-- A character of a key without quotes. -/
  isKeyChar : Char → Bool
  /-- The ways in which a character is written between quotes. -/
  spellsChar : Char → List Char → Prop
  /-- There is a word for what is missing. -/
  hasNull : Bool

/-- Chunks one after the other, with commas between them and white space around. `first`
tells that no chunk comes before. -/
inductive Separated (isGap : Char → Bool) : Bool → List (List Char) → List Char → Prop
  | done {first : Bool} {gap : List Char} (hgap : ∀ c ∈ gap, isGap c) :
    Separated isGap first [] gap
  | first {gap chunk rest : List Char} {chunks : List (List Char)} (hgap : ∀ c ∈ gap, isGap c)
    (h : Separated isGap false chunks rest) :
    Separated isGap true (chunk :: chunks) (gap ++ (chunk ++ rest))
  | next {gap gap' chunk rest : List Char} {chunks : List (List Char)}
    (hgap : ∀ c ∈ gap, isGap c) (hgap' : ∀ c ∈ gap', isGap c)
    (h : Separated isGap false chunks rest) :
    Separated isGap false (chunk :: chunks) (gap ++ ',' :: (gap' ++ (chunk ++ rest)))

/-- An entry of a table with the text that it is written as. -/
structure Member where
  key : String
  keyText : List Char
  beforeSign : List Char
  afterSign : List Char
  value : Tree
  valueText : List Char

namespace Member

def entry (m : Member) : String × Tree := (m.key, m.value)

def text (sign : Char) (m : Member) : List Char :=
  m.keyText ++ (m.beforeSign ++ sign :: (m.afterSign ++ m.valueText))

theorem valueText_length_lt (m : Member) (sign : Char) :
    m.valueText.length < (m.text sign).length := by
  simp only [text, List.length_append, List.length_cons]
  omega

theorem within_values {ms : List Member} {levels : Nat}
    (h : (Tree.table (ms.map (·.entry))).Within (levels + 1)) :
    ∀ m ∈ ms, m.value.Within levels :=
  fun m hm => h m.entry (List.mem_map_of_mem hm)

end Member

namespace Grammar

variable (g : Grammar)

/-- A string between quotes: each character in one of its ways. -/
inductive Quotes : String → List Char → Prop
  | intro (pieces : List (Char × List Char)) (h : ∀ p ∈ pieces, g.spellsChar p.1 p.2) :
    Quotes (String.ofList (pieces.map (·.1))) ('"' :: (pieces.flatMap (·.2) ++ ['"']))

inductive SpellsKey : String → List Char → Prop
  | quoted {s : String} {cs : List Char} (h : g.Quotes s cs) : SpellsKey s cs
  | bare {s : String} (hne : s ≠ "") (h : ∀ c ∈ s.toList, g.isKeyChar c) : SpellsKey s s.toList

/-- The key of a member and the white space in it are well written. -/
structure Names (m : Member) : Prop where
  key : g.SpellsKey m.key m.keyText
  before : ∀ c ∈ m.beforeSign, g.isBlank c
  after : ∀ c ∈ m.afterSign, g.isBlank c

/-- The texts that a tree can be written as. Its integers fit in 64 bits, and the keys of a
table in it are pairwise distinct. -/
inductive Spells : Tree → List Char → Prop
  | null (h : g.hasNull) : Spells .null ['n', 'u', 'l', 'l']
  | text {s : String} {cs : List Char} (h : g.Quotes s cs) : Spells (.text s) cs
  | yes : Spells (.flag true) ['t', 'r', 'u', 'e']
  | no : Spells (.flag false) ['f', 'a', 'l', 's', 'e']
  | integer (n : Int) (lower : -2 ^ 63 ≤ n) (upper : n < 2 ^ 63) :
    Spells (.integer n) (Int.repr n).toList
  | list {body : List Char} (parts : List (Tree × List Char))
    (hparts : ∀ p ∈ parts, Spells p.1 p.2)
    (hbody : Separated g.isGap true (parts.map (·.2)) body) :
    Spells (.list (parts.map (·.1))) ('[' :: (body ++ [']']))
  | table {body : List Char} (ms : List Member) (hkeys : (ms.map (·.key)).Nodup)
    (hnames : ∀ m ∈ ms, g.Names m)
    (hvalues : ∀ m ∈ ms, Spells m.value m.valueText)
    (hbody : Separated g.isGap true (ms.map (·.text g.sign)) body) :
    Spells (.table (ms.map (·.entry))) ('\x7b' :: (body ++ ['\x7d']))

end Grammar

/-! ## Digits -/

theorem digits_repr (n : Int) :
    (Int.repr n).toList = (if n < 0 then ['-'] else []) ++ Nat.toDigits 10 n.natAbs := by
  rw [Int.repr_eq_if]
  by_cases h : n < 0
  · rw [if_neg (by omega), if_pos h, String.toList_append, Nat.toList_repr,
      show (-n).toNat = n.natAbs by omega]
    rfl
  · rw [if_pos (by omega), if_neg h, Nat.toList_repr, show n.toNat = n.natAbs by omega]
    rfl

theorem isDigit_of_mem_toDigits {n : Nat} {c : Char} (h : c ∈ Nat.toDigits 10 n) :
    '0' ≤ c ∧ c ≤ '9' := by
  have := Nat.isDigit_of_mem_toDigits (by decide) (by decide) h
  simpa [Char.isDigit, Char.le_def] using this

theorem not_mem_delimiters_of_digit {c : Char} (h : '0' ≤ c ∧ c ≤ '9') : c ∉ delimiters := by
  have hnone : delimiters.all fun c => !('0' ≤ c && c ≤ '9') := by decide
  intro hc
  simpa [h] using List.all_eq_true.mp hnone c hc

/-- Only zero is written with a zero in front. -/
theorem toDigits_eq_zero_cons {n : Nat} {rest : List Char} (h : Nat.toDigits 10 n = '0' :: rest) :
    n = 0 := by
  induction n using Nat.strongRecOn generalizing rest with
  | ind n ih =>
    by_cases hn : n < 10
    · have hzero : ∀ m < 10, Nat.digitChar m = '0' → m = 0 := by decide
      rw [Nat.toDigits_of_lt_base hn] at h
      exact hzero n hn (List.cons.inj h).1
    · rw [Nat.toDigits_of_base_le (by decide) (by omega)] at h
      obtain ⟨c, cs, hcs⟩ :=
        List.exists_cons_of_ne_nil (Nat.toDigits_ne_nil (n := n / 10) (b := 10))
      rw [hcs, List.cons_append] at h
      have := ih (n / 10) (by omega) (hcs.trans (by rw [(List.cons.inj h).1]))
      omega

theorem toDigits_ne_zero_cons_cons {n : Nat} {c : Char} {cs : List Char} :
    Nat.toDigits 10 n ≠ '0' :: c :: cs := by
  intro h
  rw [toDigits_eq_zero_cons h] at h
  simp at h

/-! ## How a value begins -/

/-- A value of this shape can begin with the character. -/
def Tree.BeginsWith (t : Tree) (c : Char) : Prop :=
  match t with
  | .null => c = 'n'
  | .text _ => c = '"'
  | .flag _ => c = 't' ∨ c = 'f'
  | .integer _ => c = '-' ∨ '0' ≤ c ∧ c ≤ '9'
  | .list _ => c = '['
  | .table _ => c = '\x7b'

theorem Tree.BeginsWith.ne {t : Tree} {c d : Char} (h : t.BeginsWith c) (hd : ¬ t.BeginsWith d) :
    c ≠ d := fun he => hd (he ▸ h)

theorem Tree.BeginsWith.not_mem_delimiters {t : Tree} {c : Char} (h : t.BeginsWith c) :
    c ∉ delimiters := by
  cases t with
  | flag => rcases h with rfl | rfl <;> decide
  | integer =>
    rcases h with rfl | h
    · decide
    · exact not_mem_delimiters_of_digit h
  | _ => rw [show c = _ from h]; decide

namespace Grammar

variable {g : Grammar} {t : Tree} {cs : List Char}

theorem Spells.exists_cons (h : g.Spells t cs) : ∃ c rest, cs = c :: rest ∧ t.BeginsWith c := by
  cases h with
  | null => exact ⟨_, _, rfl, rfl⟩
  | text h => cases h with | intro pieces => exact ⟨_, _, rfl, rfl⟩
  | yes => exact ⟨_, _, rfl, Or.inl rfl⟩
  | no => exact ⟨_, _, rfl, Or.inr rfl⟩
  | list => exact ⟨_, _, rfl, rfl⟩
  | table => exact ⟨_, _, rfl, rfl⟩
  | integer n =>
    rw [digits_repr]
    by_cases hn : n < 0
    · rw [if_pos hn]
      exact ⟨_, _, rfl, Or.inl rfl⟩
    · obtain ⟨c, rest, hcs⟩ :=
        List.exists_cons_of_ne_nil (Nat.toDigits_ne_nil (n := n.natAbs) (b := 10))
      have hc : c ∈ Nat.toDigits 10 n.natAbs := hcs ▸ List.mem_cons_self
      rw [if_neg hn, List.nil_append, hcs]
      exact ⟨c, rest, rfl, Or.inr (isDigit_of_mem_toDigits hc)⟩

theorem Spells.length_pos (h : g.Spells t cs) : 0 < cs.length := by
  obtain ⟨c, rest, rfl, -⟩ := h.exists_cons
  simp

end Grammar

/-! ## Chunks -/

/-- Where texts that are not empty all stand, there are no more of them than characters, and
none is longer than the whole. -/
theorem bounds_of_total_le {α : Type} {text : α → List Char} {parts : List α} {size : Nat}
    (h : (parts.map text).flatten.length ≤ size)
    (hpos : ∀ p ∈ parts, 0 < (text p).length) :
    parts.length ≤ size ∧ ∀ p ∈ parts, (text p).length ≤ size := by
  induction parts generalizing size with
  | nil => simp
  | cons p parts ih =>
    simp only [List.map_cons, List.flatten_cons, List.length_append] at h
    obtain ⟨hcount, hlength⟩ := ih (Nat.le_sub_of_add_le' h)
      fun q hq => hpos q (List.mem_cons_of_mem _ hq)
    have hp := hpos p List.mem_cons_self
    refine ⟨by rw [List.length_cons]; omega, List.forall_mem_cons.mpr ⟨by omega, fun q hq => ?_⟩⟩
    exact Nat.le_trans (hlength q hq) (Nat.sub_le ..)

/-- Where members all stand, no value is as long as the whole. -/
theorem Member.bounds_of_total_le {ms : List Member} {sign : Char} {size : Nat}
    (h : (ms.map (·.text sign)).flatten.length ≤ size) :
    ms.length ≤ size ∧ ∀ m ∈ ms, m.valueText.length < size := by
  obtain ⟨hcount, hlength⟩ := ModelScribe.bounds_of_total_le h
    fun m _ => Nat.zero_lt_of_lt (m.valueText_length_lt sign)
  exact ⟨hcount, fun m hm => Nat.lt_of_lt_of_le (m.valueText_length_lt sign) (hlength m hm)⟩

namespace Separated

variable {isGap : Char → Bool} {first : Bool} {body : List Char} {chunks : List (List Char)}

/-- What follows a chunk does not go on with it. -/
theorem delimited (h : Separated isGap false chunks body) (hgap : ∀ c, isGap c → c ∈ delimiters)
    {rest : List Char} (hrest : Delimited rest) : Delimited (body ++ rest) := by
  cases h with
  | done hblank => exact delimited_append (fun c hc => hgap c (hblank c hc)) hrest
  | next hblank =>
    rw [List.append_assoc]
    exact delimited_append (fun c hc => hgap c (hblank c hc)) (by simp [delimiters])

/-- All chunks stand in the text. -/
theorem total_le (h : Separated isGap first chunks body) :
    chunks.flatten.length ≤ body.length := by
  induction h with
  | done => exact Nat.zero_le _
  | first _ _ ih =>
    simp only [List.flatten_cons, List.length_append]
    omega
  | next _ _ _ ih =>
    simp only [List.flatten_cons, List.length_append, List.length_cons]
    omega

end Separated

/-! ## Plain spellings -/

/-- A member with its key between quotes, as it is, and without white space. -/
def Member.tight (key : String) (value : Tree) (valueText : List Char) : Member where
  key := key
  keyText := '"' :: (key.toList ++ ['"'])
  beforeSign := []
  afterSign := []
  value := value
  valueText := valueText

/-- A member with its key without quotes and a blank on each side of the sign. -/
def Member.bare (key : String) (value : Tree) (valueText : List Char) : Member where
  key := key
  keyText := key.toList
  beforeSign := [' ']
  afterSign := [' ']
  value := value
  valueText := valueText

namespace Grammar

variable {g : Grammar} {s : String}

theorem quotes_tight (h : ∀ c ∈ s.toList, g.spellsChar c [c]) :
    g.Quotes s ('"' :: (s.toList ++ ['"'])) := by
  have hquotes := Quotes.intro (g := g) (s.toList.map fun c => (c, [c])) (by simpa using h)
  simpa [List.map_map, Function.comp_def, List.flatMap_map] using hquotes

theorem names_tight (h : ∀ c ∈ s.toList, g.spellsChar c [c]) (value : Tree) (text : List Char) :
    g.Names (.tight s value text) where
  key := .quoted (quotes_tight h)
  before := by simp [Member.tight]
  after := by simp [Member.tight]

theorem names_bare (hblank : g.isBlank ' ') (hne : s ≠ "") (h : ∀ c ∈ s.toList, g.isKeyChar c)
    (value : Tree) (text : List Char) : g.Names (.bare s value text) where
  key := .bare hne h
  before := List.forall_mem_singleton.mpr hblank
  after := List.forall_mem_singleton.mpr hblank

end Grammar

/-- Chunks may stand with nothing but commas between them. -/
theorem separated_flatMap (isGap : Char → Bool) (chunks : List (List Char)) :
    Separated isGap false chunks (chunks.flatMap (',' :: ·)) := by
  induction chunks with
  | nil => exact .done (by simp)
  | cons chunk chunks ih => exact .next (List.forall_mem_nil _) (List.forall_mem_nil _) ih

theorem separated_tight (isGap : Char → Bool) (chunk : List Char) (chunks : List (List Char)) :
    Separated isGap true (chunk :: chunks) (chunk ++ chunks.flatMap (',' :: ·)) :=
  .first (List.forall_mem_nil _) (separated_flatMap isGap chunks)

end ModelScribe
