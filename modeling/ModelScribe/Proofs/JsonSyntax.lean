-- JSON as a syntax. A node is a value as a text writes it: a string and a
-- number are kept as their characters, since a reader that passes over them
-- never asks what they stand for. A node has many texts, so this is a
-- relation again. A reader that passes over a value accepts the texts of
-- nodes and nothing else.
import ModelScribe.Proofs.JsonLexemes

namespace ModelScribe.Json

/-! ## Nodes and their texts -/

/-- A value as it is written. -/
inductive Node where
  | null
  | flag (b : Bool)
  | number (negative : Bool) (magnitude : List Char)
  /-- A string by what stands between its quotes. -/
  | text (body : List Char)
  | list (items : List Node)
  /-- Members in the order of the text, with their keys as they are written. -/
  | object (members : List (List Char × Node))

/-- A member of an object with the text that it is written as. -/
structure Entry where
  key : List Char
  beforeColon : List Char
  afterColon : List Char
  value : Node
  valueText : List Char

namespace Entry

def member (e : Entry) : List Char × Node := (e.key, e.value)

/-- What follows the key. -/
def afterKey (e : Entry) : List Char := e.beforeColon ++ ':' :: (e.afterColon ++ e.valueText)

def text (e : Entry) : List Char := '"' :: (e.key ++ '"' :: e.afterKey)

theorem valueText_length_lt (e : Entry) : e.valueText.length < e.text.length := by
  simp only [text, afterKey, List.length_append, List.length_cons]
  omega

/-- The key is a string, and there is nothing but white space around the colon. -/
structure Sound (e : Entry) : Prop where
  key : IsBody e.key
  before : ∀ c ∈ e.beforeColon, isSpace c
  after : ∀ c ∈ e.afterColon, isSpace c

end Entry

namespace Node

def sign (negative : Bool) : List Char := if negative then ['-'] else []

/-- The texts that a node can be written as. -/
inductive Writes : Node → List Char → Prop
  | null : Writes .null ['n', 'u', 'l', 'l']
  | yes : Writes (.flag true) ['t', 'r', 'u', 'e']
  | no : Writes (.flag false) ['f', 'a', 'l', 's', 'e']
  | number (negative : Bool) {magnitude : List Char} (h : IsMagnitude magnitude) :
    Writes (.number negative magnitude) (sign negative ++ magnitude)
  | text {body : List Char} (h : IsBody body) : Writes (.text body) ('"' :: (body ++ ['"']))
  | list {body : List Char} (parts : List (Node × List Char))
    (hparts : ∀ p ∈ parts, Writes p.1 p.2)
    (hbody : Separated isSpace true (parts.map (·.2)) body) :
    Writes (.list (parts.map (·.1))) ('[' :: (body ++ [']']))
  | object {body : List Char} (es : List Entry) (hes : ∀ e ∈ es, e.Sound)
    (hvalues : ∀ e ∈ es, Writes e.value e.valueText)
    (hbody : Separated isSpace true (es.map (·.text)) body) :
    Writes (.object (es.map (·.member))) ('\x7b' :: (body ++ ['\x7d']))

/-- A value of this shape can begin with the character. -/
def BeginsWith (n : Node) (c : Char) : Prop :=
  match n with
  | .null => c = 'n'
  | .flag _ => c = 't' ∨ c = 'f'
  | .number .. => c = '-' ∨ isDigit c
  | .text _ => c = '"'
  | .list _ => c = '['
  | .object _ => c = '\x7b'

end Node

theorem not_mem_delimiters_of_isDigit {c : Char} (h : isDigit c) : c ∉ delimiters := by
  have hnone : delimiters.all fun c => !isDigit c := by decide
  intro hc
  simpa [h] using List.all_eq_true.mp hnone c hc

namespace Node

variable {n : Node} {c : Char} {cs rest : List Char}

theorem BeginsWith.ne {d : Char} (h : n.BeginsWith c) (hd : ¬ n.BeginsWith d) : c ≠ d :=
  fun he => hd (he ▸ h)

theorem BeginsWith.not_mem_delimiters (h : n.BeginsWith c) : c ∉ delimiters := by
  cases n with
  | flag => rcases h with rfl | rfl <;> decide
  | number =>
    rcases h with rfl | h
    · decide
    · exact not_mem_delimiters_of_isDigit h
  | _ => rw [show c = _ from h]; decide

theorem BeginsWith.isSpace (h : n.BeginsWith c) : isSpace c = false :=
  isSpace_eq_false h.not_mem_delimiters

theorem BeginsWith.not_digit (h : n.BeginsWith c) (hn : ∀ s ds, n ≠ .number s ds) :
    isDigit c = false := by
  cases n with
  | flag => rcases h with rfl | rfl <;> rfl
  | number s ds => exact absurd rfl (hn s ds)
  | _ => rw [show c = _ from h]; rfl

theorem Writes.exists_cons (h : n.Writes cs) : ∃ c tail, cs = c :: tail ∧ n.BeginsWith c := by
  cases h with
  | null => exact ⟨_, _, rfl, rfl⟩
  | yes => exact ⟨_, _, rfl, Or.inl rfl⟩
  | no => exact ⟨_, _, rfl, Or.inr rfl⟩
  | text => exact ⟨_, _, rfl, rfl⟩
  | list => exact ⟨_, _, rfl, rfl⟩
  | object => exact ⟨_, _, rfl, rfl⟩
  | number negative h =>
    cases negative with
    | true => exact ⟨_, _, rfl, Or.inl rfl⟩
    | false =>
      obtain ⟨d, ds, rfl, hd⟩ := h.exists_cons
      exact ⟨d, ds, rfl, Or.inr hd⟩

theorem Writes.length_pos (h : n.Writes cs) : 0 < cs.length := by
  obtain ⟨c, tail, rfl, -⟩ := h.exists_cons
  simp

end Node

/-! ## Texts without white space -/

/-- A member without white space. -/
def Entry.tight (key : List Char) (value : Node) (text : List Char) : Entry :=
  ⟨key, [], [], value, text⟩

theorem Entry.sound_tight {key : List Char} (h : IsBody key) (value : Node) (text : List Char) :
    (Entry.tight key value text).Sound where
  key := h
  before := List.forall_mem_nil _
  after := List.forall_mem_nil _

theorem isBody_plain {cs : List Char} (h : cs.all fun c => c != '"' && c != '\\' && 32 ≤ c.toNat) :
    IsBody cs := by
  induction cs with
  | nil => exact .nil
  | cons c cs ih =>
    simp only [List.all_cons, Bool.and_eq_true, bne_iff_ne, decide_eq_true_eq] at h
    obtain ⟨⟨⟨hquote, hbackslash⟩, hcontrol⟩, hcs⟩ := h
    exact .plain hquote hbackslash hcontrol (ih (by simpa using hcs))

/-- An object of members without white space. -/
theorem Node.writes_object_tight (e : Entry) (es : List Entry)
    (h : ∀ f ∈ e :: es, f.Sound ∧ f.value.Writes f.valueText) :
    (Node.object ((e :: es).map (·.member))).Writes
      ('\x7b' :: (e.text ++ (es.map (·.text)).flatMap (',' :: ·) ++ ['\x7d'])) :=
  .object (e :: es) (fun f hf => (h f hf).1) (fun f hf => (h f hf).2) (separated_tight ..)

theorem Node.writes_list_tight (part : Node × List Char) (parts : List (Node × List Char))
    (h : ∀ p ∈ part :: parts, p.1.Writes p.2) :
    (Node.list ((part :: parts).map (·.1))).Writes
      ('[' :: (part.2 ++ (parts.map (·.2)).flatMap (',' :: ·) ++ [']'])) :=
  .list (part :: parts) h (separated_tight ..)

/-! ## Passing over chunks -/

section

variable {cs : List Char} {brackets : List Bracket}

/-- A chunk that stands behind white space is passed over to its end. `enter` is the reader at
its beginning; at its end the brackets around it are due. -/
def Passes (enter : Nat → List Char → Except Failure (List Char)) (brackets : List Bracket)
    (chunk : List Char) : Prop :=
  ∀ (n fuel : Nat) (gap rest : List Char), (∀ c ∈ gap, isSpace c) → Delimited rest →
    2 * chunk.length + n ≤ fuel + 1 →
    ∃ m, n ≤ m ∧ enter fuel (gap ++ (chunk ++ rest)) = skipClose m brackets true rest

def Bracket.opening : Bracket → Char
  | .list => '['
  | .object => '\x7b'

theorem Bracket.closing_mem_delimiters (b : Bracket) : b.closing ∈ delimiters := by
  cases b <;> decide

theorem Bracket.closing_ne_comma (b : Bracket) : b.closing ≠ ',' := by
  cases b <;> decide

theorem Bracket.isSpace_closing (b : Bracket) : isSpace b.closing = false := by
  cases b <;> rfl

/-- A chunk is passed over, and then what stands behind it up to the closing bracket. -/
theorem Passes.followed {b : Bracket} {enter : Nat → List Char → Except Failure (List Char)}
    {chunk gap tail rest : List Char} {chunks : List (List Char)} {n fuel : Nat}
    (hchunk : Passes enter (b :: brackets) chunk) (hgap : ∀ c ∈ gap, isSpace c)
    (htail : Separated isSpace false chunks tail)
    (hfuel : 2 * chunk.length + (2 * tail.length + 1 + n) ≤ fuel + 1)
    (hrest : ∀ m, 2 * tail.length + 1 + n ≤ m →
      ∃ m', n ≤ m' ∧ skipClose m (b :: brackets) true (tail ++ b.closing :: rest)
        = skipClose m' brackets true rest) :
    ∃ m, n ≤ m ∧ enter fuel (gap ++ (chunk ++ (tail ++ b.closing :: rest)))
      = skipClose m brackets true rest := by
  have hdelimited : Delimited (tail ++ b.closing :: rest) :=
    htail.delimited (fun _ => mem_delimiters_of_isSpace) (by simp [b.closing_mem_delimiters])
  obtain ⟨m, hm, henter⟩ := hchunk _ fuel gap _ hgap hdelimited hfuel
  rw [henter]
  exact hrest m hm

/-- What stands in brackets is passed over chunk by chunk, and the closing bracket with it. -/
theorem skipClose_separated (b : Bracket) (brackets : List Bracket) {first : Bool}
    {chunks : List (List Char)} {body : List Char} (hbody : Separated isSpace first chunks body)
    (hhead : ∀ chunk ∈ chunks, ∃ c cs, chunk = c :: cs ∧ c ∉ delimiters)
    (hpass : ∀ chunk ∈ chunks,
      Passes (fun fuel cs => (skipKey b cs).bind (skipOpen fuel (b :: brackets))) (b :: brackets)
        chunk)
    (n fuel : Nat) (hfuel : 2 * body.length + 1 + n ≤ fuel) (rest : List Char) :
    ∃ m, n ≤ m ∧ skipClose fuel (b :: brackets) (!first) (body ++ b.closing :: rest)
      = skipClose m brackets true rest := by
  induction hbody generalizing fuel with
  | done hgap =>
    obtain ⟨fuel, rfl⟩ : ∃ f, fuel = f + 1 := ⟨fuel - 1, by omega⟩
    refine ⟨fuel, by omega, ?_⟩
    rw [skipClose, skipSpace_append hgap, skipSpace_cons b.isSpace_closing]
    simp [b.closing_ne_comma]
  | @first gap chunk tail chunks hgap htail ih =>
    obtain ⟨fuel, rfl⟩ : ∃ f, fuel = f + 1 := ⟨fuel - 1, by omega⟩
    obtain ⟨c, cs, rfl, hc⟩ := hhead _ List.mem_cons_self
    have hclose : c ≠ b.closing := fun h => hc (h ▸ b.closing_mem_delimiters)
    have htail' := ih (fun _ h => hhead _ (List.mem_cons_of_mem _ h))
      (fun _ h => hpass _ (List.mem_cons_of_mem _ h))
    simp only [List.length_append] at hfuel
    have hbudget : 2 * (c :: cs).length + (2 * tail.length + 1 + n) ≤ fuel + 1 := by omega
    obtain ⟨m, hm, hskip⟩ := (hpass _ List.mem_cons_self).followed (List.forall_mem_nil _) htail
      hbudget htail'
    refine ⟨m, hm, ?_⟩
    rw [← hskip, skipClose, List.append_assoc, skipSpace_append hgap,
      List.append_assoc, List.cons_append, skipSpace_cons (isSpace_eq_false hc)]
    simp [hclose]
  | @next gap gap' chunk tail chunks hgap hgap' htail ih =>
    obtain ⟨fuel, rfl⟩ : ∃ f, fuel = f + 1 := ⟨fuel - 1, by omega⟩
    have htail' := ih (fun _ h => hhead _ (List.mem_cons_of_mem _ h))
      (fun _ h => hpass _ (List.mem_cons_of_mem _ h))
    simp only [List.length_append, List.length_cons] at hfuel
    have hbudget : 2 * chunk.length + (2 * tail.length + 1 + n) ≤ fuel + 1 := by omega
    obtain ⟨m, hm, hskip⟩ := (hpass _ List.mem_cons_self).followed hgap' htail hbudget htail'
    refine ⟨m, hm, ?_⟩
    rw [← hskip, skipClose, List.append_assoc, skipSpace_append hgap,
      List.cons_append, skipSpace_cons rfl]
    simp

/-- A chunk in brackets is passed over if the chunks inside are. -/
theorem passes_enclosed (b : Bracket) (brackets : List Bracket) {chunks : List (List Char)}
    {body : List Char} (hbody : Separated isSpace true chunks body)
    (hhead : ∀ chunk ∈ chunks, ∃ c cs, chunk = c :: cs ∧ c ∉ delimiters)
    (hpass : ∀ chunk ∈ chunks,
      Passes (fun fuel cs => (skipKey b cs).bind (skipOpen fuel (b :: brackets))) (b :: brackets)
        chunk) :
    Passes (fun fuel => skipOpen fuel brackets) brackets (b.opening :: (body ++ [b.closing])) := by
  intro n fuel gap rest hgap _ hfuel
  obtain ⟨fuel, rfl⟩ : ∃ f, fuel = f + 1 := ⟨fuel - 1, by simp at hfuel; omega⟩
  simp only [List.length_cons, List.length_append, List.length_nil] at hfuel
  obtain ⟨m, hm, hskip⟩ := skipClose_separated b brackets hbody hhead hpass n fuel (by omega) rest
  have hopening : isSpace b.opening = false := by cases b <;> rfl
  refine ⟨m, hm, ?_⟩
  rw [← hskip]
  simp only [skipOpen, skipSpace_append hgap, List.cons_append, skipSpace_cons hopening,
    List.append_assoc]
  cases b <;> rfl

/-- One step of the reader settles a chunk without brackets. -/
theorem passes_of_step (hcs : ∃ c rest, cs = c :: rest ∧ isSpace c = false)
    (h : ∀ fuel rest, Delimited rest →
      skipOpen (fuel + 1) brackets (cs ++ rest) = skipClose fuel brackets true rest) :
    Passes (fun fuel => skipOpen fuel brackets) brackets cs := by
  intro n fuel gap rest hgap hrest hfuel
  obtain ⟨c, tail, rfl, hc⟩ := hcs
  obtain ⟨fuel, rfl⟩ : ∃ f, fuel = f + 1 := ⟨fuel - 1, by simp at hfuel; omega⟩
  refine ⟨fuel, by simp at hfuel; omega, ?_⟩
  rw [← h fuel rest hrest]
  simp only [skipOpen, skipSpace_append hgap]

end

/-! ## What is written is passed over -/

section

variable {n : Node} {cs rest : List Char} {brackets : List Bracket}

theorem skipOpen_number (negative : Bool) (h : IsMagnitude cs) (fuel : Nat)
    (hrest : Delimited rest) :
    skipOpen (fuel + 1) brackets (Node.sign negative ++ cs ++ rest)
      = skipClose fuel brackets true rest := by
  have hskip := skipNumber_magnitude h hrest
  cases negative with
  | true =>
    rw [Node.sign, if_pos rfl, List.singleton_append, List.cons_append, skipOpen,
      skipSpace_cons rfl]
    simp only [hskip, Except.bind]
  | false =>
    obtain ⟨d, ds, rfl, hd⟩ := h.exists_cons
    rw [Node.sign, if_neg (by decide), List.nil_append, List.cons_append, skipOpen,
      skipSpace_cons (isSpace_eq_false (not_mem_delimiters_of_isDigit hd))]
    -- a digit begins none of the other values
    split
    case h_1 heq => cases heq
    case h_9 heq =>
      cases heq
      rw [if_pos hd, ← List.cons_append, hskip]
      rfl
    all_goals
      rename_i heq
      obtain rfl := (List.cons.inj heq).1
      exact absurd hd (by decide)

/-- A member is passed over if its value is. -/
theorem passes_entry {e : Entry} (he : e.Sound)
    (h : Passes (fun fuel => skipOpen fuel (.object :: brackets)) (.object :: brackets)
      e.valueText) :
    Passes (fun fuel cs => (skipKey .object cs).bind (skipOpen fuel (.object :: brackets)))
      (.object :: brackets) e.text := by
  intro n fuel gap rest hgap hrest hfuel
  obtain ⟨k, hk, hskip⟩ := h n fuel e.afterColon rest he.after hrest
    (by simp only [Entry.text, Entry.afterKey, List.length_append, List.length_cons] at hfuel
        omega)
  refine ⟨k, hk, ?_⟩
  rw [← hskip]
  simp only [Entry.text, Entry.afterKey, List.cons_append, List.append_assoc, skipKey,
    skipSpace_append hgap, skipSpace_cons (c := '"') rfl, skipString_body he.key, Except.bind,
    colon_append he.before]

/-- A value is passed over to its end, whatever it holds. -/
theorem skipOpen_written (h : n.Writes cs) (brackets : List Bracket) :
    Passes (fun fuel => skipOpen fuel brackets) brackets cs := by
  induction h generalizing brackets with
  | null => exact passes_of_step ⟨_, _, rfl, rfl⟩ fun _ _ _ => rfl
  | yes => exact passes_of_step ⟨_, _, rfl, rfl⟩ fun _ _ _ => rfl
  | no => exact passes_of_step ⟨_, _, rfl, rfl⟩ fun _ _ _ => rfl
  | text h =>
    refine passes_of_step ⟨_, _, rfl, rfl⟩ fun fuel rest _ => ?_
    rw [skipOpen, List.cons_append, skipSpace_cons rfl]
    simp only [List.append_assoc, List.singleton_append, skipString_body h, Except.bind]
  | number negative h =>
    obtain ⟨c, tail, hcs, hc⟩ := (Node.Writes.number negative h).exists_cons
    exact passes_of_step ⟨c, tail, hcs, hc.isSpace⟩
      fun fuel rest hrest => skipOpen_number negative h fuel hrest
  | @list body parts hparts hbody ih =>
    refine passes_enclosed .list brackets hbody (List.forall_mem_map.mpr fun p hp => ?_)
      (List.forall_mem_map.mpr fun p hp => ih p hp (.list :: brackets))
    obtain ⟨c, tail, htail, hc⟩ := (hparts p hp).exists_cons
    exact ⟨c, tail, htail, hc.not_mem_delimiters⟩
  | @object body es hes hvalues hbody ih =>
    refine passes_enclosed .object brackets hbody (List.forall_mem_map.mpr fun e _ => ?_)
      (List.forall_mem_map.mpr fun e he => passes_entry (hes e he) (ih e he (.object :: brackets)))
    exact ⟨'"', _, rfl, by decide⟩

/-- A value that a colon and white space precede is passed over. -/
theorem skipMember_written {σ : Type} (state : σ) {e : Entry} (he : e.Sound)
    (h : e.value.Writes e.valueText) (hrest : Delimited rest) :
    skipMember state (e.afterKey ++ rest) = .ok (state, rest) := by
  obtain ⟨fuel, -, hskip⟩ := skipOpen_written h [] 0
    (2 * (e.afterColon ++ (e.valueText ++ rest)).length + 2) e.afterColon rest he.after hrest
    (by simp; omega)
  simp only [skipClose] at hskip
  rw [skipMember, Entry.afterKey, List.append_assoc, List.cons_append, List.append_assoc,
    colon_append he.before, Except.bind, skipValue, hskip]
  rfl

end

/-! ## What is passed over was written -/

/-- Texts that are each made from something come from a list. -/
theorem exists_map_eq {α β : Type} {f : α → β} {P : α → Prop} {bs : List β}
    (h : ∀ b ∈ bs, ∃ a, P a ∧ f a = b) : ∃ as : List α, (∀ a ∈ as, P a) ∧ as.map f = bs := by
  induction bs with
  | nil => exact ⟨[], List.forall_mem_nil _, rfl⟩
  | cons b bs ih =>
    obtain ⟨⟨a, ha, hb⟩, hbs⟩ := List.forall_mem_cons.mp h
    obtain ⟨as, has, rfl⟩ := ih hbs
    subst hb
    exact ⟨a :: as, List.forall_mem_cons.mpr ⟨ha, has⟩, rfl⟩

/-- The text is a value. -/
def IsValue (cs : List Char) : Prop := ∃ n : Node, n.Writes cs

namespace Bracket

/-- The text may stand in the brackets, between commas. -/
def Admits : Bracket → List Char → Prop
  | .list, cs => IsValue cs
  | .object, cs => ∃ e : Entry, (e.Sound ∧ e.value.Writes e.valueText) ∧ e.text = cs

end Bracket

/-- What stands before the next chunk: white space, with a comma in it unless the chunk is the
first. -/
inductive Leads : Bool → List Char → List Char → Prop
  | first {gap rest : List Char} (hgap : ∀ c ∈ gap, isSpace c) : Leads true (gap ++ rest) rest
  | next {gap gap' rest : List Char} (hgap : ∀ c ∈ gap, isSpace c)
    (hgap' : ∀ c ∈ gap', isSpace c) : Leads false (gap ++ ',' :: (gap' ++ rest)) rest

theorem Leads.append_gap {first : Bool} {cs gap rest : List Char}
    (h : Leads first cs (gap ++ rest)) (hgap : ∀ c ∈ gap, isSpace c) : Leads first cs rest := by
  generalize hrest : gap ++ rest = after at h
  cases h with
  | first hblank =>
    subst hrest
    rw [← List.append_assoc]
    exact .first (List.forall_mem_append.mpr ⟨hblank, hgap⟩)
  | next hblank hblank' =>
    subst hrest
    rw [← List.append_assoc]
    exact .next hblank (List.forall_mem_append.mpr ⟨hblank', hgap⟩)

/-- Up to the rest there are chunks that may stand in the brackets. `first` tells that none
comes before them. -/
def Inside (b : Bracket) (first : Bool) (cs rest : List Char) : Prop :=
  ∃ chunks body, Separated isSpace first chunks body ∧ (∀ chunk ∈ chunks, b.Admits chunk) ∧
    cs = body ++ rest

namespace Inside

variable {b : Bracket} {first : Bool} {gap gap' chunk tail cs rest : List Char}

theorem done (hgap : ∀ c ∈ gap, isSpace c) : Inside b first (gap ++ rest) rest :=
  ⟨[], gap, .done hgap, List.forall_mem_nil _, rfl⟩

theorem cons (hlead : Leads first cs (chunk ++ tail)) (hchunk : b.Admits chunk)
    (h : Inside b false tail rest) : Inside b first cs rest := by
  obtain ⟨chunks, body, hbody, hchunks, rfl⟩ := h
  have hall := List.forall_mem_cons.mpr ⟨hchunk, hchunks⟩
  generalize htail : chunk ++ (body ++ rest) = after at hlead
  cases hlead with
  | first hgap =>
    subst htail
    exact ⟨_, _, .first hgap hbody, hall, by simp⟩
  | next hgap hgap' =>
    subst htail
    exact ⟨_, _, .next hgap hgap' hbody, hall, by simp⟩

/-- White space at the end goes with what stands before it. -/
theorem append_gap (h : Inside b first cs (gap ++ rest)) (hgap : ∀ c ∈ gap, isSpace c) :
    Inside b first cs rest := by
  obtain ⟨chunks, body, hbody, hchunks, rfl⟩ := h
  refine ⟨chunks, body ++ gap, ?_, hchunks, by simp⟩
  clear hchunks
  induction hbody with
  | done hblank => exact .done (List.forall_mem_append.mpr ⟨hblank, hgap⟩)
  | first hblank _ ih =>
    rw [List.append_assoc, List.append_assoc]
    exact .first hblank ih
  | next hblank hblank' _ ih =>
    rw [List.append_assoc, List.cons_append, List.append_assoc, List.append_assoc]
    exact .next hblank hblank' ih

/-- What stands in brackets is a value with them. -/
theorem exists_value (h : Inside b true cs (b.closing :: rest)) :
    ∃ value, IsValue value ∧ b.opening :: cs = value ++ rest := by
  obtain ⟨chunks, body, hbody, hchunks, rfl⟩ := h
  refine ⟨b.opening :: (body ++ [b.closing]), ?_, by simp⟩
  cases b with
  | list =>
    obtain ⟨parts, hparts, rfl⟩ :
        ∃ parts : List (Node × List Char), (∀ p ∈ parts, p.1.Writes p.2) ∧
          parts.map (·.2) = chunks :=
      exists_map_eq fun chunk hchunk => by
        obtain ⟨n, hn⟩ := hchunks chunk hchunk
        exact ⟨(n, chunk), hn, rfl⟩
    exact ⟨_, .list parts hparts hbody⟩
  | object =>
    obtain ⟨es, hes, rfl⟩ := exists_map_eq hchunks
    exact ⟨_, .object es (fun e he => (hes e he).1) (fun e he => (hes e he).2) hbody⟩

end Inside

/-- The rest stands where the open brackets are closed. `afterItem` tells that an item of the
innermost bracket comes before. -/
def Closes : List Bracket → Bool → List Char → List Char → Prop
  | [], _, cs, rest => cs = rest
  | b :: outer, afterItem, cs, rest =>
    ∃ tail, Inside b (!afterItem) cs (b.closing :: tail) ∧ Closes outer true tail rest

section

variable {cs rest : List Char}

theorem exists_gap (cs : List Char) : ∃ gap, (∀ c ∈ gap, isSpace c) ∧ cs = gap ++ skipSpace cs :=
  ⟨cs.takeWhile isSpace, List.all_eq_true.mp List.all_takeWhile,
    List.takeWhile_append_dropWhile.symm⟩

theorem word_eq_ok {ws : List Char} (h : word ws cs = .ok rest) : cs = ws ++ rest := by
  induction ws generalizing cs with
  | nil =>
    rw [word] at h
    exact Except.ok.inj h
  | cons w ws ih =>
    cases cs with
    | nil => cases h
    | cons c cs =>
      rw [word] at h
      split at h
      · rename_i hc
        rw [hc, ih h]
        rfl
      · cases h

theorem colon_eq_ok (h : colon cs = .ok rest) :
    ∃ gap, (∀ c ∈ gap, isSpace c) ∧ cs = gap ++ ':' :: rest := by
  obtain ⟨gap, hgap, hcs⟩ := exists_gap cs
  rw [colon.eq_def] at h
  split at h
  · cases h
  · rename_i heq
    cases h
    exact ⟨gap, hgap, heq ▸ hcs⟩
  · cases h

/-- A value behind the key that it may need is what may stand in the brackets. -/
theorem skipKey_eq_ok {b : Bracket} {gap value tail : List Char}
    (h : skipKey b cs = .ok (gap ++ (value ++ tail))) (hgap : ∀ c ∈ gap, isSpace c)
    (hvalue : IsValue value) :
    ∃ gap chunk, (∀ c ∈ gap, isSpace c) ∧ b.Admits chunk ∧ cs = gap ++ (chunk ++ tail) := by
  cases b with
  | list =>
    cases h
    exact ⟨gap, value, hgap, hvalue, rfl⟩
  | object =>
    obtain ⟨gap₀, hgap₀, hcs⟩ := exists_gap cs
    obtain ⟨n, hn⟩ := hvalue
    rw [skipKey.eq_def] at h
    dsimp only at h
    split at h
    · cases h
    · rename_i heq
      obtain ⟨after, hkey, hcolon⟩ := bind_eq_ok h
      obtain ⟨key, hbody, rfl⟩ := skipString_eq_ok hkey
      obtain ⟨before, hbefore, rfl⟩ := colon_eq_ok hcolon
      refine ⟨gap₀, _, hgap₀, ⟨⟨key, before, gap, n, value⟩, ⟨⟨hbody, hbefore, hgap⟩, hn⟩, rfl⟩, ?_⟩
      rw [hcs, heq]
      simp [Entry.text, Entry.afterKey]
    · cases h

/-- White space and a value stand before what closes the brackets around it. -/
def Opens (brackets : List Bracket) (cs rest : List Char) : Prop :=
  ∃ gap value tail, (∀ c ∈ gap, isSpace c) ∧ IsValue value ∧ cs = gap ++ (value ++ tail) ∧
    Closes brackets true tail rest

/-- A bracket that opens and the text up to what closes it are a value. -/
theorem Closes.exists_value {b : Bracket} {outer : List Bracket}
    (h : Closes (b :: outer) false cs rest) :
    ∃ value tail, IsValue value ∧ b.opening :: cs = value ++ tail ∧
      Closes outer true tail rest := by
  obtain ⟨tail, hinside, htail⟩ := h
  obtain ⟨value, hvalue, hopen⟩ := hinside.exists_value
  exact ⟨value, tail, hvalue, hopen, htail⟩

/-- A chunk goes before what else stands in the brackets. -/
theorem Closes.cons {b : Bracket} {outer : List Bracket} {first : Bool} {gap chunk tail : List Char}
    (hlead : Leads first cs (gap ++ (chunk ++ tail))) (hgap : ∀ c ∈ gap, isSpace c)
    (hchunk : b.Admits chunk) (h : Closes (b :: outer) true tail rest) :
    Closes (b :: outer) (!first) cs rest := by
  obtain ⟨after, hinside, hclosed⟩ := h
  rw [Closes, Bool.not_not]
  exact ⟨after, .cons (hlead.append_gap hgap) hchunk hinside, hclosed⟩

section

variable {brackets : List Bracket} {afterItem : Bool} {fuel : Nat}
  (hclose : ∀ {brackets afterItem cs rest}, skipClose fuel brackets afterItem cs = .ok rest →
    Closes brackets afterItem cs rest)

include hclose

/-- The reader goes on behind a value, or inside of one that a bracket opens. -/
theorem opens_of_skipOpen (h : skipOpen (fuel + 1) brackets cs = .ok rest) :
    Opens brackets cs rest := by
  obtain ⟨gap, hgap, hcs⟩ := exists_gap cs
  suffices hvalue : ∃ value tail, IsValue value ∧ skipSpace cs = value ++ tail ∧
      Closes brackets true tail rest by
    obtain ⟨value, tail, hvalue, heq, htail⟩ := hvalue
    exact ⟨gap, value, tail, hgap, hvalue, heq ▸ hcs, htail⟩
  rw [skipOpen] at h
  split at h
  case h_1 => cases h
  case h_2 heq =>
    obtain ⟨tail, hword, hnext⟩ := bind_eq_ok h
    exact ⟨_, tail, ⟨_, .null⟩, by rw [heq, word_eq_ok hword]; rfl, hclose hnext⟩
  case h_3 heq =>
    obtain ⟨tail, hword, hnext⟩ := bind_eq_ok h
    exact ⟨_, tail, ⟨_, .yes⟩, by rw [heq, word_eq_ok hword]; rfl, hclose hnext⟩
  case h_4 heq =>
    obtain ⟨tail, hword, hnext⟩ := bind_eq_ok h
    exact ⟨_, tail, ⟨_, .no⟩, by rw [heq, word_eq_ok hword]; rfl, hclose hnext⟩
  case h_5 heq =>
    obtain ⟨tail, hskip, hnext⟩ := bind_eq_ok h
    obtain ⟨body, hbody, rfl⟩ := skipString_eq_ok hskip
    exact ⟨_, tail, ⟨_, .text hbody⟩, by rw [heq]; simp, hclose hnext⟩
  case h_6 heq =>
    obtain ⟨tail, hskip, hnext⟩ := bind_eq_ok h
    obtain ⟨magnitude, hmagnitude, rfl⟩ := skipNumber_eq_ok hskip
    exact ⟨_, tail, ⟨_, .number true hmagnitude⟩, heq, hclose hnext⟩
  case h_7 heq =>
    rw [heq]
    exact (hclose h).exists_value
  case h_8 heq =>
    rw [heq]
    exact (hclose h).exists_value
  case h_9 heq =>
    split at h
    · obtain ⟨tail, hskip, hnext⟩ := bind_eq_ok h
      obtain ⟨magnitude, hmagnitude, htail⟩ := skipNumber_eq_ok hskip
      exact ⟨_, tail, ⟨_, .number false hmagnitude⟩, heq.trans htail, hclose hnext⟩
    · cases h

variable (hopen : ∀ {brackets cs rest}, skipOpen fuel brackets cs = .ok rest →
  Opens brackets cs rest)

include hopen

omit hclose in
/-- A chunk that leads further into the brackets, with what closes them. -/
theorem closes_of_skipKey {b : Bracket} {first : Bool} {after : List Char}
    (hlead : Leads first cs after)
    (h : (skipKey b after).bind (skipOpen fuel (b :: brackets)) = .ok rest) :
    Closes (b :: brackets) (!first) cs rest := by
  obtain ⟨value, hkey, h⟩ := bind_eq_ok h
  obtain ⟨gap, value, tail, hgap, hvalue, rfl, htail⟩ := hopen h
  obtain ⟨gap', chunk, hgap', hchunk, rfl⟩ := skipKey_eq_ok hkey hgap hvalue
  exact htail.cons hlead hgap' hchunk

/-- The reader closes a bracket, or goes on to its next chunk. -/
theorem closes_of_skipClose (h : skipClose (fuel + 1) brackets afterItem cs = .ok rest) :
    Closes brackets afterItem cs rest := by
  cases brackets with
  | nil =>
    rw [skipClose] at h
    exact Except.ok.inj h
  | cons b outer =>
    obtain ⟨gap, hgap, hcs⟩ := exists_gap cs
    rw [skipClose] at h
    split at h
    · cases h
    · rename_i c after heq
      rw [hcs, heq]
      split_ifs at h with hcomma hlast hafter
      · obtain ⟨rfl, rfl⟩ : c = ',' ∧ afterItem = true := by simpa using hcomma
        have hlead : Leads false (gap ++ ',' :: after) after := .next hgap (List.forall_mem_nil _)
        exact closes_of_skipKey hopen hlead h
      · subst hlast
        exact ⟨after, .done hgap, hclose h⟩
      · cases h
      · rw [Bool.eq_false_iff.mpr hafter]
        exact closes_of_skipKey hopen (.first hgap) h

end

/-- The reader that passes over values accepts nothing but values and brackets. -/
theorem skip_eq_ok (fuel : Nat) :
    (∀ {brackets cs rest}, skipOpen fuel brackets cs = .ok rest → Opens brackets cs rest) ∧
      ∀ {brackets afterItem cs rest}, skipClose fuel brackets afterItem cs = .ok rest →
        Closes brackets afterItem cs rest := by
  induction fuel with
  | zero =>
    refine ⟨fun h => ?_, fun {brackets _ _ _} h => ?_⟩
    · rw [skipOpen] at h
      cases h
    · cases brackets with
      | nil =>
        rw [skipClose] at h
        exact Except.ok.inj h
      | cons b outer =>
        rw [skipClose] at h
        · cases h
        · simp
  | succ fuel ih =>
    obtain ⟨hopen, hclose⟩ := ih
    exact ⟨opens_of_skipOpen hclose, closes_of_skipClose hclose hopen⟩

/-- A colon, a value and white space around the colon. -/
def FollowsKey (cs rest : List Char) : Prop :=
  ∃ before after value, (∀ c ∈ before, isSpace c) ∧ (∀ c ∈ after, isSpace c) ∧ IsValue value ∧
    cs = before ++ ':' :: (after ++ (value ++ rest))

theorem skipMember_eq_ok {σ : Type} {state state' : σ}
    (h : skipMember state cs = .ok (state', rest)) : FollowsKey cs rest := by
  rw [skipMember] at h
  cases hskip : (colon cs).bind skipValue with
  | error fault =>
    rw [hskip] at h
    cases h
  | ok left =>
    rw [hskip] at h
    cases h
    obtain ⟨tail, hcolon, hopen⟩ := bind_eq_ok hskip
    obtain ⟨before, hbefore, rfl⟩ := colon_eq_ok hcolon
    obtain ⟨after, value, tail, hafter, hvalue, rfl, htail⟩ := (skip_eq_ok _).1 hopen
    obtain rfl : tail = rest := htail
    exact ⟨before, after, value, hbefore, hafter, hvalue, rfl⟩

end

end ModelScribe.Json
