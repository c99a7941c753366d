-- Where a report points. A fault in a JSON source is told by a line and a
-- column, and it is shown at a byte of the source. The way back undoes the
-- way there: what is shown is the byte in front of the fault, or the first
-- byte of its line, so it lies in the source and on the very line that is
-- told. Only a fault on the empty line at the end is not shown at all.
import Mathlib.Data.List.Induction
import ModelScribe.Proofs.Loading

namespace ModelScribe

namespace Text

/-! ## Bytes -/

/-- The byte that ends a line. -/
def lineFeed : UInt8 := 10

/-- The bytes of a text in UTF-8. -/
def bytesOf (s : String) : List UInt8 := s.toByteArray.data.toList

theorem bytesOf_eq (s : String) : bytesOf s = s.toList.flatMap String.utf8EncodeChar := by
  rw [bytesOf, ← String.utf8Encode_toList, List.utf8Encode, List.toList_data_toByteArray]

theorem byteLength_eq (cs : List Char) :
    byteLength cs = (cs.flatMap String.utf8EncodeChar).length := by
  induction cs with
  | nil => rfl
  | cons c cs ih =>
    rw [byteLength, ih, List.flatMap_cons, List.length_append, String.length_utf8EncodeChar]

theorem length_bytesOf (s : String) : (bytesOf s).length = s.utf8ByteSize := rfl

theorem byteLength_toList (s : String) : byteLength s.toList = s.utf8ByteSize := by
  rw [byteLength_eq, ← bytesOf_eq, length_bytesOf]

theorem encode_lineFeed : String.utf8EncodeChar '\n' = [lineFeed] := rfl

/-- A line feed is the byte of the character and no part of another one. -/
theorem ne_lineFeed_of_mem {c : Char} (hc : c ≠ '\n') {b : UInt8}
    (hb : b ∈ String.utf8EncodeChar c) : b ≠ lineFeed := by
  have hcode : c.val.toNat ≠ 10 := fun h => hc (Char.ext (UInt32.toNat.inj h))
  have hbyte {n : Nat} (h : lineFeed = UInt8.ofNat n) : n % 256 = 10 := by
    simpa [lineFeed] using (congrArg UInt8.toNat h).symm
  rintro rfl
  unfold String.utf8EncodeChar at hb
  simp only at hb
  -- A character of one byte is that byte; the bytes of any other are higher than a line feed.
  split at hb
  · have hlow := hbyte (List.mem_singleton.mp hb)
    omega
  · split at hb
    · simp only [List.mem_cons, List.not_mem_nil, or_false] at hb
      rcases hb with h | h <;> exact absurd (hbyte h) (by omega)
    · split at hb
      · simp only [List.mem_cons, List.not_mem_nil, or_false] at hb
        rcases hb with h | h | h <;> exact absurd (hbyte h) (by omega)
      · simp only [List.mem_cons, List.not_mem_nil, or_false] at hb
        rcases hb with h | h | h | h <;> exact absurd (hbyte h) (by omega)

namespace Position

/-! ## Positions -/

/-- The position behind these bytes: a line for each line feed among them, and a column for each
byte behind the last one. -/
def behind (bytes : List UInt8) : Position :=
  ⟨1 + bytes.count lineFeed, (bytes.reverse.takeWhile (· ≠ lineFeed)).length⟩

/-- The position one byte on. -/
def next (p : Position) (b : UInt8) : Position :=
  if b = lineFeed then ⟨p.line + 1, 0⟩ else { p with column := p.column + 1 }

theorem behind_concat (bytes : List UInt8) (b : UInt8) :
    behind (bytes ++ [b]) = (behind bytes).next b := by
  unfold behind next
  by_cases hb : b = lineFeed
  · simp [hb, Nat.add_assoc]
  · simp [hb]

theorem foldl_next (bytes : List UInt8) : bytes.foldl next ⟨1, 0⟩ = behind bytes := by
  induction bytes using List.reverseRecOn with
  | nil => rfl
  | append_singleton bytes b ih =>
    rw [List.foldl_append, ih, List.foldl_cons, List.foldl_nil, behind_concat]

theorem foldl_next_of_ne {bytes : List UInt8} (h : ∀ b ∈ bytes, b ≠ lineFeed) (p : Position) :
    bytes.foldl next p = { p with column := p.column + bytes.length } := by
  induction bytes generalizing p with
  | nil => rfl
  | cons b bytes ih =>
    obtain ⟨hb, hbytes⟩ := List.forall_mem_cons.mp h
    rw [List.foldl_cons, ih hbytes, next, if_neg hb, List.length_cons]
    simp only [Nat.add_assoc, Nat.add_comm 1]

/-- The position behind a character: on the next line, or as many bytes on as it has. -/
def past (p : Position) (c : Char) : Position :=
  if c = '\n' then ⟨p.line + 1, 0⟩ else { p with column := p.column + c.utf8Size }

theorem foldl_encode (p : Position) (c : Char) :
    (String.utf8EncodeChar c).foldl next p = p.past c := by
  unfold past
  by_cases hc : c = '\n'
  · rw [if_pos hc, hc, encode_lineFeed]
    rfl
  · rw [if_neg hc, foldl_next_of_ne fun b => ne_lineFeed_of_mem hc, String.length_utf8EncodeChar]

theorem forward_of_lt {p : Position} {n : Nat} {c : Char} (cs : List Char) (h : n < c.utf8Size) :
    p.forward n (c :: cs) = { p with column := p.column + n } := if_pos h

theorem forward_of_le {p : Position} {n : Nat} {c : Char} (cs : List Char) (h : c.utf8Size ≤ n) :
    p.forward n (c :: cs) = (p.past c).forward (n - c.utf8Size) cs := if_neg (Nat.not_lt.mpr h)

/-- Going forward by characters goes forward by their bytes, also where it ends inside one. -/
theorem forward_eq (p : Position) (n : Nat) (cs : List Char) :
    p.forward n cs = ((cs.flatMap String.utf8EncodeChar).take n).foldl next p := by
  induction cs generalizing p n with
  | nil => simp [forward]
  | cons c cs ih =>
    rw [List.flatMap_cons, List.take_append, List.foldl_append]
    rcases Nat.lt_or_ge n c.utf8Size with hn | hn
    · have hwithin : ∀ b ∈ (String.utf8EncodeChar c).take n, b ≠ lineFeed := by
        intro b hb
        by_cases hc : c = '\n'
        · subst hc
          obtain rfl : n = 0 := Nat.lt_one_iff.mp hn
          cases hb
        · exact ne_lineFeed_of_mem hc (List.mem_of_mem_take hb)
      rw [forward_of_lt cs hn, foldl_next_of_ne hwithin, List.length_take,
        String.length_utf8EncodeChar, Nat.min_eq_left hn.le, Nat.sub_eq_zero_of_le hn.le]
      rfl
    · have hwhole : (String.utf8EncodeChar c).take n = String.utf8EncodeChar c :=
        List.take_of_length_le (by rw [String.length_utf8EncodeChar]; exact hn)
      rw [forward_of_le cs hn, ih, hwhole, foldl_encode, String.length_utf8EncodeChar]

end Position

theorem positionAt_eq (s : String) (i : Nat) :
    positionAt s.toList i = .behind ((bytesOf s).take i) := by
  rw [positionAt, Position.forward_eq, ← bytesOf_eq, Position.foldl_next]

/-- Behind a byte that is no line feed the line is still the same. -/
theorem line_behind_take {bytes : List UInt8} {i : Nat} (hi : i < bytes.length)
    (h : (Position.behind (bytes.take (i + 1))).column ≠ 0) :
    (Position.behind (bytes.take i)).line = (Position.behind (bytes.take (i + 1))).line := by
  rw [List.take_add_one, List.getElem?_eq_getElem hi, Option.toList_some,
    Position.behind_concat] at h ⊢
  unfold Position.next at h ⊢
  by_cases hb : bytes[i] = lineFeed
  · rw [if_pos hb] at h
    exact absurd rfl h
  · rw [if_neg hb]

/-! ## The way back -/

/-- The byte that is `back` bytes before the one `n` bytes on from `start`, if it is among the
`size` bytes there. -/
def byteBack (start size n back : Nat) : Option Nat :=
  if n - back < size then some (start + (n - back)) else none

theorem byteBack_add {start size n back : Nat} (m : Nat) (h : back + m ≤ n) :
    byteBack (start + m) size (n - m) back = byteBack start (m + size) n back := by
  have hwithin : n - m - back < size ↔ n - back < m + size := by omega
  have hplace : start + m + (n - m - back) = start + (n - back) := by omega
  rw [byteBack, byteBack, hplace, if_congr hwithin rfl rfl]

/-- The first line is there as soon as there is any text. -/
theorem lineStart_one (start n : Nat) (cs : List Char) :
    lineStart start 1 cs = byteBack start (byteLength cs) n n := by
  rw [byteBack, Nat.sub_self]
  cases cs with
  | nil => rfl
  | cons c cs =>
    have hc := c.utf8Size_pos
    rw [byteLength, if_pos (by omega)]
    rfl

theorem lineStart_cons {start line : Nat} {c : Char} (cs : List Char) (h : line ≠ 1) :
    lineStart start line (c :: cs)
      = lineStart (start + c.utf8Size) (if c = '\n' then line - 1 else line) cs := if_neg h

/-- Where going forward stays on the line, the column tells how far. Where it leads to a later
line, that line is found where the column tells that it began. -/
theorem forward_cases (p : Position) {n : Nat} {cs : List Char} (start : Nat)
    (hn : n ≤ byteLength cs) {q : Position} (hq : p.forward n cs = q) :
    (q.line = p.line ∧ q.column = p.column + n) ∨
      (p.line < q.line ∧ q.column ≤ n ∧
        lineStart start (q.line - p.line + 1) cs = byteBack start (byteLength cs) n q.column) := by
  induction cs generalizing p n start with
  | nil =>
    obtain rfl : n = 0 := Nat.le_zero.mp hn
    exact Or.inl ⟨by rw [← hq]; rfl, by rw [← hq]; rfl⟩
  | cons c cs ih =>
    rcases Nat.lt_or_ge n c.utf8Size with hwithin | hpast
    · rw [Position.forward_of_lt cs hwithin] at hq
      exact Or.inl ⟨by rw [← hq], by rw [← hq]⟩
    · rw [Position.forward_of_le cs hpast] at hq
      rw [byteLength] at hn ⊢
      have hpos := c.utf8Size_pos
      have hrest := ih (p.past c) (start + c.utf8Size) (by omega) hq
      by_cases hc : c = '\n'
      · have hline : (p.past c).line = p.line + 1 := by rw [Position.past, if_pos hc]
        have hcolumn : (p.past c).column = 0 := by rw [Position.past, if_pos hc]
        rw [hline, hcolumn, Nat.zero_add] at hrest
        -- The line break is behind: of the lines to go, one is done.
        have hfound (hlater : p.line < q.line) : lineStart start (q.line - p.line + 1) (c :: cs)
            = lineStart (start + c.utf8Size) (q.line - p.line) cs := by
          rw [lineStart_cons cs (by omega), if_pos hc, Nat.add_sub_cancel]
        right
        rcases hrest with ⟨hsame, htold⟩ | ⟨hlater, htold, hrest⟩
        · have hnext : q.line - p.line = 1 := by omega
          refine ⟨by omega, by omega, ?_⟩
          rw [hfound (by omega), hnext, lineStart_one _ (n - c.utf8Size), ← htold,
            ← byteBack_add c.utf8Size (by omega), htold]
        · have hnext : q.line - p.line = q.line - (p.line + 1) + 1 := by omega
          refine ⟨by omega, by omega, ?_⟩
          rw [hfound (by omega), hnext, hrest, byteBack_add c.utf8Size (by omega)]
      · have hline : (p.past c).line = p.line := by rw [Position.past, if_neg hc]
        have hcolumn : (p.past c).column = p.column + c.utf8Size := by
          rw [Position.past, if_neg hc]
        rw [hline, hcolumn] at hrest
        rcases hrest with ⟨hsame, htold⟩ | ⟨hlater, htold, hrest⟩
        · exact Or.inl ⟨hsame, by omega⟩
        · refine Or.inr ⟨hlater, by omega, ?_⟩
          rw [lineStart_cons cs (by omega), if_neg hc, hrest, byteBack_add c.utf8Size (by omega)]

/-- The line of a byte is found where the column tells that it began. -/
theorem lineStart_positionAt {cs : List Char} {i : Nat} (h : i ≤ byteLength cs) :
    (positionAt cs i).column ≤ i ∧ lineStart 0 (positionAt cs i).line cs
      = byteBack 0 (byteLength cs) i (positionAt cs i).column := by
  rcases forward_cases ⟨1, 0⟩ 0 h rfl with ⟨hline, hcolumn⟩ | ⟨hlater, hle, hfound⟩
  · rw [Nat.zero_add] at hcolumn
    rw [positionAt, hline, hcolumn]
    exact ⟨Nat.le_refl i, lineStart_one 0 i cs⟩
  · rw [Nat.sub_add_cancel hlater.le] at hfound
    exact ⟨hle, hfound⟩

/-- The offset of a place is that of the byte before it, and of its own byte where its line
begins. -/
theorem offsetOf_positionAt {cs : List Char} {i : Nat} (h : i ≤ byteLength cs) :
    offsetOf cs (positionAt cs i)
      = if 1 ≤ (positionAt cs i).column then some (i - 1)
        else if i < byteLength cs then some i else none := by
  obtain ⟨hle, hstart⟩ := lineStart_positionAt h
  rw [offsetOf, hstart, byteBack, Nat.zero_add]
  by_cases hcolumn : 1 ≤ (positionAt cs i).column
  · have hoffset : i - (positionAt cs i).column + ((positionAt cs i).column - 1) = i - 1 := by
      omega
    rw [if_pos hcolumn, if_pos (by omega), Option.bind_some, hoffset]
    exact if_pos (by omega)
  · have hzero : (positionAt cs i).column = 0 := by omega
    rw [if_neg hcolumn, hzero, Nat.sub_zero]
    by_cases hi : i < byteLength cs
    · rw [if_pos hi, Option.bind_some]
      exact if_pos h
    · rw [if_neg hi]
      rfl

/-- What is shown for a place lies in the text and on the line of the place. -/
theorem line_of_offset {s : String} {i offset : Nat} (hi : i ≤ s.utf8ByteSize)
    (h : offsetOf s.toList (positionAt s.toList i) = some offset) :
    offset < s.utf8ByteSize ∧
      (positionAt s.toList offset).line = (positionAt s.toList i).line := by
  rw [offsetOf_positionAt (by rw [byteLength_toList]; exact hi), byteLength_toList] at h
  by_cases hcolumn : 1 ≤ (positionAt s.toList i).column
  · rw [if_pos hcolumn] at h
    obtain ⟨j, rfl⟩ : ∃ j, i = j + 1 := by
      refine Nat.exists_eq_succ_of_ne_zero ?_
      rintro rfl
      rw [positionAt_eq, List.take_zero] at hcolumn
      exact absurd hcolumn (by decide)
    obtain rfl : j = offset := Option.some.inj h
    rw [positionAt_eq] at hcolumn
    rw [positionAt_eq, positionAt_eq]
    exact ⟨hi, line_behind_take hi (by omega)⟩
  · rw [if_neg hcolumn] at h
    split at h
    · obtain rfl : i = offset := Option.some.inj h
      exact ⟨‹_›, rfl⟩
    · cases h

end Text

open Text

/-! ## Faults in a JSON source -/

/-- The fault is told to be at a byte of the source, or at its end. -/
def Json.Fault.IsIn (fault : Json.Fault) (source : String) : Prop :=
  ∃ i ≤ source.utf8ByteSize, fault.position = .behind ((bytesOf source).take i)

/-- The report shows nothing of the source, or a place in it that is on this line. -/
def LoadError.StaysOn (e : LoadError) (source : String) (line : Nat) : Prop :=
  e.span = none ∨ ∃ offset < source.utf8ByteSize, e.span = some ⟨offset, 0⟩ ∧
    (Position.behind ((bytesOf source).take offset)).line = line

theorem Json.isIn_of_read {k : Kind} {source : String} {fault : Json.Fault}
    (h : Json.read k source = .error fault) : fault.IsIn source := by
  unfold Json.read at h
  cases hall : Json.readAll k source.toList with
  | ok v => simp [hall, Except.mapError] at h
  | error failure =>
    rw [hall] at h
    obtain rfl : failure.fault source.toList = fault := Except.error.inj h
    unfold Json.Fault.IsIn
    simp only [← positionAt_eq, ← byteLength_toList]
    cases failure with
    | placed cause rest bytes => exact ⟨_, Nat.min_le_left _ _, rfl⟩
    | loose cause rest => exact ⟨_, Nat.sub_le _ _, rfl⟩

theorem Definition.isIn_of_parse {source : String} {fault : Json.Fault}
    (h : Definition.parse .json source = .error (.json fault)) : fault.IsIn source := by
  unfold Definition.parse at h
  cases hread : Json.read Schema.definition source with
  | ok v => simp [hread, Except.mapError, Except.map] at h
  | error fault' =>
    rw [hread] at h
    obtain rfl : fault' = fault := Refusal.json.inj (Except.error.inj h)
    exact Json.isIn_of_read hread

theorem LoadError.staysOn_of_isIn {source : String} {fault : Json.Fault} (h : fault.IsIn source)
    (name : String) :
    (LoadError.refused name source (.json fault)).StaysOn source fault.position.line := by
  obtain ⟨i, hi, hposition⟩ := h
  rw [← positionAt_eq] at hposition
  unfold LoadError.StaysOn LoadError.span
  simp only [hposition, ← positionAt_eq]
  cases hoffset : offsetOf source.toList (positionAt source.toList i) with
  | none => exact Or.inl rfl
  | some offset =>
    obtain ⟨hlt, hline⟩ := line_of_offset hi hoffset
    exact Or.inr ⟨offset, hlt, rfl, hline⟩

/-- The way from a position back to its byte. The place of any byte of a source, or of its end, is
told by a line and a column; what they lead back to is the byte before it, or the byte itself where
its line begins, and there is nothing to show on an empty line at the end. So a report of a fault in
a JSON source shows nothing or an empty stretch within the source and on the line that is told; and
there is no other fault, whether the source is given or is read from a file. -/
theorem reports_stay_on_their_line (source : String) :
    (∀ i ≤ source.utf8ByteSize,
      let p := Position.behind ((bytesOf source).take i)
      offsetOf source.toList p
        = if 1 ≤ p.column then some (i - 1) else if i < source.utf8ByteSize then some i else none) ∧
    (∀ (name : String) (fault : Json.Fault), fault.IsIn source →
      (LoadError.refused name source (.json fault)).StaysOn source fault.position.line) ∧
    (∀ name e, Definition.parseNamed .json name source = .error e →
      ∃ fault, e = .refused name source (.json fault) ∧ fault.IsIn source ∧
        e.StaysOn source fault.position.line) ∧
    ∀ readText path name fault,
      Definition.load readText path = .error (.refused name source (.json fault)) →
        fault.IsIn source ∧
          (LoadError.refused name source (.json fault)).StaysOn source fault.position.line := by
  refine ⟨fun i hi => ?_, fun name fault h => LoadError.staysOn_of_isIn h name,
    fun name e he => ?_, fun readText path name fault he => ?_⟩
  · have hwithin : i ≤ byteLength source.toList := by
      rw [byteLength_toList]
      exact hi
    have hback := offsetOf_positionAt hwithin
    rw [positionAt_eq, byteLength_toList] at hback
    exact hback
  · obtain ⟨refusal, hparse, hformat, rfl⟩ := Definition.exists_refusal he
    cases refusal with
    | toml span => cases hformat
    | json fault =>
      have hin := Definition.isIn_of_parse hparse
      exact ⟨fault, rfl, hin, LoadError.staysOn_of_isIn hin name⟩
  · rcases Definition.cases_of_load_eq_error he with h | h |
      ⟨format, text, refusal, -, -, hparse, hformat, h⟩
    · cases h
    · cases h
    · obtain ⟨rfl, rfl, rfl⟩ := LoadError.refused.inj h
      obtain rfl : SourceFormat.json = format := hformat
      have hin := Definition.isIn_of_parse hparse
      exact ⟨hin, LoadError.staysOn_of_isIn hin _⟩

/-- On the second line, behind a letter of two bytes, a colon is missing: the report shows the byte
that stands in its place. A place between the two bytes of the letter leads back as well. -/
theorem the_place_of_a_missing_colon_is_shown :
    let source := "\x7b\n\"é\" 1"
    let fault : Json.Fault := ⟨.expectedColon, ⟨2, 6⟩⟩
    let e : LoadError := .refused "a.json" source (.json fault)
    (4 ≤ source.utf8ByteSize ∧ offsetOf source.toList ⟨2, 2⟩ = some 3) ∧
    (fault.IsIn source ∧ e.StaysOn source 2 ∧ e.span = some ⟨7, 0⟩) ∧
    Definition.parseNamed .json "a.json" source = .error e ∧
    Definition.load (fun _ => some source) "a.json" = .error e := by
  intro source fault e
  obtain ⟨hback, hstays, -, hload⟩ := reports_stay_on_their_line source
  have hread : Definition.parseNamed .json "a.json" "\x7b\n\"é\" 1" = .error (.refused "a.json"
    "\x7b\n\"é\" 1" (.json ⟨.expectedColon, ⟨2, 6⟩⟩)) := rfl
  have hfile : Definition.load (fun _ => some source) "a.json" = .error e := hread
  obtain ⟨hin, -⟩ := hload _ _ _ _ hfile
  exact ⟨⟨by decide, hback 4 (by decide)⟩, ⟨hin, hstays "a.json" fault hin, by decide⟩, hread,
    hfile⟩

end ModelScribe
