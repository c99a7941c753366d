-- Enumerations read back. A definition states names and values as two lists
-- that belong together by position, and the text drops the members without a
-- name and sets its commas after that. So the text has to tell all over again
-- which value is whose: what stands between the braces, cut at the commas and
-- each part at its equals sign, gives every named member with its own value.
import ModelScribe.Definition
import ModelScribe.Proofs.Joining
import ModelScribe.Proofs.Tree

namespace ModelScribe

open Text

/-! ## Trimmed texts -/

namespace Text

/-- The first character and the last one are no white space. -/
def Tight (cs : List Char) : Prop :=
  (∀ c ∈ cs.head?, isSpace c = false) ∧ ∀ c ∈ cs.getLast?, isSpace c = false

instance (cs : List Char) : Decidable (Tight cs) :=
  decidable_of_iff
      ((cs.head?.all fun c => !isSpace c) ∧ cs.getLast?.all fun c => !isSpace c) <| by
    simp only [Tight, Option.all_eq_true, Bool.not_eq_true', Option.mem_def]

theorem dropWhile_isSpace {gap cs : List Char} (hgap : ∀ c ∈ gap, isSpace c)
    (hcs : ∀ c ∈ cs.head?, isSpace c = false) : (gap ++ cs).dropWhile isSpace = cs := by
  rw [List.dropWhile_append_of_pos hgap]
  cases cs with
  | nil => rfl
  | cons c cs => rw [List.dropWhile_cons_of_neg (by simp [hcs c rfl])]

/-- Trimming takes the white space at the two ends and nothing else. -/
theorem trimChars_padded {gap cs gap' : List Char} (hgap : ∀ c ∈ gap, isSpace c) (hcs : Tight cs)
    (hne : cs ≠ []) (hgap' : ∀ c ∈ gap', isSpace c) : trimChars (gap ++ cs ++ gap') = cs := by
  have hhead : ∀ c ∈ (cs ++ gap').head?, isSpace c = false := by
    obtain ⟨c, cs, rfl⟩ := List.exists_cons_of_ne_nil hne
    exact hcs.1
  have hlast : ∀ c ∈ cs.reverse.head?, isSpace c = false := by
    rw [List.head?_reverse]
    exact hcs.2
  rw [trimChars, List.append_assoc, dropWhile_isSpace hgap hhead, List.reverse_append,
    dropWhile_isSpace (by simpa using hgap') hlast, List.reverse_reverse]

end Text

namespace Layout

variable (l : Layout)

theorem isSpace_of_mem_space : ∀ c ∈ l.space.toList, isSpace c :=
  List.all_eq_true.mp l.isBlank_space

theorem isSpace_of_mem_newline : ∀ c ∈ l.newline.toList, isSpace c :=
  List.all_eq_true.mp l.isBlank_newline

theorem isSpace_of_mem_tab : ∀ c ∈ l.tab.toList, isSpace c :=
  List.all_eq_true.mp l.isBlank_tab

end Layout

/-! ## A reader of enumerations -/

namespace Enumeration

/-- What the text of an enumeration begins with. -/
def opening : String := "export enum "

/-- A member, read from what stands between two commas: its name, and its value if there is an
equals sign. -/
def readMember (part : List Char) : Option (String × Option String) :=
  match part.splitOn '=' with
  | [name] => some (String.ofList (trimChars name), none)
  | [name, value] =>
    some (String.ofList (trimChars name), some (String.ofList (trimChars value)))
  | _ => none

/-- The members, read from what stands between the braces. -/
def readMembers (content : List Char) : Option (List (String × Option String)) :=
  if content.all isSpace then some [] else (content.splitOn ',').mapM readMember

/-- The name and the members of an enumeration, read from its text. -/
def read (text : String) : Option (String × List (String × Option String)) :=
  match text.toList.splitOn '\x7b' with
  | [head, behind] =>
    match behind.splitOn '\x7d' with
    | [content, []] =>
      if opening.toList.isPrefixOf head then
        (readMembers content).map fun members =>
          (String.ofList (trimChars (head.drop opening.length)), members)
      else none
    | _ => none
  | _ => none

end Enumeration

/-! ## Plain texts -/

/-- The characters that the reader goes by. -/
def enumSigns : List Char := [',', '=', '\x7b', '\x7d', '\n']

/-- None of the characters that the reader goes by, and no white space around it unless it is
blank. -/
structure Plain (s : String) : Prop where
  unsigned : ∀ c ∈ enumSigns, c ∉ s.toList
  trimmed : isBlank s = true ∨ Tight s.toList

instance (s : String) : Decidable (Plain s) :=
  decidable_of_iff
      ((enumSigns.all fun c => c ∉ s.toList) ∧ (isBlank s = true ∨ Tight s.toList)) <| by
    simp only [List.all_eq_true, decide_eq_true_eq]
    exact ⟨fun h => ⟨h.1, h.2⟩, fun h => ⟨h.1, h.2⟩⟩

theorem ne_nil_of_visible {s : String} (h : isBlank s = false) : s.toList ≠ [] := by
  intro hnil
  rw [isBlank, hnil] at h
  cases h

theorem Plain.tight {s : String} (h : Plain s) (hvisible : isBlank s = false) : Tight s.toList :=
  h.trimmed.resolve_left (by simp [hvisible])

/-- White space is none of the characters that a member is read by. -/
theorem sign_not_mem_gap {gap : List Char} (hgap : ∀ c ∈ gap, isSpace c) {c : Char}
    (hc : isSpace c = false) : c ∉ gap := by
  intro hmem
  rw [hgap c hmem] at hc
  cases hc

/-! ## Members -/

namespace EnumMember

/-- What a member states. -/
def stated (m : EnumMember) : String × Option String := (m.name, nonBlank m.value)

theorem isBlank_doc (m : EnumMember) : m.doc.isBlank = isBlank m.name := by
  unfold doc
  cases hname : isBlank m.name with
  | true => rfl
  | false =>
    cases nonBlank m.value <;> simp [Doc.isBlank, Mark.isBlank, hname]

/-- A stretch of text with a member in it, and white space around. -/
inductive Pads (l : Layout) (m : EnumMember) : List Char → Prop
  | intro {gap gap' : List Char} (hgap : ∀ c ∈ gap, isSpace c) (hgap' : ∀ c ∈ gap', isSpace c) :
    Pads l m (gap ++ l.chars m.doc ++ gap')

section

variable {l : Layout} {m : EnumMember} {part : List Char}

/-- What stands between two commas says which member it is. -/
theorem readMember_of_pads (hname : isBlank m.name = false) (hplain : Plain m.name)
    (hvalue : ∀ v ∈ m.value, Plain v) (h : Pads l m part) :
    Enumeration.readMember part = some m.stated := by
  obtain ⟨hgap, hgap'⟩ := h
  rename_i gap gap'
  have heq : isSpace '=' = false := rfl
  have hsign {s : String} (hs : Plain s) : '=' ∉ s.toList := hs.unsigned _ (by decide)
  have htight := hplain.tight hname
  have hne := ne_nil_of_visible hname
  unfold Enumeration.readMember stated doc
  rw [if_neg (by simp [hname])]
  cases hv : nonBlank m.value with
  | none =>
    have hone : '=' ∉ gap ++ m.name.toList ++ gap' := by
      simp [sign_not_mem_gap hgap heq, sign_not_mem_gap hgap' heq, hsign hplain]
    simp only [Layout.chars_cons, Layout.chars_nil, Layout.mark, List.append_nil]
    rw [List.splitOn_eq_singleton hone]
    simp only [trimChars_padded hgap htight hne hgap', String.ofList_toList]
  | some v =>
    obtain ⟨hv, hvisible⟩ := nonBlank_eq_some.mp hv
    have hspace := l.isSpace_of_mem_space
    have hplainv := hvalue v hv
    have hleft : '=' ∉ gap ++ m.name.toList ++ l.space.toList := by
      simp [sign_not_mem_gap hgap heq, sign_not_mem_gap hspace heq, hsign hplain]
    have hright : '=' ∉ l.space.toList ++ v.toList ++ gap' := by
      simp [sign_not_mem_gap hgap' heq, sign_not_mem_gap hspace heq, hsign hplainv]
    have hcut : gap ++ l.chars [.text m.name, .space, .text "=", .space, .text v] ++ gap'
        = (gap ++ m.name.toList ++ l.space.toList) ++ '=' ::
          (l.space.toList ++ v.toList ++ gap') := by
      simp [Layout.mark]
    simp only [hcut]
    rw [List.splitOn_append_cons_self, List.splitOn_eq_singleton hleft,
      List.splitOn_eq_singleton hright]
    simp only [List.singleton_append, trimChars_padded hgap htight hne hspace,
      trimChars_padded hspace (hplainv.tight hvisible) (ne_nil_of_visible hvisible) hgap',
      String.ofList_toList]

/-- Of the characters that the reader goes by, a member has the equals sign alone. -/
theorem sign_not_mem_of_pads (hplain : Plain m.name) (hvalue : ∀ v ∈ m.value, Plain v)
    (h : Pads l m part) {c : Char} (hc : c ∈ enumSigns) (heq : c ≠ '=')
    (hspace : isSpace c = false) : c ∉ part := by
  obtain ⟨hgap, hgap'⟩ := h
  have hdoc : c ∉ l.chars m.doc := by
    have hgapless : c ∉ l.space.toList := sign_not_mem_gap l.isSpace_of_mem_space hspace
    unfold doc
    split
    · exact List.not_mem_nil
    · split
      · rename_i v hv
        have hv := hvalue v (nonBlank_eq_some.mp hv).1
        simp [Layout.mark, hplain.unsigned c hc, hv.unsigned c hc, hgapless, heq]
      · simp [Layout.mark, hplain.unsigned c hc]
  simp [sign_not_mem_gap hgap hspace, sign_not_mem_gap hgap' hspace, hdoc]

end

end EnumMember

/-! ## The content of the braces -/

namespace Enumeration

variable {l : Layout} {ms : List EnumMember}

/-- The members that have a name. -/
def namedMembers (e : Enumeration) : List EnumMember := e.members.filter (!isBlank ·.name)

/-- The members between the braces, each on its line. -/
def contentDoc (ms : List EnumMember) : Doc :=
  .line :: ([Mark.text ",", .line].intercalate (ms.map fun m => .tab :: m.doc) ++ [.line])

theorem membersDoc_eq (e : Enumeration) :
    e.membersDoc
      = [Mark.text ",", .line].intercalate (e.namedMembers.map fun m => .tab :: m.doc) := by
  unfold membersDoc namedMembers
  rw [List.filter_map, List.map_map]
  simp only [Function.comp_def, EnumMember.isBlank_doc]

/-- The commas between the braces are those between the members. -/
theorem exists_pieces (l : Layout) (hne : ms ≠ []) :
    ∃ pieces : List (EnumMember × List Char), pieces.map (·.1) = ms ∧
      (∀ p ∈ pieces, EnumMember.Pads l p.1 p.2) ∧
      l.chars (contentDoc ms) = [','].intercalate (pieces.map (·.2)) := by
  have hbefore : ∀ c ∈ l.newline.toList ++ l.tab.toList, isSpace c :=
    List.forall_mem_append.mpr ⟨l.isSpace_of_mem_newline, l.isSpace_of_mem_tab⟩
  induction ms with
  | nil => exact absurd rfl hne
  | cons m ms ih =>
    cases ms with
    | nil =>
      have hpads := EnumMember.Pads.intro (l := l) (m := m) hbefore l.isSpace_of_mem_newline
      exact ⟨[(m, _)], rfl, List.forall_mem_singleton.mpr hpads, by simp [contentDoc, Layout.mark]⟩
    | cons m' ms =>
      obtain ⟨pieces, hfirst, hpads, hchars⟩ := ih (List.cons_ne_nil m' ms)
      obtain ⟨p, pieces, rfl⟩ :=
        List.exists_cons_of_ne_nil (l := pieces) (by rintro rfl; cases hfirst)
      have hpad := EnumMember.Pads.intro (l := l) (m := m) hbefore (List.forall_mem_nil _)
      refine ⟨(m, _) :: p :: pieces, by rw [List.map_cons, hfirst],
        List.forall_mem_cons.mpr ⟨hpad, hpads⟩, ?_⟩
      rw [List.map_cons, List.map_cons, List.intercalate_cons_cons, ← List.map_cons, ← hchars]
      simp [contentDoc, List.intercalate_cons_cons, Layout.mark]

theorem not_all_isSpace (l : Layout) (hne : ms ≠ []) (hname : ∀ m ∈ ms, isBlank m.name = false) :
    (l.chars (contentDoc ms)).all isSpace = false := by
  have hblank : isBlank (l.write (contentDoc ms)) = false := by
    obtain ⟨m, ms, rfl⟩ := List.exists_cons_of_ne_nil hne
    have hm : m.doc.isBlank = false := m.isBlank_doc.trans (hname m List.mem_cons_self)
    rw [Layout.isBlank_write]
    unfold Doc.isBlank at hm ⊢
    cases ms <;> simp [contentDoc, List.intercalate_cons_cons, hm]
  simpa [isBlank] using hblank

/-- What stands between the braces is read as what the members state. -/
theorem readMembers_contentDoc (l : Layout) (hne : ms ≠ [])
    (hname : ∀ m ∈ ms, isBlank m.name = false)
    (hplain : ∀ m ∈ ms, Plain m.name ∧ ∀ v ∈ m.value, Plain v) :
    readMembers (l.chars (contentDoc ms)) = some (ms.map (·.stated)) ∧
      '\x7b' ∉ l.chars (contentDoc ms) ∧ '\x7d' ∉ l.chars (contentDoc ms) := by
  obtain ⟨pieces, hfirst, hpads, hchars⟩ := exists_pieces l hne
  have hmem {p : EnumMember × List Char} (hp : p ∈ pieces) : p.1 ∈ ms :=
    hfirst ▸ List.mem_map_of_mem hp
  have hsign {c : Char} (hc : c ∈ enumSigns) (heq : c ≠ '=') (hspace : isSpace c = false) :
      ∀ part ∈ pieces.map (·.2), c ∉ part := by
    refine List.forall_mem_map.mpr fun p hp => ?_
    obtain ⟨hn, hv⟩ := hplain _ (hmem hp)
    exact EnumMember.sign_not_mem_of_pads hn hv (hpads p hp) hc heq hspace
  have hread : (pieces.map (·.2)).mapM readMember = some (ms.map (·.stated)) := by
    rw [← hfirst, List.mapM_map, List.map_map]
    refine (mapM_congr fun p hp => ?_).trans (List.mapM_pure ..)
    have hm := hmem hp
    exact EnumMember.readMember_of_pads (hname _ hm) (hplain _ hm).1 (hplain _ hm).2 (hpads p hp)
  have hparts : pieces.map (·.2) ≠ [] := by
    rintro hnil
    rw [List.map_eq_nil_iff.mp hnil] at hfirst
    exact hne hfirst.symm
  refine ⟨?_, fun hbrace => ?_, fun hbrace => ?_⟩
  · rw [readMembers, if_neg (by simp [not_all_isSpace l hne hname]), hchars,
      List.splitOn_intercalate ',' (hsign (by decide) (by decide) rfl) hparts, hread]
  all_goals
    rw [hchars] at hbrace
    rcases Doc.mem_intercalate hbrace with hcomma | ⟨part, hpart, hmem⟩
    · exact absurd hcomma (by decide)
    · exact hsign (by decide) (by decide) rfl part hpart hmem

/-! ## The whole text -/

/-- The first line of an enumeration, then what stands between the braces. -/
theorem doc_eq (e : Enumeration) (hname : isBlank e.name = false) :
    e.doc = .cat [["export enum ", e.name, .space, "\x7b"],
      if e.namedMembers = [] then [.line] else contentDoc e.namedMembers, ["\x7d"]] := by
  have hheader : Doc.isBlank ["export enum ", e.name, .space, "\x7b"] = false := by
    simp [Doc.isBlank, Mark.isBlank, hname]
  have hclosing : Doc.isBlank ["\x7d"] = false := by decide
  rw [doc, if_neg (by simp [hname]), membersDoc_eq]
  split
  case isTrue hnone =>
    rw [hnone, Doc.join]
    simp only [List.filter_cons, hheader, hclosing]
    rfl
  case isFalse hsome =>
    have hvisible : Doc.isBlank ([Mark.text ",", .line].intercalate
        (e.namedMembers.map fun m => .tab :: m.doc)) = false := by
      obtain ⟨m, ms, hms⟩ := List.exists_cons_of_ne_nil hsome
      have hm : m.doc.isBlank = false := by
        have hmem : m ∈ e.namedMembers := hms ▸ List.mem_cons_self
        rw [m.isBlank_doc]
        simpa using (List.mem_filter.mp hmem).2
      unfold Doc.isBlank at hm ⊢
      rw [hms]
      cases ms <;> simp [List.intercalate_cons_cons, hm]
    rw [Doc.join]
    simp only [List.filter_cons, hheader, hvisible, hclosing]
    simp [List.intercalate_cons_cons, contentDoc]

/-- The text of an enumeration has one opening and one closing brace, and its members between
them. -/
theorem exists_content (l : Layout) {e : Enumeration} (hname : isBlank e.name = false)
    (hplain : ∀ m ∈ e.members, Plain m.name ∧ ∀ v ∈ m.value, Plain v) :
    ∃ content, l.chars e.doc
        = (opening.toList ++ e.name.toList ++ l.space.toList) ++ '\x7b' :: (content ++ ['\x7d']) ∧
      readMembers content = some (e.namedMembers.map (·.stated)) ∧
      '\x7b' ∉ content ∧ '\x7d' ∉ content := by
  rw [doc_eq e hname]
  split
  case isTrue hnone =>
    refine ⟨l.newline.toList, by simp [Layout.mark, opening], ?_, ?_, ?_⟩
    · rw [readMembers, if_pos (List.all_eq_true.mpr l.isSpace_of_mem_newline), hnone]
      rfl
    all_goals exact sign_not_mem_gap l.isSpace_of_mem_newline rfl
  case isFalse hsome =>
    have hnamed : ∀ m ∈ e.namedMembers, isBlank m.name = false := fun m hm => by
      simpa using (List.mem_filter.mp hm).2
    have hcontent := readMembers_contentDoc l hsome hnamed
      fun m hm => hplain m (List.mem_filter.mp hm).1
    exact ⟨_, by simp [Layout.mark, opening], hcontent⟩

/-- The text of an enumeration is read as its name and what its named members state. -/
theorem read_write (l : Layout) {e : Enumeration} (hname : isBlank e.name = false)
    (hplainName : Plain e.name)
    (hplain : ∀ m ∈ e.members, Plain m.name ∧ ∀ v ∈ m.value, Plain v) :
    read (l.write e.doc) = some (e.name, e.namedMembers.map (·.stated)) := by
  obtain ⟨content, hchars, hread, hopen, hclose⟩ := exists_content l hname hplain
  have hspace : '\x7b' ∉ l.space.toList := sign_not_mem_gap l.isSpace_of_mem_space rfl
  have hhead : '\x7b' ∉ opening.toList ++ e.name.toList ++ l.space.toList := by
    have hopening : '\x7b' ∉ opening.toList := by decide
    simp [hopening, hspace, hplainName.unsigned '\x7b' (by decide)]
  have hbehind : '\x7b' ∉ content ++ ['\x7d'] := by simp [hopen]
  have htrim : trimChars (e.name.toList ++ l.space.toList) = e.name.toList :=
    trimChars_padded (List.forall_mem_nil _) (hplainName.tight hname) (ne_nil_of_visible hname)
      l.isSpace_of_mem_space
  have hdrop : (opening.toList ++ e.name.toList ++ l.space.toList).drop opening.length
      = e.name.toList ++ l.space.toList := by
    rw [List.append_assoc, List.drop_left']
    rfl
  rw [read, Layout.toList_write, hchars, List.splitOn_append_cons_self,
    List.splitOn_eq_singleton hhead, List.splitOn_eq_singleton hbehind]
  simp only [List.singleton_append]
  rw [List.splitOn_append_cons_self, List.splitOn_eq_singleton hclose]
  simp only [List.singleton_append, List.splitOn_nil, hdrop, htrim, hread, String.ofList_toList]
  simp

end Enumeration

/-! ## Names and values by position -/

namespace EnumDefinition

/-- What a definition states: the names that are not blank, each with the value at its position
unless that is missing or blank. -/
def stated (d : EnumDefinition) : List (String × Option String) :=
  (d.names.mapIdx fun i n => (n, nonBlank d.values[i]?)).filter (!isBlank ·.1)

/-- The definition without the name and the value at a position. -/
def without (d : EnumDefinition) (i : Nat) : EnumDefinition :=
  { d with names := d.names.eraseIdx i, values := d.values.eraseIdx i }

theorem pair_eq_mapIdx (names values : List String) :
    pair names values = names.mapIdx fun i n => { name := n, value := values[i]? } := by
  induction names generalizing values with
  | nil => rfl
  | cons n names ih =>
    cases values with
    | nil => simp [pair, List.mapIdx_cons, ih]
    | cons v values => simp [pair, List.mapIdx_cons, ih]

theorem map_stated_namedMembers (d : EnumDefinition) :
    d.enumeration.namedMembers.map (·.stated) = d.stated := by
  have hmap : (pair d.names d.values).map (·.stated)
      = d.names.mapIdx fun i n => (n, nonBlank d.values[i]?) := by
    rw [pair_eq_mapIdx]
    exact List.ext_getElem (by simp) fun i _ _ => by simp [EnumMember.stated]
  rw [stated, ← hmap, List.filter_map]
  rfl

theorem mem_pair {names values : List String} {m : EnumMember} (h : m ∈ pair names values) :
    m.name ∈ names ∧ ∀ v ∈ m.value, v ∈ values := by
  rw [pair_eq_mapIdx] at h
  obtain ⟨i, hi, rfl⟩ := List.mem_mapIdx.mp h
  exact ⟨List.getElem_mem hi, fun v hv => List.mem_of_getElem? hv⟩

/-- A value without a name of its own belongs to no member. -/
theorem pair_append (names values extra : List String) (h : names.length ≤ values.length) :
    pair names (values ++ extra) = pair names values := by
  rw [pair_eq_mapIdx, pair_eq_mapIdx]
  refine List.ext_getElem (by simp) fun i hi _ => ?_
  have hi : i < values.length := by
    rw [List.length_mapIdx] at hi
    omega
  simp [List.getElem?_append_left hi]

/-- A blank name takes its value along and leaves the others as they are. -/
theorem filter_pair_eraseIdx {names values : List String} {i : Nat} {n : String}
    (hn : names[i]? = some n) (hblank : isBlank n = true) :
    (pair (names.eraseIdx i) (values.eraseIdx i)).filter (!isBlank ·.name)
      = (pair names values).filter (!isBlank ·.name) := by
  induction names generalizing i values with
  | nil => cases hn
  | cons first names ih =>
    cases i with
    | zero =>
      obtain rfl := Option.some.inj hn
      cases values <;> simp [pair, hblank]
    | succ i =>
      cases values with
      | nil =>
        have hrest := @ih [] i hn
        rw [List.eraseIdx_nil] at hrest ⊢
        simp [pair, List.filter_cons, hrest]
      | cons v values => simp [pair, List.filter_cons, ih hn]

theorem doc_congr (d d' : EnumDefinition) (hname : d.name = d'.name)
    (hmembers : d.enumeration.namedMembers = d'.enumeration.namedMembers) :
    d.enumeration.doc = d'.enumeration.doc := by
  unfold Enumeration.doc
  rw [Enumeration.membersDoc_eq, Enumeration.membersDoc_eq, hmembers]
  rw [show d.enumeration.name = d'.enumeration.name from hname]

/-- The text of an enumeration tells its members: in every layout it is read as the name and the
names and values that the definition states, position by position. A member without a name takes
only its own value along, and surplus values count for nothing. -/
theorem the_text_of_an_enumeration_tells_its_members (l : Layout) (d : EnumDefinition) :
    (isBlank d.name = false → (∀ s ∈ d.name :: (d.names ++ d.values), Plain s) →
      Enumeration.read (l.write d.enumeration.doc) = some (d.name, d.stated)) ∧
    (∀ i n, d.names[i]? = some n → isBlank n = true →
      l.write (d.without i).enumeration.doc = l.write d.enumeration.doc) ∧
    ∀ extra, d.names.length ≤ d.values.length →
      l.write ({ d with values := d.values ++ extra } : EnumDefinition).enumeration.doc
        = l.write d.enumeration.doc := by
  refine ⟨fun hname hplain => ?_, fun i n hn hblank => ?_, fun extra hlength => ?_⟩
  · obtain ⟨hplainName, hplain⟩ := List.forall_mem_cons.mp hplain
    obtain ⟨hnames, hvalues⟩ := List.forall_mem_append.mp hplain
    rw [← map_stated_namedMembers]
    exact Enumeration.read_write l hname hplainName fun m hm =>
      ⟨hnames _ (mem_pair hm).1, fun v hv => hvalues v ((mem_pair hm).2 v hv)⟩
  · rw [doc_congr (d.without i) d rfl (filter_pair_eraseIdx hn hblank)]
  · rw [doc_congr { d with values := d.values ++ extra } d rfl
      (by simp only [Enumeration.namedMembers, enumeration, pair_append _ _ _ hlength])]

/-- Levels of which one has no name and one has no value of its own. -/
def levels : EnumDefinition where
  name := "Level"
  names := ["Low", " ", "High", "Top"]
  values := ["1", "2", "", "'the top'"]

theorem the_levels_are_told_by_their_text :
    Enumeration.read ((Layout.pretty 2).write levels.enumeration.doc)
        = some ("Level", [("Low", some "1"), ("High", none), ("Top", some "'the top'")]) ∧
      Layout.compact.write (levels.without 1).enumeration.doc
        = Layout.compact.write levels.enumeration.doc ∧
      Layout.compact.write ({ levels with
          values := levels.values ++ ["9", "\x7d"] } : EnumDefinition).enumeration.doc
        = Layout.compact.write levels.enumeration.doc :=
  ⟨(the_text_of_an_enumeration_tells_its_members (.pretty 2) levels).1 (by decide) (by decide),
    (the_text_of_an_enumeration_tells_its_members .compact levels).2.1 1 " " rfl (by decide),
    (the_text_of_an_enumeration_tells_its_members .compact levels).2.2 ["9", "\x7d"] (by decide)⟩

end EnumDefinition

end ModelScribe
