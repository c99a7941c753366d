-- The listings of a manifest. As JSON the three lists stand under their keys,
-- on one line or on many, whatever characters the names have, and nothing
-- else of the run stands there. As lines to read, a heading opens each list
-- that is not empty and every name is indented, so no name can be taken for a
-- heading, even where it looks like one, as long as it is on one line.
import Mathlib.Data.List.TakeWhile
import ModelScribe.Program
import ModelScribe.Proofs.Joining
import ModelScribe.Proofs.JsonTrees

namespace ModelScribe

/-! ## Strings -/

namespace Json

/-- Each character is written in one of its ways. -/
theorem spellsChar_escape (c : Char) : SpellsChar c (escape c) := by
  have hshort {d e : Char} (hd : c = d) (h : (d, e) ∈ shortEscapes) : SpellsChar c ['\\', e] :=
    hd ▸ .escape (.short h)
  unfold escape
  split
  case isTrue h => exact hshort h (by decide)
  split
  case isTrue h => exact hshort h (by decide)
  split
  case isTrue h => exact hshort h (by decide)
  split
  case isTrue h => exact hshort h (by decide)
  split
  case isTrue h => exact hshort h (by decide)
  split
  case isTrue h => exact hshort (d := '\x08') (Char.toNat_inj.mp h) (by decide)
  split
  case isTrue h => exact hshort (d := '\x0c') (Char.toNat_inj.mp h) (by decide)
  split
  case isTrue h =>
    have hdigits : ∀ n < 32,
        Text.digitsValue 16 ['0', '0', hexDigit (n / 16), hexDigit (n % 16)] = some n := by decide
    exact .escape (.unit rfl (hdigits _ h))
  case isFalse hquote hbackslash _ _ _ _ _ h =>
    exact .plain hquote hbackslash (Nat.not_lt.mp h)

theorem quotes_quote (s : String) : grammar.Quotes s (quote s).toList := by
  have hquotes := Grammar.Quotes.intro (g := grammar) (s.toList.map fun c => (c, escape c))
    (List.forall_mem_map.mpr fun c _ => spellsChar_escape c)
  simpa [quote, List.map_map, Function.comp_def, List.flatMap_map] using hquotes

/-! ## Lists and objects -/

/-- Chunks with commas between them, a gap before each of them and another behind the last. -/
def spaced (gap gap' : List Char) : List (List Char) → List Char
  | [] => []
  | chunk :: chunks => gap ++ (chunk ++ (chunks.flatMap (fun c => ',' :: (gap ++ c)) ++ gap'))

theorem separated_spaced {gap gap' : List Char} (hgap : ∀ c ∈ gap, isSpace c)
    (hgap' : ∀ c ∈ gap', isSpace c) (chunks : List (List Char)) :
    Separated isSpace true chunks (spaced gap gap' chunks) := by
  have hrest (chunks : List (List Char)) : Separated isSpace false chunks
      (chunks.flatMap (fun c => ',' :: (gap ++ c)) ++ gap') := by
    induction chunks with
    | nil => exact .done hgap'
    | cons c chunks ih =>
      have hnext : Separated isSpace false (c :: chunks) _ :=
        .next (List.forall_mem_nil _) hgap ih
      simpa using hnext
  cases chunks with
  | nil => exact .done (List.forall_mem_nil _)
  | cons chunk chunks => exact .first hgap (hrest chunks)

theorem intercalate_comma (chunks : List (List Char)) :
    [','].intercalate chunks = spaced [] [] chunks := by
  cases chunks with
  | nil => rfl
  | cons chunk chunks => simp [spaced, Doc.intercalate_cons_flatMap]

theorem toList_stringList (xs : List String) :
    (stringList xs).toList = '[' :: (spaced [] [] (xs.map fun x => (quote x).toList) ++ [']']) := by
  simp [stringList, intercalate_comma, Function.comp_def]

theorem toList_block (opening closing indentation : String) (items : List String) :
    (block opening closing indentation items).toList
      = opening.toList ++ spaced ('\n' :: (indentation.toList ++ [' ', ' ']))
        ('\n' :: indentation.toList) (items.map (·.toList)) ++ closing.toList := by
  cases items with
  | nil => simp [block, spaced]
  | cons item items =>
    simp [block, spaced, String.toList_intercalate, Doc.intercalate_cons_flatMap, List.flatMap_map]

/-- A list of strings, whatever white space stands between its items. -/
theorem spells_strings {gap gap' : List Char} (hgap : ∀ c ∈ gap, isSpace c)
    (hgap' : ∀ c ∈ gap', isSpace c) (xs : List String) :
    grammar.Spells (.list (xs.map .text))
      ('[' :: (spaced gap gap' (xs.map fun x => (quote x).toList) ++ [']'])) := by
  let items := xs.map fun x => (Tree.text x, (quote x).toList)
  have hitems : ∀ p ∈ items, grammar.Spells p.1 p.2 := by
    simp only [items, List.forall_mem_map]
    exact fun x _ => .text (quotes_quote x)
  have hlist : grammar.Spells (.list (items.map (·.1))) _ :=
    .list items hitems (separated_spaced hgap hgap' _)
  simpa [items, Function.comp_def] using hlist

theorem names_of_quotes {key : String} {keyText after : List Char} (h : grammar.Quotes key keyText)
    (hafter : ∀ c ∈ after, isSpace c) (value : Tree) (valueText : List Char) :
    grammar.Names ⟨key, keyText, [], after, value, valueText⟩ :=
  ⟨.quoted h, List.forall_mem_nil _, hafter⟩

/-- Lists of strings under distinct keys, whatever white space stands behind a colon and between
the members. -/
theorem spells_object {gap gap' afterColon : List Char} {listText : List String → List Char}
    (hgap : ∀ c ∈ gap, isSpace c) (hgap' : ∀ c ∈ gap', isSpace c)
    (hcolon : ∀ c ∈ afterColon, isSpace c)
    (hlist : ∀ xs, grammar.Spells (.list (xs.map .text)) (listText xs))
    {es : List (String × List String)} (hkeys : (es.map (·.1)).Nodup) :
    grammar.Spells (.table (es.map fun e => (e.1, .list (e.2.map .text))))
      ('\x7b' :: (spaced gap gap'
        (es.map fun e => (quote e.1).toList ++ ':' :: (afterColon ++ listText e.2))
          ++ ['\x7d'])) := by
  let members : List Member := es.map fun e =>
    ⟨e.1, (quote e.1).toList, [], afterColon, .list (e.2.map .text), listText e.2⟩
  have hdistinct : (members.map (·.key)).Nodup := by
    simpa [members, Function.comp_def] using hkeys
  have hnames : ∀ m ∈ members, grammar.Names m := by
    simp only [members, List.forall_mem_map]
    exact fun e _ => names_of_quotes (quotes_quote e.1) hcolon ..
  have hvalues : ∀ m ∈ members, grammar.Spells m.value m.valueText := by
    simp only [members, List.forall_mem_map]
    exact fun e _ => hlist e.2
  have htable : grammar.Spells (.table (members.map (·.entry))) _ :=
    .table members hdistinct hnames hvalues (separated_spaced hgap hgap' _)
  simpa [members, Function.comp_def, Member.entry, Member.text, grammar] using htable

end Json

/-! ## The manifest as JSON -/

namespace Manifest

open Json

/-- The manifest as data: the three lists under their keys. -/
def tree (m : Manifest) : Tree := .table (m.entries.map fun e => (e.1, .list (e.2.map .text)))

theorem nodup_entries (m : Manifest) : (m.entries.map (·.1)).Nodup := by
  change ["classes", "enums", "interfaces"].Nodup
  decide

theorem states_of_toList {t : Tree} {document : String} (h : grammar.Spells t document.toList)
    (after : String) (hafter : ∀ c ∈ after.toList, isSpace c) : States t (document ++ after) := by
  have hstates := States.intro (List.forall_mem_nil _) h hafter
  rwa [List.nil_append, ← String.toList_append, String.ofList_toList] at hstates

theorem states_json (m : Manifest) : States m.tree m.json := by
  have hspace : ∀ c ∈ ([] : List Char), isSpace c := List.forall_mem_nil _
  have hobject := spells_object hspace hspace hspace (spells_strings hspace hspace) m.nodup_entries
  have htext : grammar.Spells m.tree m.json.toList := by
    simpa [tree, json, toList_stringList, intercalate_comma, Function.comp_def] using hobject
  simpa using states_of_toList htext "" (List.forall_mem_nil _)

/-- The JSON on many lines may have a line break behind it, as it is printed. -/
theorem states_prettyJson (m : Manifest) (after : String)
    (hafter : ∀ c ∈ after.toList, isSpace c) : States m.tree (m.prettyJson ++ after) := by
  have hspace (level : Nat) : ∀ c ∈ '\n' :: List.replicate level ' ', isSpace c := by
    simp +contextual [List.mem_replicate, isSpace]
  have hobject := spells_object (hspace 2) (hspace 0)
    (List.forall_mem_singleton.mpr (rfl : isSpace ' ' = true))
    (spells_strings (hspace 4) (hspace 2)) m.nodup_entries
  have htext : grammar.Spells m.tree m.prettyJson.toList := by
    simpa [tree, prettyJson, toList_block, Function.comp_def] using hobject
  exact states_of_toList htext after hafter

/-- What a reader may look for in the record of a run. -/
def runFields : Fields :=
  .cons "classes" (.list .text) <| .cons "enums" (.list .text) <|
  .cons "interfaces" (.list .text) <| .cons "output" .text .nil

theorem meaning_strings (xs : List String) :
    (Kind.list .text).meaning (.list (xs.map .text)) = some xs := by
  rw [Kind.meaning, List.mapM_map]
  exact (mapM_congr (g := fun x => pure (id x)) fun _ _ => rfl).trans
    (by rw [List.mapM_pure, List.map_id]; rfl)

theorem meaning_tree (m : Manifest) : (Kind.record "Generated" runFields).meaning m.tree
    = some (some m.classes, some m.enums, some m.interfaces, none, ()) := by
  rw [tree, Kind.meaning]
  simp only [runFields, Fields.named, entries, List.map_cons, List.map_nil, List.lookup_cons,
    List.lookup_nil, String.reduceBEq, restated, meaning_strings]
  rfl

/-- What a reader finds in a text of the manifest. -/
theorem read_of_states_tree {m : Manifest} {text : String} (h : States m.tree text) :
    Json.read (.record "Generated" runFields) text
      = .ok (some m.classes, some m.enums, some m.interfaces, none, ()) :=
  eq_ok_of_toOption <| (read_of_states (by simp [Kind.Distinct, Fields.Distinct, Fields.keys,
    runFields]) (by decide) h).trans m.meaning_tree

/-! ## The manifest as lines -/

/-- Whether two spaces stand before the line. -/
def isIndented : List Char → Bool
  | ' ' :: ' ' :: _ => true
  | _ => false

/-- The line that opens a group. -/
def headingLine (heading : String) : List Char := (heading ++ ":").toList

/-- The lines of a group. -/
def groupLines (heading : String) (names : List String) : List (List Char) :=
  (group heading names).map (·.toList)

/-- The names that stand indented under a heading. -/
def namesUnder (heading : String) (lines : List (List Char)) : List String :=
  (((lines.dropWhile (· ≠ headingLine heading)).drop 1).takeWhile isIndented).map
    fun line => String.ofList (line.drop 2)

theorem groupLines_cons (heading name : String) (names : List String) :
    groupLines heading (name :: names)
      = headingLine heading :: (name :: names).map fun n => ' ' :: ' ' :: n.toList := by
  simp [groupLines, group, headingLine]

theorem eq_or_isIndented_of_mem {heading : String} {names : List String} {line : List Char}
    (h : line ∈ groupLines heading names) : line = headingLine heading ∨ isIndented line := by
  cases names with
  | nil => cases h
  | cons name names =>
    rw [groupLines_cons, List.mem_cons, List.mem_map] at h
    exact h.imp_right fun ⟨_, _, hn⟩ => hn ▸ rfl

/-- A heading is no line of another group, whatever the names in it. -/
theorem headingLine_not_mem {heading : String} (other : String)
    (hne : headingLine heading ≠ headingLine other)
    (hheading : isIndented (headingLine heading) = false) (names : List String) :
    headingLine heading ∉ groupLines other names := by
  intro h
  cases eq_or_isIndented_of_mem h with
  | inl h => exact hne h
  | inr h => rw [hheading] at h; cases h

/-- What stands behind a group does not go on with it. -/
def Fresh (lines : List (List Char)) : Prop := ∀ line ∈ lines.head?, isIndented line = false

theorem fresh_groupLines_append {heading : String}
    (hheading : isIndented (headingLine heading) = false) (names : List String)
    (lines : List (List Char)) (h : Fresh lines) : Fresh (groupLines heading names ++ lines) := by
  cases names with
  | nil => exact h
  | cons name names =>
    rw [groupLines_cons]
    simpa [Fresh] using hheading

/-- The names of a group are found between lines that do not belong to it. -/
theorem namesUnder_groupLines (heading : String) {before after : List (List Char)}
    (names : List String) (hbefore : headingLine heading ∉ before)
    (hafter : headingLine heading ∉ after) (hfresh : Fresh after) :
    namesUnder heading (before ++ (groupLines heading names ++ after)) = names := by
  have hskip (lines : List (List Char)) (h : headingLine heading ∉ lines) :
      ∀ line ∈ lines, decide (line ≠ headingLine heading) = true :=
    fun line hline => decide_eq_true (ne_of_mem_of_not_mem hline h)
  rw [namesUnder, List.dropWhile_append_of_pos (hskip before hbefore)]
  cases names with
  | nil =>
    rw [show groupLines heading [] = [] from rfl, List.nil_append,
      List.dropWhile_eq_nil_iff.mpr (hskip after hafter)]
    rfl
  | cons name names =>
    rw [groupLines_cons, List.cons_append, List.dropWhile_cons_of_neg (by simp), List.drop_one,
      List.tail_cons,
      takeWhile_append_stop (p := isIndented) (List.forall_mem_map.mpr fun _ _ => rfl) hfresh]
    simp [Function.comp_def]

/-- The manifest that lines tell of. -/
def ofLines (lines : List (List Char)) : Manifest where
  classes := namesUnder "Classes" lines
  enums := namesUnder "Enums" lines
  interfaces := namesUnder "Interfaces" lines

theorem ofLines_groups (enums interfaces classes : List String) :
    ofLines (groupLines "Enums" enums ++ (groupLines "Interfaces" interfaces
      ++ groupLines "Classes" classes)) = { classes, enums, interfaces } := by
  have hclasses : Fresh (groupLines "Classes" classes) := by
    simpa using fresh_groupLines_append (by decide) classes [] nofun
  have hinterfaces : Fresh (groupLines "Interfaces" interfaces ++ groupLines "Classes" classes) :=
    fresh_groupLines_append (by decide) interfaces _ hclasses
  have hfirst := namesUnder_groupLines "Enums" enums List.not_mem_nil
    (List.not_mem_append (headingLine_not_mem "Interfaces" (by decide) (by decide) interfaces)
      (headingLine_not_mem "Classes" (by decide) (by decide) classes)) hinterfaces
  have hsecond := namesUnder_groupLines "Interfaces" interfaces
    (headingLine_not_mem "Enums" (by decide) (by decide) enums)
    (headingLine_not_mem "Classes" (by decide) (by decide) classes) hclasses
  have hthird := namesUnder_groupLines "Classes" classes
    (List.not_mem_append (headingLine_not_mem "Enums" (by decide) (by decide) enums)
      (headingLine_not_mem "Interfaces" (by decide) (by decide) interfaces))
    List.not_mem_nil nofun
  rw [List.nil_append] at hfirst
  rw [List.append_nil, List.append_assoc] at hthird
  rw [ofLines, hfirst, hsecond, hthird]

/-- The lines of a manifest tell of it. -/
theorem ofLines_lines (m : Manifest) : ofLines (m.lines.map (·.toList)) = m := by
  obtain ⟨classes, enums, interfaces⟩ := m
  rw [lines]
  split
  case isTrue h =>
    have hnames : (enums = [] ∧ interfaces = []) ∧ classes = [] := by simpa [isEmpty] using h
    obtain ⟨⟨rfl, rfl⟩, rfl⟩ := hnames
    decide
  case isFalse =>
    rw [List.map_append, List.map_append, List.append_assoc]
    exact ofLines_groups enums interfaces classes

/-- The names of the manifest stand on one line each. -/
def OnLines (m : Manifest) : Prop :=
  ∀ name ∈ m.enums ++ (m.interfaces ++ m.classes), '\n' ∉ name.toList

instance (m : Manifest) : Decidable m.OnLines :=
  inferInstanceAs (Decidable (∀ name ∈ m.enums ++ (m.interfaces ++ m.classes), _))

/-- The manifest that a listing tells of. -/
def ofListing (text : String) : Manifest := ofLines (text.toList.splitOn '\n').dropLast

theorem splitOn_flatMap_lines {ls : List (List Char)} (h : ∀ l ∈ ls, '\n' ∉ l) :
    (ls.flatMap (· ++ ['\n'])).splitOn '\n' = ls ++ [[]] := by
  induction ls with
  | nil => rfl
  | cons l ls ih =>
    obtain ⟨hl, hls⟩ := List.forall_mem_cons.mp h
    rw [List.flatMap_cons, List.append_assoc, List.singleton_append,
      List.splitOn_append_cons_self, List.splitOn_eq_singleton hl, ih hls]
    rfl

theorem newline_not_mem_groupLines {heading : String} (hheading : '\n' ∉ headingLine heading)
    {names : List String} (h : ∀ name ∈ names, '\n' ∉ name.toList) :
    ∀ line ∈ groupLines heading names, '\n' ∉ line := by
  cases names with
  | nil => exact List.forall_mem_nil _
  | cons name names =>
    rw [groupLines_cons, List.forall_mem_cons, List.forall_mem_map]
    exact ⟨hheading, fun n hn => by simpa using h n hn⟩

theorem newline_not_mem_lines {m : Manifest} (h : m.OnLines) :
    ∀ line ∈ m.lines.map (·.toList), '\n' ∉ line := by
  rw [OnLines, List.forall_mem_append, List.forall_mem_append] at h
  obtain ⟨henums, hinterfaces, hclasses⟩ := h
  rw [lines]
  split
  · decide
  · rw [List.map_append, List.map_append, List.forall_mem_append, List.forall_mem_append]
    exact ⟨⟨newline_not_mem_groupLines (by decide) henums,
      newline_not_mem_groupLines (by decide) hinterfaces⟩,
      newline_not_mem_groupLines (by decide) hclasses⟩

theorem toList_listing (m : Manifest) :
    m.listing.toList = (m.lines.map (·.toList)).flatMap (· ++ ['\n']) := by
  simp [listing, String.toList_join, List.flatMap_map]

theorem ofListing_listing {m : Manifest} (h : m.OnLines) : ofListing m.listing = m := by
  rw [ofListing, toList_listing, splitOn_flatMap_lines (newline_not_mem_lines h),
    List.dropLast_concat, ofLines_lines]

/-- Where something is exported, the listing begins with a heading. -/
theorem listing_eq_iff (m : Manifest) : m.listing = "No declarations exported\n" ↔
    m.classes = [] ∧ m.enums = [] ∧ m.interfaces = [] := by
  obtain ⟨classes, enums, interfaces⟩ := m
  constructor
  · intro h
    have hfirst := congrArg (·.toList.head?) h
    rw [toList_listing] at hfirst
    cases enums with
    | cons => simp [lines, isEmpty, group] at hfirst
    | nil =>
      cases interfaces with
      | cons => simp [lines, isEmpty, group] at hfirst
      | nil =>
        cases classes with
        | cons => simp [lines, isEmpty, group] at hfirst
        | nil => exact ⟨rfl, rfl, rfl⟩
  · rintro ⟨rfl, rfl, rfl⟩
    rfl

end Manifest

/-- Parsed as JSON, either text of the three lists gives them back, and no output; the lines give
them back too, if every name is on one line, and say that nothing is exported just if so. -/
theorem Generated.both_listings_carry_the_manifest (g g' : Generated) :
    (∀ text ∈ [g.manifest.json, g.manifest.prettyJson, g.manifest.prettyJson ++ "\n"],
      Json.States g.manifest.tree text ∧
      Json.read (.record "Generated" Manifest.runFields) text
        = .ok (some g.manifest.classes, some g.manifest.enums, some g.manifest.interfaces,
          none, ())) ∧
    (g.manifest.OnLines → g'.manifest.OnLines → g.manifest.listing = g'.manifest.listing →
      g.manifest.enums = g'.manifest.enums ∧ g.manifest.interfaces = g'.manifest.interfaces ∧
        g.manifest.classes = g'.manifest.classes) ∧
    (g.manifest.listing = "No declarations exported\n" ↔
      g.manifest.classes = [] ∧ g.manifest.enums = [] ∧ g.manifest.interfaces = []) := by
  refine ⟨fun text htext => ?_, fun h h' hsame => ?_, g.manifest.listing_eq_iff⟩
  · have hstates : Json.States g.manifest.tree text := by
      have hpretty := g.manifest.states_prettyJson "" (List.forall_mem_nil _)
      have hprinted := g.manifest.states_prettyJson "\n" (List.all_eq_true.mp rfl)
      rw [String.append_empty] at hpretty
      simp only [List.mem_cons, List.not_mem_nil, or_false] at htext
      obtain rfl | rfl | rfl := htext
      · exact g.manifest.states_json
      · exact hpretty
      · exact hprinted
    exact ⟨hstates, Manifest.read_of_states_tree hstates⟩
  · have hmanifest : g.manifest = g'.manifest := by
      rw [← Manifest.ofListing_listing h, hsame, Manifest.ofListing_listing h']
    rw [hmanifest]
    exact ⟨rfl, rfl, rfl⟩

/-- The names look like headings, or need escapes. -/
theorem Generated.awkward_names_are_listed :
    let g : Generated :=
      { manifest := { classes := ["  Enums:", "\"A\\\t\x01"], enums := ["Classes:", ""] }
        output := "a" }
    let g' : Generated := { g with output := "b" }
    g.manifest.OnLines ∧ g.manifest.listing = g'.manifest.listing ∧
    Json.read (.record "Generated" Manifest.runFields) g.manifest.prettyJson
      = .ok (some ["  Enums:", "\"A\\\t\x01"], some ["Classes:", ""], some [], none, ()) ∧
    g.manifest.classes = g'.manifest.classes := by
  intro g g'
  have hlines : g.manifest.OnLines := by decide
  obtain ⟨hjson, hsame, -⟩ := g.both_listings_carry_the_manifest g'
  exact ⟨hlines, rfl, (hjson _ (by simp)).2, (hsame hlines hlines rfl).2.2⟩

end ModelScribe
