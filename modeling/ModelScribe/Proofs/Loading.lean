-- Definitions in files. Whether a path names a definition is settled by its
-- last component alone, before anything is looked for; then the file has to
-- hold a text, and only then is there something to parse. So each way to fail
-- has an error of its own, which names the path as it was given, and where no
-- error of the path or the file stands in the way the parser has the last word.
import Mathlib.Data.List.Forall2
import Mathlib.Data.List.TakeWhile
import ModelScribe.Proofs.Failing

namespace ModelScribe

/-! ## Last components -/

namespace Path

/-- What may stand behind the last component of a path: slashes, each alone or with a dot. -/
inductive Trailing : List Char → Prop
  | nil : Trailing []
  | slash {cs : List Char} (h : Trailing cs) : Trailing ('/' :: cs)
  | dot {cs : List Char} (h : Trailing cs) : Trailing ('/' :: '.' :: cs)

/-- The path ends in the component. -/
inductive EndsIn (path : String) (name : List Char) : Prop
  | intro {front behind : List Char} (h : path.toList = front ++ (name ++ behind))
    (hfront : front = [] ∨ front.getLast? = some '/') (hslash : '/' ∉ name) (hempty : name ≠ [])
    (hdot : name ≠ ['.']) (hbehind : Trailing behind)

/-- A part of a path that leads nowhere. -/
def Idle (part : List Char) : Prop := part = [] ∨ part = ['.']

theorem exists_idle_parts {cs : List Char} (h : Trailing cs) :
    ∃ parts : List (List Char), (∀ p ∈ parts, Idle p) ∧ cs = parts.flatMap ('/' :: ·) := by
  induction h with
  | nil => exact ⟨[], List.forall_mem_nil _, rfl⟩
  | slash h ih =>
    obtain ⟨parts, hparts, rfl⟩ := ih
    exact ⟨[] :: parts, List.forall_mem_cons.mpr ⟨Or.inl rfl, hparts⟩, rfl⟩
  | dot h ih =>
    obtain ⟨parts, hparts, rfl⟩ := ih
    exact ⟨['.'] :: parts, List.forall_mem_cons.mpr ⟨Or.inr rfl, hparts⟩, rfl⟩

theorem trailing_idle_parts {parts : List (List Char)} (h : ∀ p ∈ parts, Idle p) :
    Trailing (parts.flatMap ('/' :: ·)) := by
  induction parts with
  | nil => exact .nil
  | cons p parts ih =>
    obtain ⟨hp, hparts⟩ := List.forall_mem_cons.mp h
    rcases hp with rfl | rfl
    · exact .slash (ih hparts)
    · exact .dot (ih hparts)

/-! ## Parts between slashes -/

theorem splitOn_flatMap {name : List Char} {parts : List (List Char)} (hname : '/' ∉ name)
    (hparts : ∀ p ∈ parts, '/' ∉ p) :
    (name ++ parts.flatMap ('/' :: ·)).splitOn '/' = name :: parts := by
  induction parts generalizing name with
  | nil => rw [List.flatMap_nil, List.append_nil, List.splitOn_eq_singleton hname]
  | cons p parts ih =>
    obtain ⟨hp, hparts⟩ := List.forall_mem_cons.mp hparts
    rw [List.flatMap_cons, List.cons_append, List.splitOn_append_cons_self,
      List.splitOn_eq_singleton hname, ih hp hparts, List.singleton_append]

theorem intercalate_append_cons (before after : List (List Char)) (name : List Char) :
    ['/'].intercalate (before ++ name :: after)
      = before.flatMap (· ++ ['/']) ++ (name ++ after.flatMap ('/' :: ·)) := by
  induction before with
  | nil => exact Doc.intercalate_cons_flatMap ..
  | cons b before ih =>
    obtain ⟨p, rest, hrest⟩ : ∃ p rest, before ++ name :: after = p :: rest :=
      List.exists_cons_of_ne_nil (by simp)
    rw [hrest] at ih
    rw [List.cons_append, hrest, List.intercalate_cons_cons, ih]
    simp

theorem slash_not_mem_idle {part : List Char} (h : Idle part) : '/' ∉ part := by
  rcases h with rfl | rfl <;> decide

theorem slash_not_mem_part {cs part : List Char} (h : part ∈ cs.splitOn '/') : '/' ∉ part := by
  induction cs generalizing part with
  | nil =>
    rw [List.splitOn_nil, List.mem_singleton] at h
    rw [h]
    exact List.not_mem_nil
  | cons c cs ih =>
    rw [List.splitOn_cons_eq_if_modifyHead] at h
    obtain ⟨first, rest, hsplit⟩ := List.exists_cons_of_ne_nil (List.splitOn_ne_nil '/' cs)
    rw [hsplit] at h ih
    split at h
    · rcases List.mem_cons.mp h with rfl | h
      · exact List.not_mem_nil
      · exact ih h
    · rename_i hc
      rw [List.modifyHead_cons] at h
      rcases List.mem_cons.mp h with rfl | h
      · have hslash : '/' ≠ c := fun he => hc (beq_iff_eq.mpr he.symm)
        simp [hslash, ih List.mem_cons_self]
      · exact ih (List.mem_cons_of_mem _ h)

/-- A path ends in the last of its parts that leads somewhere. -/
theorem endsIn_iff {path : String} {name : List Char} : EndsIn path name ↔
    ¬ Idle name ∧ ∃ before after, path.toList.splitOn '/' = before ++ name :: after ∧
      ∀ p ∈ after, Idle p := by
  constructor
  · rintro ⟨h, hfront, hslash, hempty, hdot, hbehind⟩
    obtain ⟨parts, hparts, rfl⟩ := exists_idle_parts hbehind
    refine ⟨not_or.mpr ⟨hempty, hdot⟩, ?_⟩
    have hsplit := splitOn_flatMap hslash fun p hp => slash_not_mem_idle (hparts p hp)
    rcases hfront with rfl | hfront
    · exact ⟨[], parts, by rw [h, List.nil_append, hsplit, List.nil_append], hparts⟩
    · obtain ⟨front, rfl⟩ := List.getLast?_eq_some_iff.mp hfront
      refine ⟨front.splitOn '/', parts, ?_, hparts⟩
      rw [h, List.append_assoc, List.singleton_append, List.splitOn_append_cons_self, hsplit]
  · rintro ⟨hname, before, after, hsplit, hafter⟩
    have hpath : ['/'].intercalate (path.toList.splitOn '/') = path.toList :=
      List.intercalate_splitOn '/'
    rw [hsplit, intercalate_append_cons] at hpath
    have hpart : name ∈ path.toList.splitOn '/' := by simp [hsplit]
    have hslash := slash_not_mem_part hpart
    refine .intro hpath.symm ?_ hslash (fun h => hname (Or.inl h)) (fun h => hname (Or.inr h))
      (trailing_idle_parts hafter)
    rcases List.eq_nil_or_concat before with rfl | ⟨front, last, rfl⟩
    · exact Or.inl rfl
    · exact Or.inr (by simp)

theorem leads_iff {part : List Char} :
    (String.ofList part ≠ "" && String.ofList part ≠ ".") = true ↔ ¬ Idle part := by
  have hempty : String.ofList part = "" ↔ part = [] :=
    ⟨fun h => by simpa using congrArg String.toList h, fun h => by rw [h]⟩
  have hdot : String.ofList part = "." ↔ part = ['.'] :=
    ⟨fun h => by simpa using congrArg String.toList h, fun h => by rw [h]⟩
  simp [Idle, hempty, hdot]

/-- The last part that leads somewhere is the component that the path ends in. -/
theorem getLast?_filter_parts {path name : String} :
    ((parts path).filter fun p => p ≠ "" && p ≠ ".").getLast? = some name ↔
      EndsIn path name.toList := by
  unfold parts
  rw [List.filter_map, List.getLast?_map, Option.map_eq_some_iff, List.getLast?_filter]
  simp only [List.find?_eq_some_iff_append, Function.comp_apply, leads_iff, Bool.not_eq_true',
    ← Bool.not_eq_true, not_not]
  rw [endsIn_iff]
  constructor
  · rintro ⟨part, ⟨hpart, after, before, hsplit, hafter⟩, rfl⟩
    rw [String.toList_ofList]
    refine ⟨hpart, before.reverse, after.reverse, ?_, by simpa using hafter⟩
    rw [← List.reverse_reverse (List.splitOn '/' _), hsplit]
    simp
  · rintro ⟨hname, before, after, hsplit, hafter⟩
    refine ⟨name.toList, ⟨hname, after.reverse, before.reverse, ?_, by simpa using hafter⟩,
      String.ofList_toList⟩
    rw [hsplit]
    simp

/-- The name of a file is the component that the path ends in, unless that leads up. -/
theorem fileName_eq_some_iff {path name : String} :
    fileName path = some name ↔ EndsIn path name.toList ∧ name ≠ ".." := by
  unfold fileName
  rw [Option.filter_eq_some_iff, getLast?_filter_parts]
  simp

/-! ## Endings -/

/-- What stands behind the last dot of a name, unless the dot begins it. -/
def endingOf (name : List Char) : Option (List Char) :=
  let ending := name.reverse.takeWhile (· ≠ '.')
  if (name.reverse.drop (ending.length + 1)).isEmpty then none else some ending.reverse

theorem endingOf_append {stem ending : List Char} (hending : '.' ∉ ending) :
    endingOf (stem ++ '.' :: ending) = if stem = [] then none else some ending := by
  have hback : (stem ++ '.' :: ending).reverse = ending.reverse ++ '.' :: stem.reverse := by simp
  have htake : (ending.reverse ++ '.' :: stem.reverse).takeWhile (· ≠ '.') = ending.reverse := by
    rw [List.takeWhile_append_of_pos fun c hc => ?_]
    · simp
    · have hc : c ∈ ending := List.mem_reverse.mp hc
      simpa using fun h : c = '.' => hending (h ▸ hc)
  rw [endingOf, hback, htake]
  simp [List.drop_append]

/-- A name is a stem, a dot and an ending without dots, or it has no ending. -/
theorem endingOf_eq_some_iff {name ending : List Char} : endingOf name = some ending ↔
    ∃ stem, name = stem ++ '.' :: ending ∧ stem ≠ [] ∧ '.' ∉ ending := by
  constructor
  · intro h
    by_cases hdot : '.' ∈ name.reverse
    · obtain ⟨back, front, hname, hback⟩ := List.eq_append_cons_of_mem hdot
      obtain rfl : name = front.reverse ++ '.' :: back.reverse := by
        rw [← List.reverse_reverse name, hname]
        simp
      have hback : '.' ∉ back.reverse := by simpa using hback
      rw [endingOf_append hback] at h
      split at h
      · cases h
      · rename_i hstem
        obtain rfl := Option.some.inj h
        exact ⟨_, rfl, hstem, hback⟩
    · have hall : name.reverse.takeWhile (· ≠ '.') = name.reverse := by
        have hplain : ∀ c ∈ name.reverse, (decide (c ≠ '.')) = true := fun c hc =>
          decide_eq_true fun h => hdot (h ▸ hc)
        exact List.takeWhile_eq_self_iff.mpr hplain
      rw [endingOf, hall] at h
      simp at h
  · rintro ⟨stem, rfl, hstem, hending⟩
    rw [endingOf_append hending, if_neg hstem]

theorem suffix_eq_some_iff {path ending : String} : suffix path = some ending ↔
    ∃ name, fileName path = some name ∧ endingOf name.toList = some ending.toList := by
  have hending (name : String) : (endingOf name.toList).map String.ofList = some ending ↔
      endingOf name.toList = some ending.toList := by
    rw [Option.map_eq_some_iff]
    constructor
    · rintro ⟨cs, h, rfl⟩
      rw [h, String.toList_ofList]
    · exact fun h => ⟨_, h, String.ofList_toList⟩
  have hsuffix : suffix path = (fileName path).bind fun name =>
      (endingOf name.toList).map String.ofList := by
    unfold suffix endingOf
    refine Option.bind_congr fun name _ => ?_
    simp only
    split <;> rfl
  rw [hsuffix, Option.bind_eq_some_iff]
  exact exists_congr fun name => and_congr_right fun _ => hending name

/-! ## Formats -/

/-- The letters at the end of the names of files in this format. -/
def letters : SourceFormat → List Char
  | .json => ['j', 's', 'o', 'n']
  | .toml => ['t', 'o', 'm', 'l']

/-- The letters of a word, each as it is or as a capital. -/
def SpellsLetters (word cs : List Char) : Prop :=
  List.Forall₂ (fun letter c => c = letter ∨ c = letter.toUpper) word cs

theorem toNat_toLower (c : Char) :
    c.toLower.toNat = if 65 ≤ c.toNat ∧ c.toNat ≤ 90 then c.toNat + 32 else c.toNat := by
  unfold Char.toLower
  simp only [ge_iff_le, UInt32.le_iff_toNat_le]
  change (if h : 65 ≤ c.toNat ∧ c.toNat ≤ 90 then (⟨c.val + 32, _⟩ : Char) else c).toNat = _
  split
  · change (c.val + 32).toNat = c.toNat + 32
    rw [UInt32.toNat_add]
    change (c.toNat + 32) % 4294967296 = c.toNat + 32
    omega
  · rfl

theorem toNat_toUpper (c : Char) :
    c.toUpper.toNat = if 97 ≤ c.toNat ∧ c.toNat ≤ 122 then c.toNat - 32 else c.toNat := by
  unfold Char.toUpper
  simp only [UInt32.le_iff_toNat_le]
  -- subtracting 32 is adding what is left to the end of 32 bits
  change (if h : 97 ≤ c.toNat ∧ c.toNat ≤ 122 then (⟨c.val + 4294967264, _⟩ : Char) else c).toNat
    = _
  split
  · change (c.val + 4294967264).toNat = c.toNat - 32
    rw [UInt32.toNat_add]
    change (c.toNat + 4294967264) % 4294967296 = c.toNat - 32
    omega
  · rfl

theorem toLower_eq_iff {c letter : Char} (hletter : 'a' ≤ letter ∧ letter ≤ 'z') :
    c.toLower = letter ↔ c = letter ∨ c = letter.toUpper := by
  have ha : 97 ≤ letter.toNat := hletter.1
  have hz : letter.toNat ≤ 122 := hletter.2
  simp only [← Char.toNat_inj, toNat_toLower, toNat_toUpper]
  split <;> split <;> omega

theorem map_toLower_eq_iff {word cs : List Char} (hword : ∀ c ∈ word, 'a' ≤ c ∧ c ≤ 'z') :
    cs.map Char.toLower = word ↔ SpellsLetters word cs := by
  unfold SpellsLetters
  induction word generalizing cs with
  | nil => simp
  | cons letter word ih =>
    obtain ⟨hletter, hword⟩ := List.forall_mem_cons.mp hword
    cases cs with
    | nil => simp
    | cons c cs =>
      rw [List.map_cons, List.cons_eq_cons, toLower_eq_iff hletter, ih hword, List.forall₂_cons]

theorem letters_range (format : SourceFormat) : ∀ c ∈ letters format, 'a' ≤ c ∧ c ≤ 'z' := by
  intro c hc
  cases format <;> simp only [letters, List.mem_cons, List.not_mem_nil, or_false] at hc <;>
    obtain rfl | rfl | rfl | rfl := hc <;> decide

theorem formatOf_eq_some_iff {ending : String} {format : SourceFormat} :
    (let lower := String.ofList (ending.toList.map Char.toLower)
      if lower = "json" then some SourceFormat.json
      else if lower = "toml" then some .toml else none) = some format ↔
      SpellsLetters (letters format) ending.toList := by
  rw [← map_toLower_eq_iff (letters_range format)]
  have hword (word : String) : String.ofList (ending.toList.map Char.toLower) = word ↔
      ending.toList.map Char.toLower = word.toList :=
    ⟨fun h => by simpa using congrArg String.toList h, fun h => by rw [h, String.ofList_toList]⟩
  simp only [hword]
  generalize ending.toList.map Char.toLower = lower
  by_cases hjson : lower = "json".toList
  · subst hjson
    cases format <;> decide
  · rw [if_neg hjson]
    by_cases htoml : lower = "toml".toList
    · subst htoml
      cases format <;> decide
    · rw [if_neg htoml]
      cases format with
      | json => exact ⟨fun h => (nomatch h), fun h => absurd h hjson⟩
      | toml => exact ⟨fun h => (nomatch h), fun h => absurd h htoml⟩

/-- The path ends in a stem, a dot and, in whatever case, the letters of the format. -/
def Tells (path : String) (format : SourceFormat) : Prop :=
  ∃ name, EndsIn path name ∧ name ≠ ['.', '.'] ∧ ∃ stem ending, name = stem ++ '.' :: ending ∧
    stem ≠ [] ∧ '.' ∉ ending ∧ SpellsLetters (letters format) ending

theorem format_eq_some_iff {path : String} {format : SourceFormat} :
    Path.format path = some format ↔ Tells path format := by
  have hup (name : String) : name ≠ ".." ↔ name.toList ≠ ['.', '.'] :=
    not_congr ⟨fun h => by rw [h]; rfl, fun h => String.toList_injective h⟩
  unfold Path.format Tells
  simp only [Option.bind_eq_some_iff, suffix_eq_some_iff, fileName_eq_some_iff,
    endingOf_eq_some_iff, formatOf_eq_some_iff, hup]
  constructor
  · rintro ⟨ending, ⟨name, ⟨hends, hname⟩, stem, hcut, hstem, hdot⟩, hletters⟩
    exact ⟨_, hends, hname, stem, _, hcut, hstem, hdot, hletters⟩
  · rintro ⟨name, hends, hname, stem, ending, hcut, hstem, hdot, hletters⟩
    refine ⟨String.ofList ending, ⟨String.ofList name, ?_⟩, ?_⟩
    · simpa using ⟨⟨hends, hname⟩, stem, hcut, hstem, hdot⟩
    · simpa using hletters

end Path

/-! ## Outcomes -/

/-- The format whose parser refuses the source. -/
def Refusal.format : Refusal → SourceFormat
  | .json _ => .json
  | .toml _ => .toml

namespace Definition

section

variable {readText : String → Option String} {path source : String} {format : SourceFormat}

theorem format_of_parse {refusal : Refusal} (h : parse format source = .error refusal) :
    refusal.format = format := by
  unfold parse at h
  cases format with
  | json =>
    cases hread : Json.read Schema.definition source with
    | error fault =>
      rw [hread] at h
      cases h
      rfl
    | ok v => simp [hread, Except.mapError, Except.map] at h
  | toml =>
    cases hread : Toml.read Schema.definition source with
    | error fault =>
      rw [hread] at h
      cases h
      rfl
    | ok v => simp [hread, Except.mapError, Except.map] at h

/-- What the parser refuses is told with the name of its source. -/
theorem exists_refusal {e : LoadError} (h : parseNamed format path source = .error e) :
    ∃ refusal, parse format source = .error refusal ∧ refusal.format = format ∧
      e = .refused path source refusal := by
  unfold parseNamed at h
  cases hparse : parse format source with
  | error refusal =>
    rw [hparse] at h
    cases h
    exact ⟨refusal, rfl, format_of_parse hparse, rfl⟩
  | ok d => simp [hparse, Except.mapError] at h

theorem load_of_text (hformat : Path.format path = some format)
    (h : readText path = some source) : load readText path = parseNamed format path source := by
  rw [load, hformat]
  simp [h]

/-- The path is looked at first, then the file, then its text. -/
theorem load_cases (readText : String → Option String) (path : String) :
    Path.format path = none ∧ load readText path = .error (.unsupported path) ∨
      (∃ format, Path.format path = some format ∧ readText path = none ∧
        load readText path = .error (.unreadable path)) ∨
      ∃ format source, Path.format path = some format ∧ readText path = some source ∧
        load readText path = parseNamed format path source := by
  cases hformat : Path.format path with
  | none => exact Or.inl ⟨rfl, by rw [load, hformat]⟩
  | some format =>
    cases htext : readText path with
    | none => exact Or.inr (Or.inl ⟨format, rfl, rfl, by rw [load, hformat]; simp [htext]⟩)
    | some source => exact Or.inr (Or.inr ⟨format, source, rfl, rfl, load_of_text hformat htext⟩)

theorem load_unsupported_iff :
    load readText path = .error (.unsupported path) ↔ Path.format path = none := by
  rcases load_cases readText path with ⟨h, he⟩ | ⟨f, h, -, he⟩ | ⟨f, s, h, -, he⟩
  · exact iff_of_true he h
  · rw [he, h]
    exact ⟨fun h => (nomatch h), fun h => (nomatch h)⟩
  · rw [he, h]
    refine ⟨fun h => ?_, fun h => (nomatch h)⟩
    obtain ⟨refusal, -, -, h⟩ := exists_refusal h
    cases h

theorem load_unreadable_iff : load readText path = .error (.unreadable path) ↔
    Path.format path ≠ none ∧ readText path = none := by
  rcases load_cases readText path with ⟨h, he⟩ | ⟨f, h, htext, he⟩ | ⟨f, s, h, htext, he⟩
  · rw [he, h]
    exact ⟨fun h => (nomatch h), fun h => absurd rfl h.1⟩
  · exact iff_of_true he ⟨by simp [h], htext⟩
  · rw [he, htext]
    refine ⟨fun h => ?_, fun h => (nomatch h.2)⟩
    obtain ⟨refusal, -, -, h⟩ := exists_refusal h
    cases h

/-- Where neither the path nor the file is at fault, the parser of the format is. -/
theorem cases_of_load_eq_error {e : LoadError} (h : load readText path = .error e) :
    e = .unsupported path ∨ e = .unreadable path ∨
      ∃ format source refusal, Path.format path = some format ∧ readText path = some source ∧
        parse format source = .error refusal ∧ refusal.format = format ∧
        e = .refused path source refusal := by
  rcases load_cases readText path with ⟨-, he⟩ | ⟨f, -, -, he⟩ | ⟨f, s, hformat, htext, he⟩
  · rw [he] at h
    exact Or.inl (Except.error.inj h).symm
  · rw [he] at h
    exact Or.inr (Or.inl (Except.error.inj h).symm)
  · rw [he] at h
    obtain ⟨refusal, hrefusal, hkind, rfl⟩ := exists_refusal h
    exact Or.inr (Or.inr ⟨f, s, refusal, hformat, htext, hrefusal, hkind, rfl⟩)

end

/-- Loading tells every outcome apart. A path that names no format is refused for that, whatever
there is to read under it; a path that does is refused where it leads to no text, in a file tree
to no file, to one that is closed, or to one that is no text; otherwise the parser of its format
decides. There is no other error, and each names the path. -/
theorem every_outcome_of_loading_is_told_apart (readText : String → Option String)
    (path : String) :
    (load readText path = .error (.unsupported path) ↔ Path.format path = none) ∧
    (load readText path = .error (.unreadable path) ↔
      Path.format path ≠ none ∧ readText path = none) ∧
    (∀ t : FileTree, t.readText path = none ↔
      (∀ content access, t.find path ≠ some (.file content access)) ∨
        (∃ content access, t.find path = some (.file content access) ∧ access.readable = false) ∨
        ∃ access, t.find path = some (.file .binary access)) ∧
    (∀ format source, Path.format path = some format → readText path = some source →
      load readText path = parseNamed format path source) ∧
    (∀ e, load readText path = .error e →
      e = .unsupported path ∨ e = .unreadable path ∨
        ∃ format source refusal, Path.format path = some format ∧ readText path = some source ∧
          parse format source = .error refusal ∧ refusal.format = format ∧
          e = .refused path source refusal) ∧
    ∀ format, Path.format path = some format ↔ Path.Tells path format :=
  ⟨load_unsupported_iff, load_unreadable_iff, fun _ => FileTree.readText_eq_none_iff,
    fun _ _ => load_of_text, fun _ => cases_of_load_eq_error, fun _ => Path.format_eq_some_iff⟩

/-- A hidden name has no ending, whatever there is to read; a stem of one dot is a stem; slashes
behind a name and capitals do not count; and a path that leads up names no file. -/
theorem four_paths_are_told_apart :
    load (fun _ => some "\x7b\x7d") "models/.json" = .error (.unsupported "models/.json") ∧
      load (fun _ => none) "v1.2/..toml/." = .error (.unreadable "v1.2/..toml/.") ∧
      load (fun _ => some "") "a.b/models.JSON//" = parseNamed .json "a.b/models.JSON//" "" ∧
      ¬ Path.Tells "models.json/.." .json := by
  obtain ⟨hhidden, -⟩ := every_outcome_of_loading_is_told_apart (fun _ => some "\x7b\x7d")
    "models/.json"
  obtain ⟨-, hdot, -⟩ := every_outcome_of_loading_is_told_apart (fun _ => none) "v1.2/..toml/."
  obtain ⟨-, -, -, htext, -⟩ := every_outcome_of_loading_is_told_apart (fun _ => some "")
    "a.b/models.JSON//"
  obtain ⟨-, -, -, -, -, hup⟩ := every_outcome_of_loading_is_told_apart (fun _ => none)
    "models.json/.."
  refine ⟨hhidden.mpr rfl, hdot.mpr ⟨by decide, rfl⟩, htext .json "" rfl rfl, ?_⟩
  rw [← hup]
  decide

end Definition

end ModelScribe
