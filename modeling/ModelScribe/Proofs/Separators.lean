-- Separators. A comma separates the entries of a list, and a space separates
-- words. Either makes sense between two items only. So a reader that goes
-- over a text needs to remember little: whether a separator may come next,
-- and whether an item must. A text is in order when the reader gets to its
-- end and nothing is missing there.
import Mathlib.Data.Fintype.Basic
import ModelScribe.Proofs.Brackets

namespace ModelScribe

open Text

/-- A sign that stands between two items. -/
inductive Separator where
  /-- Between the entries of a list. White space on either side does not count. -/
  | comma
  /-- Between the words of a line. -/
  | space
  deriving DecidableEq, Repr

instance : Fintype Separator where
  elems := {.comma, .space}
  complete s := by cases s <;> decide

namespace Separator

/-! ## Reading -/

/-- What may come next. -/
inductive Footing where
  /-- Only an item: there is none yet that a separator could follow. -/
  | bare
  /-- A separator as well: the text ends in an item. -/
  | item
  /-- Only an item, and there must be one: the text ends in a separator. -/
  | due
  deriving DecidableEq, Repr

instance : Fintype Footing where
  elems := {.bare, .item, .due}
  complete f := by cases f <;> decide

/-- The character that separates. -/
def sign : Separator → Char
  | .comma => ','
  | .space => ' '

/-- One character more. A list begins behind an opening bracket and ends before a closing one,
so there is no entry between a bracket and a comma next to it. -/
def step : Separator → Footing → Char → Option Footing
  | .comma, f, c =>
    if isSpace c then some f
    else if c = ',' then if f = .item then some .due else none
    else if (Brackets.all.closing c).isSome then some .bare
    else if Brackets.all.closes c && f == .due then none
    else some .item
  | .space, f, c =>
    if c = ' ' then if f = .item then some .due else none
    else if isSpace c then none
    else some .item

/-- Where a reader stands behind a text. -/
def run (s : Separator) (f : Footing) (t : String) : Option Footing := t.toList.foldlM s.step f

theorem foldlM_filter_isSpace (f : Footing) (cs : List Char) :
    (cs.filter (!isSpace ·)).foldlM comma.step f = cs.foldlM comma.step f := by
  induction cs generalizing f with
  | nil => rfl
  | cons c cs ih =>
    cases hc : isSpace c with
    | true =>
      have hstep : comma.step f c = some f := by simp [step, hc]
      rw [List.filter_cons_of_neg (by simp [hc]), List.foldlM_cons, hstep]
      exact ih f
    | false =>
      rw [List.filter_cons_of_pos (by simp [hc]), List.foldlM_cons, List.foldlM_cons]
      cases comma.step f c with
      | none => rfl
      | some g => exact ih g

/-- The character may stand before the separator. -/
def mayPrecede : Separator → Char → Prop
  | .comma, c => c ∉ [',', '(', '[', '\x7b']
  | .space, c => c ≠ ' '

/-- The character may stand behind the separator. -/
def mayFollow : Separator → Char → Prop
  | .comma, c => c ∉ [',', ')', ']', '\x7d']
  | .space, c => c ≠ ' '

/-- Wherever the separator stands in the characters, an item ends before it and another one begins
behind it. -/
def Between (s : Separator) (cs : List Char) : Prop :=
  ∀ before behind, cs = before ++ s.sign :: behind →
    (∃ c, before.getLast? = some c ∧ s.mayPrecede c) ∧ ∃ c, behind.head? = some c ∧ s.mayFollow c

variable {s : Separator} {f g : Footing}

theorem mayPrecede_of_step {c : Char} (h : s.step f c = some .item) : s.mayPrecede c := by
  cases s with
  | comma =>
    intro hmem
    simp only [List.mem_cons, List.not_mem_nil, or_false] at hmem
    rcases hmem with rfl | rfl | rfl | rfl <;> cases f <;> revert h <;> decide
  | space =>
    rintro rfl
    cases f <;> revert h <;> decide

theorem mayFollow_of_step {c : Char} (h : s.step .due c = some g) : s.mayFollow c := by
  cases s with
  | comma =>
    intro hmem
    simp only [List.mem_cons, List.not_mem_nil, or_false] at hmem
    rcases hmem with rfl | rfl | rfl | rfl <;> cases h
  | space =>
    rintro rfl
    cases h

theorem eq_of_step_sign (h : s.step f s.sign = some g) : f = .item ∧ g = .due := by
  revert h
  cases s <;> cases f <;> cases g <;> decide

/-- What a reader gets through has each separator between two items. -/
theorem between_of_foldlM {cs : List Char} (h : cs.foldlM s.step .bare = some g)
    (hg : g ≠ .due) : s.Between cs := by
  rintro before behind rfl
  rw [List.foldlM_append] at h
  obtain ⟨f, hbefore, h⟩ := Option.bind_eq_some_iff.mp h
  rw [List.foldlM_cons] at h
  obtain ⟨mid, hsign, hbehind⟩ := Option.bind_eq_some_iff.mp h
  obtain ⟨rfl, rfl⟩ := eq_of_step_sign hsign
  constructor
  · rcases List.eq_nil_or_concat before with rfl | ⟨init, c, rfl⟩
    · cases hbefore
    · rw [List.concat_eq_append, List.foldlM_append] at hbefore
      obtain ⟨f, -, hlast⟩ := Option.bind_eq_some_iff.mp hbefore
      rw [List.foldlM_cons] at hlast
      obtain ⟨next, hstep, heq⟩ := Option.bind_eq_some_iff.mp hlast
      obtain rfl : next = .item := Option.some.inj heq
      exact ⟨c, by simp, mayPrecede_of_step hstep⟩
  · cases behind with
    | nil => exact absurd (Option.some.inj hbehind).symm hg
    | cons c behind =>
      rw [List.foldlM_cons] at hbehind
      obtain ⟨next, hstep, -⟩ := Option.bind_eq_some_iff.mp hbehind
      exact ⟨c, rfl, mayFollow_of_step hstep⟩

/-- Where spaces stand between items, none is next to another one or at an end. -/
theorem Between.spaces_apart {cs : List Char} (h : space.Between cs) :
    ¬ [' ', ' '] <:+: cs ∧ cs.head? ≠ some ' ' ∧ cs.getLast? ≠ some ' ' := by
  refine ⟨?_, ?_, ?_⟩
  · rintro ⟨before, behind, rfl⟩
    obtain ⟨-, c, hc, hne⟩ := h before (' ' :: behind) (by simp [sign])
    exact hne (Option.some.inj hc).symm
  · intro hfirst
    obtain ⟨rest, rfl⟩ := List.head?_eq_some_iff.mp hfirst
    obtain ⟨⟨c, hc, -⟩, -⟩ := h [] rest rfl
    cases hc
  · intro hlast
    obtain ⟨init, rfl⟩ := List.getLast?_eq_some_iff.mp hlast
    obtain ⟨-, c, hc, -⟩ := h init [] rfl
    cases hc

/-! ## Texts from outside -/

/-- What a text must be like for its place not to matter. -/
def Accepts : Separator → String → Prop
  | .comma, t => ',' ∉ t.toList ∧ Brackets.all.Balanced t
  | .space, t => ∀ c ∈ t.toList, isSpace c = false

instance (t : String) : Decidable (s.Accepts t) :=
  match s with
  | .comma => inferInstanceAs (Decidable (',' ∉ t.toList ∧ Brackets.all.Balanced t))
  | .space => decidable_of_iff (t.toList.all (!isSpace ·) = true) (by simp [Accepts])

theorem Accepts.append {t u : String} (ht : s.Accepts t) (hu : s.Accepts u) :
    s.Accepts (t ++ u) := by
  cases s with
  | comma =>
    refine ⟨?_, Brackets.Balanced.append ht.2 hu.2⟩
    rw [String.toList_append, List.mem_append, not_or]
    exact ⟨ht.1, hu.1⟩
  | space =>
    intro c hc
    rw [String.toList_append] at hc
    exact (List.forall_mem_append.mpr ⟨ht, hu⟩ : ∀ c ∈ t.toList ++ u.toList, isSpace c = false) c hc

theorem accepts_own {t : String} (h : ∀ s : Separator, s.Accepts t) : s.Accepts t := h s

/-- A character within a balanced text. It leaves nothing bare unless it opens a bracket, and that
one is then due. -/
theorem step_comma_of_brackets {due due' : List Char} {c : Char} (hc : isSpace c = false)
    (hne : c ≠ ',') (hdue : f = .due → due = []) (h : Brackets.all.step due c = some due') :
    ∃ g, comma.step f c = some g ∧ g ≠ .due ∧ (g = .bare → due' ≠ []) := by
  unfold Brackets.step at h
  cases hopen : Brackets.all.closing c with
  | some e =>
    rw [hopen] at h
    refine ⟨.bare, by simp [step, hc, hne, hopen], by decide, fun _ => ?_⟩
    rw [← Option.some.inj h]
    exact List.cons_ne_nil e due
  | none =>
    rw [hopen] at h
    have hclose : (Brackets.all.closes c && f == .due) = false := by
      cases f with
      | due =>
        cases hcloses : Brackets.all.closes c with
        | false => rfl
        | true => simp [hdue rfl, hcloses] at h
      | _ => exact Bool.and_false _
    exact ⟨.item, by simp [step, hc, hne, hopen, hclose], by decide, nofun⟩

/-- Where the brackets match, no comma is missing an entry. -/
theorem foldlM_comma_of_brackets {cs due due' : List Char} (hcs : ',' ∉ cs)
    (hdue : f = .due → due = []) (h : cs.foldlM Brackets.all.step due = some due') :
    ∃ g, cs.foldlM comma.step f = some g
      ∧ if cs.all isSpace then g = f ∧ due' = due else g ≠ .due ∧ (g = .bare → due' ≠ []) := by
  induction cs generalizing f due with
  | nil => exact ⟨f, rfl, rfl, (Option.some.inj h).symm⟩
  | cons c cs ih =>
    rw [List.mem_cons, not_or] at hcs
    rw [List.foldlM_cons] at h
    obtain ⟨mid, hstep, hrest⟩ := Option.bind_eq_some_iff.mp h
    cases hc : isSpace c with
    | true =>
      have hsame : comma.step f c = some f := by simp [step, hc]
      rw [Brackets.step_of_isSpace hc] at hstep
      obtain rfl := Option.some.inj hstep
      obtain ⟨g, hg, hend⟩ := ih hcs.2 hdue hrest
      rw [List.foldlM_cons, hsame, List.all_cons, hc, Bool.true_and]
      exact ⟨g, hg, hend⟩
    | false =>
      obtain ⟨next, hnext, hne, hbare⟩ := step_comma_of_brackets hc (Ne.symm hcs.1) hdue hstep
      obtain ⟨g, hg, hend⟩ := ih hcs.2 (fun heq => absurd heq hne) hrest
      refine ⟨g, by rw [List.foldlM_cons, hnext]; exact hg, ?_⟩
      simp only [List.all_cons, hc, Bool.false_and, Bool.false_eq_true, if_false]
      split at hend
      · exact ⟨hend.1 ▸ hne, fun heq => hend.2 ▸ hbare (hend.1 ▸ heq)⟩
      · exact hend

/-- An accepted text ends in an item, unless there is nothing in it. -/
theorem run_of_accepts {t : String} (h : s.Accepts t) (f : Footing) :
    s.run f t = some (if isBlank t then f else .item) := by
  cases s with
  | comma =>
    have hbalanced : t.toList.foldlM Brackets.all.step [] = some [] := h.2
    obtain ⟨g, hg, hend⟩ := foldlM_comma_of_brackets h.1 (fun _ => rfl) hbalanced
    rw [run, hg, isBlank]
    split at hend
    · rw [if_pos ‹_›, hend.1]
    · rw [if_neg ‹_›]
      cases g with
      | item => rfl
      | bare => exact absurd rfl (hend.2 rfl)
      | due => exact absurd rfl hend.1
  | space =>
    have hspace : ∀ c ∈ t.toList, isSpace c = false := h
    unfold run isBlank
    generalize t.toList = cs at hspace
    induction cs generalizing f with
    | nil => rfl
    | cons c cs ih =>
      obtain ⟨hc, hcs⟩ := List.forall_mem_cons.mp hspace
      have hne : c ≠ ' ' := by
        rintro rfl
        cases hc
      have hstep : space.step f c = some .item := by simp [step, hne, hc]
      rw [List.foldlM_cons, hstep]
      simpa [hc] using ih .item hcs

theorem isBlank_of_accepts {t : String} (h : space.Accepts t) (hne : t ≠ "") :
    isBlank t = false := by
  have hspace : ∀ c ∈ t.toList, isSpace c = false := h
  unfold isBlank
  cases hcs : t.toList with
  | nil => exact absurd (String.toList_inj.mp hcs) hne
  | cons c cs => simp [hspace c (by simp [hcs])]

/-! ## Documents -/

/-- Where a reader stands behind a document in the compact layout. -/
def scan (s : Separator) (f : Footing) (d : Doc) : Option Footing :=
  (Layout.compact.chars d).foldlM s.step f

@[simp] theorem scan_nil (f : Footing) : s.scan f [] = some f := rfl

@[simp] theorem scan_append (f : Footing) (d e : Doc) :
    s.scan f (d ++ e) = (s.scan f d).bind (s.scan · e) := by
  unfold scan
  rw [Layout.chars_append, List.foldlM_append]
  rfl

theorem scan_cons (f : Footing) (m : Mark) (d : Doc) :
    s.scan f (m :: d) = (s.scan f [m]).bind (s.scan · d) := by
  rw [← List.singleton_append, scan_append]

theorem scan_append_of_eq {f g : Footing} {d : Doc} (h : s.scan f d = some g) (e : Doc) :
    s.scan f (d ++ e) = s.scan g e := by
  rw [scan_append, h, Option.bind_some]

theorem scan_text (f : Footing) (t : String) : s.scan f [.text t] = s.run f t := by
  simp [scan, run, Layout.mark]

theorem scan_join (f : Footing) (ds : List Doc) :
    s.scan f (Doc.join ds) = (ds.filter (!Doc.isBlank ·)).foldlM s.scan f := by
  unfold Doc.join
  generalize ds.filter (!Doc.isBlank ·) = ds
  induction ds generalizing f with
  | nil => rfl
  | cons d rest ih =>
    have hline : ∀ g, s.scan g [.line] = some g := fun _ => rfl
    rw [List.foldlM_cons]
    cases rest with
    | nil => cases h : s.scan f d <;> simp [h]
    | cons e rest =>
      rw [List.intercalate_cons_cons, scan_append, scan_append]
      cases s.scan f d with
      | none => rfl
      | some g => simpa [hline g] using ih g

/-! ### What a document does to the footing -/

/-- The document leaves the footing as it is, or ends in an item. -/
def Calm (s : Separator) (d : Doc) : Prop := ∀ f, s.scan f d = some f ∨ s.scan f d = some .item

/-- The document ends in an item, wherever it stands. -/
def Item (s : Separator) (d : Doc) : Prop := ∀ f, s.scan f d = some .item

/-- An item may stand behind the document, wherever that stands itself. -/
def Passes (s : Separator) (d : Doc) : Prop := ∀ f, ∃ g, s.scan f d = some g

/-- An item may stand behind the document where nothing is missing before it. -/
def Leads (s : Separator) (d : Doc) : Prop := ∀ f, f ≠ .due → ∃ g, s.scan f d = some g

/-- Nothing is missing behind the document where nothing is missing before it. -/
def Rests (s : Separator) (d : Doc) : Prop := ∀ f, f ≠ .due → ∃ g, s.scan f d = some g ∧ g ≠ .due

/-- Nothing is missing behind the document, whatever is missing before it. -/
def Settles (s : Separator) (d : Doc) : Prop := ∀ f, ∃ g, s.scan f d = some g ∧ g ≠ .due

instance (d : Doc) : Decidable (s.Calm d) :=
  inferInstanceAs (Decidable (∀ f, s.scan f d = some f ∨ s.scan f d = some .item))

instance (d : Doc) : Decidable (s.Item d) :=
  inferInstanceAs (Decidable (∀ f, s.scan f d = some .item))

instance (d : Doc) : Decidable (s.Passes d) :=
  inferInstanceAs (Decidable (∀ f, ∃ g, s.scan f d = some g))

instance (d : Doc) : Decidable (s.Leads d) :=
  inferInstanceAs (Decidable (∀ f, f ≠ .due → ∃ g, s.scan f d = some g))

instance (d : Doc) : Decidable (s.Rests d) :=
  inferInstanceAs (Decidable (∀ f, f ≠ .due → ∃ g, s.scan f d = some g ∧ g ≠ .due))

variable {d e : Doc}

theorem Item.calm (h : s.Item d) : s.Calm d := fun f => Or.inr (h f)

theorem Calm.rests (h : s.Calm d) : s.Rests d := by
  intro f hf
  rcases h f with hsame | hitem
  · exact ⟨f, hsame, hf⟩
  · exact ⟨.item, hitem, by decide⟩

theorem Item.rests (h : s.Item d) : s.Rests d := h.calm.rests

theorem Calm.scan_item (h : s.Calm d) : s.scan .item d = some .item := (h .item).elim id id

theorem Settles.rests (h : s.Settles d) : s.Rests d := fun f _ => h f

theorem Rests.leads (h : s.Rests d) : s.Leads d := by
  intro f hf
  obtain ⟨g, hg, -⟩ := h f hf
  exact ⟨g, hg⟩

/-! ### One document behind another -/

theorem Calm.append (hd : s.Calm d) (he : s.Calm e) : s.Calm (d ++ e) := by
  intro f
  rcases hd f with hsame | hitem
  · rw [scan_append_of_eq hsame]
    exact he f
  · rw [scan_append_of_eq hitem]
    exact Or.inr he.scan_item

theorem Item.append (hd : s.Item d) (he : s.scan .item e = some .item) : s.Item (d ++ e) := by
  intro f
  rw [scan_append_of_eq (hd f), he]

theorem Item.settles (hd : s.Item d) (he : s.Rests e) : s.Settles (d ++ e) := by
  intro f
  rw [scan_append_of_eq (hd f)]
  exact he .item (by decide)

theorem Calm.item (hd : s.Calm d) (he : s.Item e) : s.Item (d ++ e) := by
  intro f
  rcases hd f with hd | hd <;> rw [scan_append_of_eq hd, he]

theorem Passes.item (hd : s.Passes d) (he : s.Item e) : s.Item (d ++ e) := by
  intro f
  obtain ⟨g, hg⟩ := hd f
  rw [scan_append_of_eq hg, he g]

theorem scan_item_append (hd : ∃ g, s.scan .item d = some g) (he : s.Item e) :
    s.scan .item (d ++ e) = some .item := by
  obtain ⟨g, hg⟩ := hd
  rw [scan_append_of_eq hg, he g]

theorem Leads.append (hd : s.Leads d) (he : s.Item e) : s.Rests (d ++ e) := by
  intro f hf
  obtain ⟨g, hg⟩ := hd f hf
  rw [scan_append_of_eq hg, he g]
  exact ⟨.item, rfl, by decide⟩

theorem Item.leads {e : Doc} (hd : s.Item d) (he : ∃ g, s.scan .item e = some g) :
    s.Leads (d ++ e) := by
  intro f _
  rw [scan_append_of_eq (hd f)]
  exact he

theorem Rests.append (hd : s.Rests d) (he : s.Rests e) : s.Rests (d ++ e) := by
  intro f hf
  obtain ⟨g, hg, hne⟩ := hd f hf
  rw [scan_append_of_eq hg]
  exact he g hne

theorem calm_nil : s.Calm [] := fun _ => Or.inl rfl

theorem rests_nil : s.Rests [] := calm_nil.rests

theorem calm_of_marks (h : ∀ m ∈ d, s.Calm [m]) : s.Calm d := by
  induction d with
  | nil => exact calm_nil
  | cons m d ih =>
    obtain ⟨hm, hd⟩ := List.forall_mem_cons.mp h
    exact hm.append (ih hd)

theorem rests_of_marks (h : ∀ m ∈ d, s.Rests [m]) : s.Rests d := by
  induction d with
  | nil => exact rests_nil
  | cons m d ih =>
    obtain ⟨hm, hd⟩ := List.forall_mem_cons.mp h
    exact hm.append (ih hd)

theorem rests_flatMap {α : Type} {xs : List α} {f : α → Doc} (h : ∀ x ∈ xs, s.Rests (f x)) :
    s.Rests (xs.flatMap f) := by
  induction xs with
  | nil => exact rests_nil
  | cons x rest ih =>
    obtain ⟨hx, hrest⟩ := List.forall_mem_cons.mp h
    rw [List.flatMap_cons]
    exact hx.append (ih hrest)

/-! ### Marks -/

@[simp] theorem calm_space : s.Calm [.space] := fun _ => Or.inl rfl

@[simp] theorem calm_line : s.Calm [.line] := fun _ => Or.inl rfl

@[simp] theorem calm_tab : s.Calm [.tab] := fun _ => Or.inl rfl

@[simp] theorem rests_space : s.Rests [.space] := calm_space.rests

@[simp] theorem rests_line : s.Rests [.line] := calm_line.rests

@[simp] theorem rests_tab : s.Rests [.tab] := calm_tab.rests

theorem calm_text {t : String} (h : s.Accepts t) : s.Calm [.text t] := by
  intro f
  rw [scan_text, run_of_accepts h]
  split
  · exact Or.inl rfl
  · exact Or.inr rfl

theorem rests_text {t : String} (h : s.Accepts t) : s.Rests [.text t] := (calm_text h).rests

theorem item_text {t : String} (h : s.Accepts t) (hblank : isBlank t = false) :
    s.Item [.text t] := by
  intro f
  rw [scan_text, run_of_accepts h, if_neg (by simp [hblank])]

/-! ### Words that stand in every program

What they do is seen from the words themselves. -/

theorem calm_own (h : ∀ s : Separator, s.Calm d) : s.Calm d := h s

theorem item_own (h : ∀ s : Separator, s.Item d) : s.Item d := h s

theorem passes_own (h : ∀ s : Separator, s.Passes d) : s.Passes d := h s

theorem leads_own (h : ∀ s : Separator, s.Leads d) : s.Leads d := h s

theorem rests_own (h : ∀ s : Separator, s.Rests d) : s.Rests d := h s

/-! ### Joined documents -/

theorem rests_foldlM {ds : List Doc} (h : ∀ d ∈ ds, s.Rests d) {f : Footing} (hf : f ≠ .due) :
    ∃ g, ds.foldlM s.scan f = some g ∧ g ≠ .due := by
  induction ds generalizing f with
  | nil => exact ⟨f, rfl, hf⟩
  | cons d rest ih =>
    obtain ⟨hd, hrest⟩ := List.forall_mem_cons.mp h
    obtain ⟨g, hg, hne⟩ := hd f hf
    rw [List.foldlM_cons, hg]
    exact ih hrest hne

theorem rests_join {ds : List Doc} (h : ∀ d ∈ ds, s.Rests d) : s.Rests (Doc.join ds) := by
  intro f hf
  rw [scan_join]
  exact rests_foldlM (fun d hd => h d (List.mem_filter.mp hd).1) hf

theorem leads_join {ds : List Doc} (h : ∀ d ∈ ds, s.Rests d) (he : s.Leads e) :
    s.Leads (Doc.join (ds ++ [e])) := by
  intro f hf
  obtain ⟨g, hg, hne⟩ := rests_foldlM (fun d hd => h d (List.mem_filter.mp hd).1) hf
  rw [scan_join, List.filter_append, List.foldlM_append, hg]
  cases hblank : e.isBlank with
  | true => exact ⟨g, by simp [hblank]⟩
  | false => simpa [hblank] using he g hne

/-- A part that leads up to the next one, which is there. -/
theorem rests_join_cons {ds : List Doc} (hd : s.Leads d) (he : s.Settles e)
    (hvisible : e.isBlank = false) (h : ∀ x ∈ ds, s.Rests x) :
    s.Rests (Doc.join (d :: e :: ds)) := by
  have hrest : ∀ f, ∃ g,
      ((e :: ds).filter (!Doc.isBlank ·)).foldlM s.scan f = some g ∧ g ≠ .due := by
    intro f
    obtain ⟨g, hg, hne⟩ := he f
    rw [List.filter_cons_of_pos (by simp [hvisible]), List.foldlM_cons, hg]
    exact rests_foldlM (fun d hd => h d (List.mem_filter.mp hd).1) hne
  intro f hf
  rw [scan_join]
  cases hblank : d.isBlank with
  | true =>
    rw [List.filter_cons_of_neg (by simp [hblank])]
    exact hrest f
  | false =>
    obtain ⟨g, hg⟩ := hd f hf
    rw [List.filter_cons_of_pos (by simp [hblank]), List.foldlM_cons, hg]
    exact hrest g

/-- Items with the separator between them: a list of them ends in an item, unless it is empty. -/
theorem scan_intercalate {sep : Doc} (hsep : ∃ g, s.scan .item sep = some g) {ds : List Doc}
    (h : ∀ d ∈ ds, s.Item d) (f : Footing) :
    s.scan f (sep.intercalate ds) = some (if ds = [] then f else .item) := by
  induction ds generalizing f with
  | nil => rfl
  | cons d rest ih =>
    obtain ⟨hd, hrest⟩ := List.forall_mem_cons.mp h
    rw [if_neg (List.cons_ne_nil d rest)]
    cases rest with
    | nil => simpa using hd f
    | cons e rest =>
      obtain ⟨g, hg⟩ := hsep
      rw [List.intercalate_cons_cons, scan_append_of_eq (by rw [scan_append_of_eq (hd f), hg]),
        ih hrest, if_neg (List.cons_ne_nil e rest)]

theorem calm_intercalate {sep : Doc} (hsep : ∃ g, s.scan .item sep = some g) {ds : List Doc}
    (h : ∀ d ∈ ds, s.Item d) : s.Calm (sep.intercalate ds) := by
  intro f
  rw [scan_intercalate hsep h]
  split
  · exact Or.inl rfl
  · exact Or.inr rfl

theorem item_intercalate {sep : Doc} (hsep : ∃ g, s.scan .item sep = some g) {ds : List Doc}
    (h : ∀ d ∈ ds, s.Item d) (hne : ds ≠ []) : s.Item (sep.intercalate ds) := by
  intro f
  rw [scan_intercalate hsep h, if_neg hne]

theorem item_of_mem_filter {ds : List Doc} (h : ∀ d ∈ ds, d.isBlank = false → s.Item d) :
    ∀ d ∈ ds.filter (!Doc.isBlank ·), s.Item d := by
  intro d hd
  obtain ⟨hmem, hblank⟩ := List.mem_filter.mp hd
  exact h d hmem (by simpa using hblank)

/-- A comma behind an item, and the white space of a layout. -/
theorem scan_comma {m : Mark} (h : s.Calm [m]) : ∃ g, s.scan .item [.text ",", m] = some g := by
  obtain ⟨g, hg⟩ : ∃ g, s.scan .item [.text ","] = some g := by cases s <;> decide
  rw [scan_cons, hg, Option.bind_some]
  exact (h g).elim (⟨_, ·⟩) (⟨_, ·⟩)

theorem calm_commaList {ds : List Doc} (h : ∀ d ∈ ds, d.isBlank = false → s.Item d) :
    s.Calm (Doc.commaList ds) :=
  calm_intercalate (scan_comma calm_space) (item_of_mem_filter h)

theorem item_commaList {ds : List Doc} (h : ∀ d ∈ ds, d.isBlank = false → s.Item d)
    (hne : ∃ d ∈ ds, d.isBlank = false) : s.Item (Doc.commaList ds) := by
  obtain ⟨d, hd, hblank⟩ := hne
  exact item_intercalate (scan_comma calm_space) (item_of_mem_filter h)
    (List.ne_nil_of_mem (List.mem_filter.mpr ⟨hd, by simp [hblank]⟩))

end Separator

end ModelScribe
