-- The law of signatures without a body. A default value belongs to a body, since
-- it stands in for what a caller leaves out. A member of an interface never
-- writes the values of its arguments. An abstract method writes them all,
-- as if it had a body.
import ModelScribe.Model.Method
import ModelScribe.Proofs.Joining

namespace ModelScribe

open Text

/-! ## One part of a list -/

namespace Doc

theorem exists_intercalate_around (sep : Doc) (before behind : List Doc) :
    ∃ first last : Doc, ∀ d, sep.intercalate (before ++ d :: behind) = first ++ d ++ last := by
  induction before with
  | nil =>
    cases behind with
    | nil => exact ⟨[], [], fun d => by simp⟩
    | cons e rest =>
      refine ⟨[], sep ++ sep.intercalate (e :: rest), fun d => ?_⟩
      rw [List.nil_append, List.intercalate_cons_cons, List.nil_append, List.append_assoc]
  | cons e rest ih =>
    obtain ⟨first, last, hd⟩ := ih
    refine ⟨e ++ sep ++ first, last, fun d => ?_⟩
    rw [List.cons_append, List.intercalate_cons_of_ne_nil (by simp), hd]
    simp only [List.append_assoc]

/-- What stands around a part in a list with commas does not depend on the part, as long as it is
not dropped. -/
theorem exists_commaList_around (before behind : List Doc) :
    ∃ first last : Doc, ∀ d : Doc, d.isBlank = false →
      commaList (before ++ d :: behind) = first ++ d ++ last := by
  obtain ⟨first, last, hd⟩ := exists_intercalate_around [Mark.text ",", Mark.space]
    (before.filter (!isBlank ·)) (behind.filter (!isBlank ·))
  refine ⟨first, last, fun d hvisible => ?_⟩
  rw [commaList, List.filter_append, List.filter_cons_of_pos (by simp [hvisible]), hd]

end Doc

/-! ## One argument -/

namespace Property

theorem isBlank_argDoc {p : Property} (h : p.isNamed = true) : p.argDoc.isBlank = false := by
  have hname : Text.isBlank p.name = false := by simpa [isNamed] using h
  simp [argDoc, h, signature, Doc.isBlank, Mark.isBlank, hname]

theorem chars_initializer_inj (l : Layout) {a b : Option String} :
    l.chars (initializer a) = l.chars (initializer b) ↔ a = b := by
  cases a with
  | none =>
    cases b with
    | none => simp
    | some t => simp [initializer, Layout.mark]
  | some s =>
    cases b with
    | none => simp [initializer, Layout.mark]
    | some t => simp [initializer, Layout.mark, String.toList_inj]

/-- A named argument tells its default value, and nothing of a blank one. -/
theorem chars_argDoc_withValue (l : Layout) {p : Property} (h : p.isNamed = true)
    (value : Option String) :
    l.chars { p with value }.argDoc = l.chars p.argDoc ↔ nonBlank value = nonBlank p.value := by
  have hnamed : ({ p with value } : Property).isNamed = true := h
  have hsignature : ({ p with value } : Property).signature = p.signature := rfl
  rw [argDoc, argDoc, if_pos hnamed, if_pos h, hsignature, Layout.chars_append,
    Layout.chars_append, List.append_cancel_left_eq]
  exact chars_initializer_inj l

theorem argDoc_withValue_of_nameless {p : Property} (h : p.isNamed = false)
    (value : Option String) : { p with value }.argDoc = p.argDoc := by
  have hnamed : ({ p with value } : Property).isNamed = false := h
  simp [argDoc, hnamed, h]

end Property

/-! ## Signatures -/

namespace Method

/-- An abstract method writes its arguments as a method with a body does. -/
theorem classDoc_asAbstract {m : Method} (h : m.isNamed = true) :
    m.asAbstract.classDoc = .cat [
      [.tab, "abstract ", m.modifier.text, if m.isStatic then " static" else "", " ", m.name, "("],
      .commaList (m.args.map (·.argDoc)),
      ["):", .space, m.type, ";"]] := by
  have hnamed : m.asAbstract.isNamed = true := h
  have habstract : m.asAbstract.isAbstract = true := rfl
  unfold classDoc
  rw [if_pos hnamed, if_pos habstract]
  cases hstatic : m.isStatic <;> simp [header, asAbstract, hstatic]

theorem classDoc_eq_nil {m : Method} (h : m.isNamed = false) : m.classDoc = [] := by
  simp [classDoc, h]

section

variable {m : Method} {before behind : List Property} {p : Property} {value : Option String}

theorem interfaceDoc_withValue :
    ({ m with args := before ++ { p with value } :: behind } : Method).interfaceDoc
      = ({ m with args := before ++ p :: behind } : Method).interfaceDoc := by
  have hparams : (before ++ { p with value } :: behind).map (·.paramDoc)
      = (before ++ p :: behind).map (·.paramDoc) := by
    rw [List.map_append, List.map_append]
    rfl
  unfold interfaceDoc
  rw [hparams]
  rfl

theorem classDoc_withValue_of_nameless (hp : p.isNamed = false) :
    ({ m with args := before ++ { p with value } :: behind } : Method).asAbstract.classDoc
      = ({ m with args := before ++ p :: behind } : Method).asAbstract.classDoc := by
  have hargs : (before ++ { p with value } :: behind).map (·.argDoc)
      = (before ++ p :: behind).map (·.argDoc) := by
    rw [List.map_append, List.map_append, List.map_cons, List.map_cons,
      Property.argDoc_withValue_of_nameless hp]
  simp only [asAbstract, classDoc, header, hargs]
  rfl

/-- Whatever stands around the argument is the same in both texts. -/
theorem chars_classDoc_withValue (l : Layout) (hm : m.isNamed = true) (hp : p.isNamed = true) :
    l.chars ({ m with args := before ++ { p with value } :: behind } : Method).asAbstract.classDoc
        = l.chars ({ m with args := before ++ p :: behind } : Method).asAbstract.classDoc
      ↔ nonBlank value = nonBlank p.value := by
  obtain ⟨first, last, hlist⟩ :=
    Doc.exists_commaList_around (before.map (·.argDoc)) (behind.map (·.argDoc))
  have hargs (q : Property) (hq : q.isNamed = true) :
      Doc.commaList ((before ++ q :: behind).map (·.argDoc)) = first ++ q.argDoc ++ last := by
    rw [List.map_append, List.map_cons, hlist _ (Property.isBlank_argDoc hq)]
  have hdoc (q : Property) := classDoc_asAbstract (m := { m with args := before ++ q :: behind }) hm
  rw [hdoc p, hdoc { p with value }, hargs p hp, hargs { p with value } hp]
  simp [Property.chars_argDoc_withValue l hp]

end

/-- A member of an interface says nothing of the values of its arguments; an abstract method says
of a named argument what its value is. So another value for one argument leaves the text of the
member as it is, and that of the abstract method exactly where the method or the argument has no
name, or where the values are the same or both blank. -/
theorem signatures_tell_values_iff_abstract (l : Layout) (m : Method)
    (before behind : List Property) (p : Property) (value : Option String) :
    let m₁ : Method := { m with args := before ++ p :: behind }
    let m₂ : Method := { m with args := before ++ { p with value } :: behind }
    l.write m₂.interfaceDoc = l.write m₁.interfaceDoc ∧
    (l.write m₂.asAbstract.classDoc = l.write m₁.asAbstract.classDoc ↔
      m.isNamed = false ∨ p.isNamed = false ∨ nonBlank value = nonBlank p.value) := by
  intro m₁ m₂
  refine ⟨congrArg l.write interfaceDoc_withValue, ?_⟩
  cases hm : m.isNamed with
  | false =>
    have hnone₁ : m₁.asAbstract.classDoc = [] := classDoc_eq_nil hm
    have hnone₂ : m₂.asAbstract.classDoc = [] := classDoc_eq_nil hm
    simp [hnone₁, hnone₂]
  | true =>
    cases hp : p.isNamed with
    | false =>
      have hsame : m₂.asAbstract.classDoc = m₁.asAbstract.classDoc :=
        classDoc_withValue_of_nameless hp
      simp [hsame]
    | true =>
      rw [← String.toList_inj, Layout.toList_write, Layout.toList_write,
        chars_classDoc_withValue l hm hp]
      simp

/-- The value of an argument stands in a signature that has no body to use it. -/
theorem an_abstract_signature_tells_a_value :
    let m : Method := { name := "draw", args := [{ name := "x", value := some "1" }] }
    let bare : Method := { m with args := [{ name := "x" }] }
    Layout.compact.write m.asAbstract.classDoc = "abstract public draw(x:any=1):void;" ∧
    Layout.compact.write bare.asAbstract.classDoc = "abstract public draw(x:any):void;" ∧
    Layout.compact.write m.asAbstract.classDoc ≠ Layout.compact.write bare.asAbstract.classDoc := by
  decide +kernel

end Method

end ModelScribe
