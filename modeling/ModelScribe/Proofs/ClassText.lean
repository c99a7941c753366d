-- Reading classes back. A reader of the target language goes over the lines
-- of a text and takes each text of a descriptor as one word. It finds the
-- classes by their opening lines, and of each class it takes what decides
-- the fields of an object: the supertype, the fields that are declared, and
-- the statements of the constructor. What a generated class tells such a
-- reader is settled by its descriptor.
import ModelScribe.Program
import ModelScribe.Proofs.Lines
import ModelScribe.Proofs.ScriptPieces

namespace ModelScribe

open Text

/-! ## What a reader learns -/

/-- What a text says about the value of a field. -/
inductive FieldValue where
  /-- A list of names. -/
  | names (list : List String)
  /-- A text in quotes. -/
  | text (s : String)
  /-- The value of any other code, or no value at all. -/
  | code
  deriving DecidableEq, Repr

/-- A statement in the body of a constructor. -/
inductive Statement where
  | callSuper
  /-- Set a field to a text in quotes. -/
  | setText (field s : String)
  /-- Set a field to the items of another one, or of its own, with names behind them. -/
  | spread (target source : String) (names : List String)
  /-- Code that is taken word for word. -/
  | verbatim
  deriving DecidableEq, Repr

/-- What a reader keeps of a class. -/
structure ClassText where
  name : String
  parent : Option String
  /-- The fields that every object gets, in order, each with its first value. -/
  fields : List (String × FieldValue)
  /-- The statements of the constructor, when there is one. -/
  body : Option (List Statement)
  deriving DecidableEq, Repr

/-! ## Reading values -/

/-- Names in quotes with commas between them. -/
def Script.names : List Script.Piece → Option (List String)
  | [.quoted n] => some [n]
  | .quoted n :: .sign ',' :: rest => (names rest).map (n :: ·)
  | _ => none

namespace FieldValue

/-- What the pieces of a value say. -/
def ofPieces : List Script.Piece → FieldValue
  | [.quoted s] => .text s
  | [.group '[' []] => .names []
  | [.group '[' items] => ((Script.names items).map .names).getD .code
  | _ => .code

/-- What the text of a value says. -/
def ofText (value : Option String) : FieldValue :=
  ((value.bind Script.read).map ofPieces).getD .code

end FieldValue

/-! ## Reading lines -/

/-- Names in quotes with commas between them, and the marks that follow. -/
def readNames : Doc → List String × Doc
  | .text "'" :: .text n :: .text "'" :: .text "," :: .space :: rest =>
    (n :: (readNames rest).1, (readNames rest).2)
  | .text "'" :: .text n :: .text "'" :: rest => ([n], rest)
  | rest => ([], rest)

/-- `export class Name extends Super …`. -/
def readHeader : Doc → Option (String × Option String)
  | .text "export" :: .text _ :: .text " class " :: .text name :: .text " extends " :: .text s
      :: _ =>
    some (name, some s)
  | .text "export" :: .text _ :: .text " class " :: .text name :: _ => some (name, none)
  | _ => none

/-- `[]`, or names between brackets, at the end of a line. -/
def readList : Doc → Option (List String)
  | [.text "[]", .text ";"] => some []
  | .text "[" :: .space :: rest =>
    match readNames rest with
    | (names, [.space, .text "]", .text ";"]) => some names
    | _ => none
  | _ => none

/-- What follows the name of a field: `: type;`, ` = value;` or `: type = value;`. -/
def readValue : Doc → Option (Option String)
  | [.text ":", .space, .text _, .text ";"] => some none
  | [.space, .text "=", .space, .text value, .text ";"] => some (some value)
  | [.text ":", .space, .text _, .space, .text "=", .space, .text value, .text ";"] =>
    some (some value)
  | _ => none

/-- A field of every object: an access word, a space and a name, or a list of names that is
protected. -/
def readField : Doc → Option (String × FieldValue)
  | .tab :: .text _ :: .text " " :: .text name :: rest =>
    (readValue rest).map fun value => (name, .ofText value)
  | .tab :: .text "protected " :: .text name :: .text ":" :: .space :: .text "string[]" :: .space
      :: .text "=" :: .space :: rest =>
    (readList rest).map fun names => (name, .names names)
  | _ => none

/-- The line begins like a constructor, and not like a getter or setter whose access word
reads the same. -/
def beginsConstructor : Doc → Bool
  | .tab :: .text "constructor(" :: .text _ :: .text "get " :: _ => false
  | .tab :: .text "constructor(" :: .text _ :: .text "set " :: _ => false
  | .tab :: .text "constructor(" :: _ => true
  | _ => false

def opensConstructor (l : Doc) : Bool :=
  beginsConstructor l && l.getLast? == some (.text "\x7b")

/-- The line stands in the body of a constructor or of another member. -/
def isStatement : Doc → Bool
  | .tab :: .tab :: _ => true
  | _ => false

def Statement.read : Doc → Statement
  | .text "super(" :: rest => if rest.getLast? = some (.text ");") then .callSuper else .verbatim
  | [.text "this.", .text field, .space, .text "=", .space, .text "'", .text s, .text "';"] =>
    .setText field s
  | .text "this." :: .text target :: .space :: .text "=" :: .space :: .text "[" :: .space
      :: .text "...this." :: .text source :: .text "," :: .space :: rest =>
    match readNames rest with
    | (names, [.space, .text "];"]) => .spread target source names
    | _ => .verbatim
  | _ => .verbatim

/-- The statements of the constructor among the lines of a class body. -/
def readBody : List Doc → Option (List Statement)
  | [] => none
  | l :: rest =>
    if opensConstructor l then
      some ((rest.takeWhile isStatement).map fun s => Statement.read (s.drop 2))
    else readBody rest

/-- All classes in the lines of a text. A class goes from its opening line to a brace that
stands at the start of a line. -/
def readClasses : List Doc → List ClassText
  | [] => []
  | l :: rest =>
    match readHeader l with
    | some (name, parent) =>
      let inner := rest.takeWhile (· != Doc.lastLine)
      { name, parent, fields := inner.filterMap readField, body := readBody inner }
        :: readClasses rest
    | none => readClasses rest

/-- The classes that are read from the text of one. -/
def Class.readings (v : Conventions) (c : Class) : List ClassText := readClasses (c.doc v).lines

/-! ## What a class tells -/

/-- The field that a property stores its value in, unless it is not declared. -/
def Property.storedField (p : Property) : Option (String × FieldValue) :=
  if p.isNamed && p.declare then
    some (if p.isPlain then p.name else p.backingField, .ofText p.defaultValue)
  else none

/-- What a reader takes from a step of a constructor. -/
def Statement.ofStep : ConstructorStep → Statement
  | .callSuper _ => .callSuper
  | .tagClass field name => .setText field name
  | .enlist field names => .spread field field names
  | .custom _ => .verbatim

/-- What a reader takes from a class with a name. -/
def Class.text (v : Conventions) (c : Class) : ClassText where
  name := c.name
  parent := c.supertype
  fields := (c.properties.filter (!·.isStatic)).filterMap Property.storedField
    ++ if c.isBaseModel then Roster.all.map fun r => (r.field, .names (r.names c)) else []
  body :=
    if c.hasConstructor then some ((c.constructorSteps v).map Statement.ofStep) else none

/-! ## Lists of names -/

theorem quotedList_cons_cons (n m : String) (rest : List String) :
    quotedList (n :: m :: rest)
      = .text "'" :: .text n :: .text "'" :: .text "," :: .space :: quotedList (m :: rest) := by
  unfold quotedList
  rw [List.map_cons, List.map_cons, List.intercalate_cons_cons]
  rfl

/-- A list of names is read back, and what follows it is left. -/
theorem readNames_quotedList {names : List String} (h : names ≠ []) (rest : Doc) :
    readNames (quotedList names ++ .space :: rest) = (names, .space :: rest) := by
  induction names with
  | nil => exact absurd rfl h
  | cons n tail ih =>
    cases tail with
    | nil => rfl
    | cons m tail =>
      rw [quotedList_cons_cons]
      simp only [List.cons_append]
      rw [readNames, ih (by simp)]

/-! ## Fields -/

theorem readField_rosterDoc (c : Class) (r : Roster) :
    readField (c.rosterDoc r) = some (r.field, .names (r.names c)) := by
  -- so the line is no field that stands behind an access word and a space
  have hspace : r.field ≠ " " := by cases r <;> decide
  cases hnames : r.names c with
  | nil => simp [Class.rosterDoc, hnames, readField, readList]
  | cons n rest =>
    have hlist : readList (Mark.text "[" :: .space
        :: (quotedList (n :: rest) ++ Mark.space :: [.text "]", .text ";"]))
        = some (n :: rest) := by
      rw [readList, readNames_quotedList (List.cons_ne_nil n rest)]
      rfl
    simp [Class.rosterDoc, hnames, readField, hlist]

theorem readField_field (name access : String) (type value : Option String)
    (h : type.isSome ∨ value.isSome) :
    readField ((PropertyMember.field name access type value).doc false)
      = some (name, .ofText value) := by
  cases type with
  | none =>
    cases value with
    | none => simp at h
    | some v => rfl
  | some t => cases value <;> rfl

/-! ## Lines without news

Most lines in the body of a class tell a reader nothing about the fields of an object. -/

/-- A line in the body of a class that is neither a field of every object nor the opening
line of a constructor. -/
structure Quiet (l : Doc) : Prop where
  indented : l.head? = some .tab
  noField : readField l = none
  opensNothing : opensConstructor l = false

theorem quiet_statement (s : Doc) : Quiet (.statement s) := ⟨rfl, rfl, rfl⟩

theorem quiet_closing : Quiet Doc.closing := ⟨rfl, rfl, rfl⟩

/-- A block is as quiet as its opening line. -/
theorem quiet_block {head : Doc} (h : Quiet head) (body : List Doc) :
    ∀ l ∈ head :: (body.map Doc.statement ++ [Doc.closing]), Quiet l := by
  intro l hl
  rw [List.mem_cons, List.mem_append, List.mem_singleton] at hl
  rcases hl with rfl | hl | rfl
  · exact h
  · obtain ⟨s, -, rfl⟩ := List.mem_map.mp hl
    exact quiet_statement s
  · exact quiet_closing

/-- A constructor opens with a brace at the end of the line. -/
theorem opensConstructor_concat {d : Doc} {s : String} (hs : s ≠ "\x7b") :
    opensConstructor (d ++ [Mark.text s]) = false := by
  unfold opensConstructor
  rw [List.getLast?_concat]
  simp [hs]

theorem opensConstructor_field_doc (isStatic : Bool) (name access : String)
    (type value : Option String) :
    opensConstructor ((PropertyMember.field name access type value).doc isStatic) = false := by
  have hlast : (PropertyMember.field name access type value).doc isStatic
      = (.tab :: .text access :: .text (PropertyMember.staticWord isStatic) :: .text name
        :: (PropertyMember.typeDoc type ++ Property.initializer value)) ++ [Mark.text ";"] := by
    simp [PropertyMember.doc]
  rw [hlast]
  exact opensConstructor_concat (by decide)

theorem quiet_static_field (name access : String) (type value : Option String) :
    Quiet ((PropertyMember.field name access type value).doc true) where
  indented := rfl
  noField := by
    cases type <;> cases value <;>
      simp [PropertyMember.doc, PropertyMember.staticWord, PropertyMember.typeDoc,
        Property.initializer, readField]
  opensNothing := opensConstructor_field_doc true name access type value

theorem quiet_accessor_opening {kind : String} (access word name brackets : String) (rest : Doc)
    (hkind : kind = "get " ∨ kind = "set ") :
    Quiet (.tab :: .text access :: .text word :: .text kind :: .text name :: .text brackets
      :: rest) where
  indented := rfl
  noField := by by_cases hword : word = " " <;> simp [readField, readValue, hword]
  opensNothing := by
    unfold opensConstructor
    by_cases haccess : access = "constructor("
    · rcases hkind with rfl | rfl <;> simp [haccess, beginsConstructor]
    · simp [haccess, beginsConstructor]

/-! ## Members of a class -/

/-- Indented lines that declare the given fields of every object and open no constructor. -/
structure Tells (ls : List Doc) (fields : List (String × FieldValue)) : Prop where
  indented : ∀ l ∈ ls, l.head? = some .tab
  fields_eq : ls.filterMap readField = fields
  opensNothing : ∀ l ∈ ls, opensConstructor l = false

namespace Tells

theorem nil : Tells [] [] where
  indented := by simp
  fields_eq := rfl
  opensNothing := by simp

theorem append {xs ys : List Doc} {fs gs : List (String × FieldValue)} (hx : Tells xs fs)
    (hy : Tells ys gs) : Tells (xs ++ ys) (fs ++ gs) where
  indented := List.forall_mem_append.mpr ⟨hx.indented, hy.indented⟩
  fields_eq := by rw [List.filterMap_append, hx.fields_eq, hy.fields_eq]
  opensNothing := List.forall_mem_append.mpr ⟨hx.opensNothing, hy.opensNothing⟩

theorem flatMap {α : Type} {xs : List α} {f : α → List Doc} {g : α → List (String × FieldValue)}
    (h : ∀ x ∈ xs, Tells (f x) (g x)) : Tells (xs.flatMap f) (xs.flatMap g) := by
  induction xs with
  | nil => exact nil
  | cons x rest ih =>
    obtain ⟨hx, hrest⟩ := List.forall_mem_cons.mp h
    rw [List.flatMap_cons, List.flatMap_cons]
    exact hx.append (ih hrest)

theorem of_quiet {ls : List Doc} (h : ∀ l ∈ ls, Quiet l) : Tells ls [] where
  indented := fun l hl => (h l hl).indented
  fields_eq := List.filterMap_eq_nil_iff.mpr fun l hl => (h l hl).noField
  opensNothing := fun l hl => (h l hl).opensNothing

/-- Parts that tell nothing tell nothing together. -/
theorem flatMap_nil {α : Type} {xs : List α} {f : α → List Doc} (h : ∀ x ∈ xs, Tells (f x) []) :
    Tells (xs.flatMap f) [] := by
  have htells := flatMap h
  rwa [List.flatMap_eq_nil_iff.mpr fun _ _ => rfl] at htells

end Tells

namespace PropertyMember

/-- The field that a member declares for every object. -/
def stored : PropertyMember → Option (String × FieldValue)
  | .field name _ _ value => some (name, .ofText value)
  | _ => none

/-- A field has a type or a value. -/
def isDetermined : PropertyMember → Bool
  | .field _ _ type value => type.isSome || value.isSome
  | _ => true

theorem visible_doc (isStatic : Bool) (m : PropertyMember) : Doc.Visible (m.doc isStatic) := by
  cases m with
  | field name access type value =>
    exact Doc.visible_of_mem (m := .text ";") (by simp [doc]) (by decide)
  | getter name access type body =>
    exact Doc.visible_of_mem (m := .text "get ") (by simp [doc]) (by decide)
  | setter name access type body =>
    exact Doc.visible_of_mem (m := .text "set ") (by simp [doc]) (by decide)

/-- The line that opens a getter. -/
def getterLine (isStatic : Bool) (name access type : String) : Doc :=
  [.tab, .text access, .text (staticWord isStatic), .text "get ", .text name, .text "():", .space,
    .text type, .space, .text "\x7b"]

/-- The line that opens a setter. -/
def setterLine (isStatic : Bool) (name access type : String) : Doc :=
  [.tab, .text access, .text (staticWord isStatic), .text "set ", .text name, .text "(value:",
    .space, .text type, .text ")", .space, .text "\x7b"]

theorem doc_getter (isStatic : Bool) (name access type : String) (body : AccessorStep) :
    (getter name access type body).doc isStatic
      = Doc.block (getterLine isStatic name access type) [body.doc] := by
  simp [doc, getterLine, AccessorStep.lineDoc_eq, Doc.block, Doc.closing]

theorem doc_setter (isStatic : Bool) (name access type : String) (body : List AccessorStep) :
    (setter name access type body).doc isStatic
      = Doc.block (setterLine isStatic name access type) (body.map (·.doc)) := by
  have hlines : AccessorStep.lineDoc = fun s => Doc.statement s.doc ++ [Mark.line] :=
    funext AccessorStep.lineDoc_eq
  simp [doc, setterLine, hlines, Doc.block, Doc.closing, List.flatMap_map]

theorem lines_getter (isStatic : Bool) (name access type : String) (body : AccessorStep) :
    ((getter name access type body).doc isStatic).lines
      = getterLine isStatic name access type
        :: ([body.doc].map Doc.statement ++ [Doc.closing]) := by
  rw [doc_getter]
  exact Doc.lines_block (by simp [getterLine]) (by simp [getterLine])
    (by simp [body.inline_doc.line_not_mem])

theorem lines_setter (isStatic : Bool) (name access type : String) (body : List AccessorStep) :
    ((setter name access type body).doc isStatic).lines
      = setterLine isStatic name access type
        :: ((body.map (·.doc)).map Doc.statement ++ [Doc.closing]) := by
  rw [doc_setter]
  exact Doc.lines_block (by simp [setterLine]) (by simp [setterLine])
    (List.forall_mem_map.mpr fun s _ => s.inline_doc.line_not_mem)

/-- A field of every object is told, an accessor or a static member tells nothing. -/
theorem tells_doc (isStatic : Bool) {m : PropertyMember} (h : m.isDetermined = true) :
    Tells (m.doc isStatic).lines (if isStatic then [] else m.stored.toList) := by
  cases m with
  | field name access type value =>
    have hline : ((field name access type value).doc isStatic).lines
        = [(field name access type value).doc isStatic] :=
      Doc.lines_eq_singleton (by simp [doc]) (by
        simp [doc, (inline_typeDoc type).line_not_mem,
          (Property.inline_initializer value).line_not_mem])
    rw [hline]
    cases isStatic with
    | true => exact .of_quiet (by simpa using quiet_static_field name access type value)
    | false =>
      have hread := readField_field name access type value (by simpa [isDetermined] using h)
      constructor
      · simp [doc]
      · rw [List.filterMap_cons_some hread]
        rfl
      · simpa using opensConstructor_field_doc false name access type value
  | getter name access type body =>
    have hquiet := quiet_block (quiet_accessor_opening access (staticWord isStatic) name "():"
      [.space, .text type, .space, .text "\x7b"] (Or.inl rfl)) [body.doc]
    rw [lines_getter]
    cases isStatic <;> exact .of_quiet hquiet
  | setter name access type body =>
    have hquiet := quiet_block (quiet_accessor_opening access (staticWord isStatic) name "(value:"
      [.space, .text type, .text ")", .space, .text "\x7b"] (Or.inr rfl)) (body.map (·.doc))
    rw [lines_setter]
    cases isStatic <;> exact .of_quiet hquiet

end PropertyMember

namespace Property

theorem lines_classDoc (v : Conventions) (p : Property) :
    (p.classDoc v).lines = (p.members v).flatMap fun m => (m.doc p.isStatic).lines := by
  unfold classDoc
  rw [Doc.lines_join (List.forall_mem_map.mpr fun m _ => m.visible_doc p.isStatic),
    List.flatMap_map]

/-- The declared field has the type or the value of the property, and is private if accessors
stand before it. -/
theorem exists_field_eq (v : Conventions) (p : Property) :
    ∃ access type, (type.isSome || p.defaultValue.isSome) = true ∧ p.field v
      = .field (if p.isPlain then p.name else p.backingField) access type p.defaultValue := by
  have htype : ((if (p.defaultValue.isSome && v.inferType) = true then none
      else some p.type : Option String).isSome || p.defaultValue.isSome) = true := by
    cases p.defaultValue with
    | none => rfl
    | some s => exact Bool.or_true _
  unfold field
  cases p.isPlain with
  | true => exact ⟨_, _, htype, rfl⟩
  | false => exact ⟨_, _, htype, rfl⟩

theorem isDetermined_of_mem {v : Conventions} {p : Property} :
    ∀ m ∈ p.members v, m.isDetermined = true := by
  obtain ⟨access, type, htype, hfield⟩ := p.exists_field_eq v
  exact forall_mem_members (fun _ => hfield ▸ htype) (fun _ _ => rfl) (fun _ _ => rfl)

theorem stored_members (v : Conventions) (p : Property) :
    (p.members v).flatMap (fun m => m.stored.toList) = p.storedField.toList := by
  have hfield : (p.field v).stored
      = some (if p.isPlain then p.name else p.backingField, .ofText p.defaultValue) := by
    obtain ⟨access, type, -, heq⟩ := p.exists_field_eq v
    rw [heq]
    rfl
  have hgetter : p.getter.stored = none := rfl
  have hsetter : (p.setter v).stored = none := rfl
  unfold members storedField
  cases hnamed : p.isNamed with
  | false => rfl
  | true =>
    cases p.declare <;> cases p.usesAccessors && p.read <;> cases p.usesAccessors && p.write <;>
      simp [hfield, hgetter, hsetter]

/-- A property tells the field that it is stored in, unless it is static. -/
theorem tells_classDoc (v : Conventions) (p : Property) :
    Tells (p.classDoc v).lines (if p.isStatic then [] else p.storedField.toList) := by
  have hmembers : ∀ m ∈ p.members v, Tells (m.doc p.isStatic).lines
      (if p.isStatic then [] else m.stored.toList) :=
    fun m hm => m.tells_doc p.isStatic (isDetermined_of_mem m hm)
  rw [lines_classDoc]
  cases hstatic : p.isStatic with
  | true =>
    rw [hstatic] at hmembers
    exact .flatMap_nil hmembers
  | false =>
    rw [hstatic] at hmembers
    rw [if_neg (by decide), ← p.stored_members v]
    exact .flatMap hmembers

end Property

namespace Method

theorem quiet_header (m : Method) (rest : Doc) : Quiet (m.header ++ rest) := by
  constructor
  · simp [header]
  · by_cases hword : m.modifier.text = " " <;> cases ha : m.isAbstract <;>
      cases hs : m.isStatic <;> simp [header, ha, hs, readField, readValue, hword]
  · cases ha : m.isAbstract <;> cases hs : m.isStatic <;>
      simp [header, ha, hs, opensConstructor, beginsConstructor]

theorem line_not_mem_header (m : Method) : Mark.line ∉ m.header := by
  have hargs := (Property.inline_args m.args).line_not_mem
  cases ha : m.isAbstract <;> cases hs : m.isStatic <;> simp [header, hargs, ha, hs]

theorem visible_classDoc (m : Method) : Doc.Visible m.classDoc := by
  unfold classDoc
  split
  · split
    · exact Doc.visible_of_mem (m := .text ";") (by simp) (by decide)
    · exact Doc.visible_join _
  · exact Doc.visible_nil

/-- A method tells nothing, whatever its body is. -/
theorem tells_classDoc (m : Method) : Tells m.classDoc.lines [] := by
  have hline := m.line_not_mem_header
  apply Tells.of_quiet
  intro l hl
  unfold classDoc at hl
  split at hl
  · split at hl
    · rw [Doc.eq_of_mem_lines (by simp [hline]) hl]
      simpa using m.quiet_header [.text ";"]
    · obtain ⟨d, hd, hl⟩ := Doc.mem_lines_join hl
      simp only [List.mem_cons, List.not_mem_nil, or_false] at hd
      rcases hd with rfl | rfl | rfl
      · rw [Doc.eq_of_mem_lines (by simp [hline]) hl]
        simpa using m.quiet_header [.space, .text "\x7b"]
      · rw [Doc.eq_of_mem_lines (by simp) hl]
        exact quiet_statement [.text m.body]
      · rw [Doc.eq_of_mem_lines (by simp) hl]
        exact quiet_closing
  · cases hl

theorem tells_join (methods : List Method) :
    Tells (Doc.join (methods.map (·.classDoc))).lines [] := by
  rw [Doc.lines_join (List.forall_mem_map.mpr fun m _ => m.visible_classDoc), List.flatMap_map]
  exact .flatMap_nil fun m _ => m.tells_classDoc

end Method

/-! ## Constructors -/

theorem readBody_append {ls : List Doc} (h : ∀ l ∈ ls, opensConstructor l = false)
    (rest : List Doc) : readBody (ls ++ rest) = readBody rest := by
  induction ls with
  | nil => rfl
  | cons l ls ih =>
    obtain ⟨hl, hls⟩ := List.forall_mem_cons.mp h
    rw [List.cons_append, readBody, hl]
    exact ih hls

theorem readBody_of_silent {ls : List Doc} (h : ∀ l ∈ ls, opensConstructor l = false) :
    readBody ls = none := by
  have hread := readBody_append h []
  rwa [List.append_nil] at hread

namespace Statement

/-- Each step of a constructor is read as what it is. -/
theorem read_doc (s : ConstructorStep) (h : ∀ f names, s = .enlist f names → names ≠ []) :
    read s.doc = ofStep s := by
  cases s with
  | callSuper args => simp [ConstructorStep.doc, read, ofStep]
  | tagClass field name => rfl
  | enlist field names =>
    have hnames := readNames_quotedList (h field names rfl) [.text "];"]
    simp [ConstructorStep.doc, read, ofStep, hnames]
  | custom code =>
    unfold ConstructorStep.doc read ofStep
    split <;> simp_all

end Statement

namespace Class

/-- The arguments of a constructor are nothing, or they begin with a name and with what may
follow a name. -/
theorem argsDoc_shape (c : Class) :
    c.argsDoc = [] ∨ ∃ name mark rest, c.argsDoc = .text name :: .text mark :: rest
      ∧ isBlank name = false ∧ (mark = "" ∨ mark = "?") := by
  unfold argsDoc Doc.commaList
  cases hkept : (c.args.map (·.argDoc)).filter (!Doc.isBlank ·) with
  | nil => exact Or.inl rfl
  | cons d ds =>
    right
    have hd : d ∈ (c.args.map (·.argDoc)).filter (!Doc.isBlank ·) := by
      rw [hkept]
      exact List.mem_cons_self
    obtain ⟨hmem, hvisible⟩ := List.mem_filter.mp hd
    obtain ⟨arg, -, rfl⟩ := List.mem_map.mp hmem
    have hnamed : arg.isNamed = true := by
      cases hnamed : arg.isNamed with
      | true => rfl
      | false => simp [Property.argDoc, hnamed, Doc.isBlank] at hvisible
    have hmark : (if arg.optional then "?" else "") = ""
        ∨ (if arg.optional then "?" else "") = "?" := by
      cases arg.optional <;> simp
    obtain ⟨rest, hrest⟩ := Doc.exists_intercalate_eq [.text ",", .space] arg.argDoc ds
    refine ⟨arg.name, if arg.optional then "?" else "",
      [Mark.text ":", .space, .text arg.type] ++ Property.initializer arg.defaultValue ++ rest,
      ?_, by simpa [Property.isNamed] using hnamed, hmark⟩
    rw [hrest, Property.argDoc, if_pos hnamed, Property.signature]
    cases arg.optional <;> simp

/-- The line that opens the constructor. -/
def opening (c : Class) : Doc :=
  (Mark.tab :: .text "constructor(" :: (c.argsDoc ++ [Mark.text ")", .space])) ++ [Mark.text "\x7b"]

theorem opensConstructor_opening (c : Class) : opensConstructor c.opening = true := by
  have hbegins : beginsConstructor c.opening = true := by
    unfold opening
    rcases c.argsDoc_shape with hargs | ⟨name, mark, rest, hargs, -, rfl | rfl⟩ <;>
      rw [hargs] <;> rfl
  unfold opensConstructor
  rw [hbegins, opening, List.getLast?_concat]
  decide

theorem readField_opening (c : Class) : readField c.opening = none := by
  unfold opening
  rcases c.argsDoc_shape with hargs | ⟨name, mark, rest, hargs, hname, -⟩
  · rw [hargs]
    rfl
  · have hspace : name ≠ " " := by
      intro h
      rw [h] at hname
      exact absurd hname (by decide)
    rw [hargs]
    simp [readField, hspace]

theorem constructorDoc_eq {c : Class} (v : Conventions) (h : c.hasConstructor = true) :
    c.constructorDoc v = Doc.block c.opening ((c.constructorSteps v).map (·.doc)) := by
  have hlines : ConstructorStep.lineDoc = fun s => Doc.statement s.doc ++ [Mark.line] :=
    funext ConstructorStep.lineDoc_eq
  simp [constructorDoc, h, hlines, Doc.block, opening, Doc.closing, List.flatMap_map]

theorem lines_constructorDoc {v : Conventions} {c : Class} (h : c.hasConstructor = true) :
    (c.constructorDoc v).lines
      = c.opening :: (((c.constructorSteps v).map (·.doc)).map Doc.statement ++ [Doc.closing]) := by
  rw [constructorDoc_eq v h]
  exact Doc.lines_block (by simp [opening]) (by simp [opening, c.inline_argsDoc.line_not_mem])
    (List.forall_mem_map.mpr fun s _ => s.inline_doc.line_not_mem)

/-- A roster only grows by names that there are. -/
theorem names_ne_nil {v : Conventions} {c : Class} {f : String} {names : List String}
    (h : .enlist f names ∈ c.constructorSteps v) : names ≠ [] := by
  unfold constructorSteps at h
  rw [List.mem_append, List.mem_append] at h
  rcases h with (h | h) | h
  · split at h
    · simp at h
    · cases h
  · obtain ⟨r, hr, hstep⟩ := List.mem_map.mp h
    obtain ⟨-, hnames⟩ := List.mem_filter.mp hr
    cases hstep
    simpa using hnames
  · simp at h

theorem read_constructorSteps (v : Conventions) (c : Class) :
    (((c.constructorSteps v).map (·.doc)).map Doc.statement).map
        (fun s => Statement.read (s.drop 2))
      = (c.constructorSteps v).map Statement.ofStep := by
  rw [List.map_map, List.map_map]
  apply List.map_congr_left
  intro s hs
  apply Statement.read_doc
  rintro f names rfl
  exact names_ne_nil hs

/-- The constructor is read with one statement for each of its steps. -/
theorem readBody_constructorDoc (v : Conventions) (c : Class) {rest : List Doc}
    (hrest : ∀ l ∈ rest, opensConstructor l = false) :
    readBody ((c.constructorDoc v).lines ++ rest)
      = if c.hasConstructor then some ((c.constructorSteps v).map Statement.ofStep) else none := by
  cases h : c.hasConstructor with
  | false =>
    have hnone : c.constructorDoc v = [] := by simp [constructorDoc, h]
    rw [hnone, Doc.lines_nil, List.nil_append, readBody_of_silent hrest]
    rfl
  | true =>
    have hstatements : ∀ s ∈ ((c.constructorSteps v).map (·.doc)).map Doc.statement,
        isStatement s = true := List.forall_mem_map.mpr fun s _ => rfl
    rw [lines_constructorDoc h, List.cons_append, readBody, c.opensConstructor_opening, if_pos rfl,
      if_pos rfl, List.append_assoc, List.takeWhile_append_of_pos hstatements]
    have hend : ([Doc.closing] ++ rest).takeWhile isStatement = [] := rfl
    rw [hend, List.append_nil, read_constructorSteps]

end Class

end ModelScribe
