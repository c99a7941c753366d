-- The TOML reader. It looks at a well-formed document as a value of a given
-- kind. A record may be written as a table or as a list of its fields in
-- declaration order, whose surplus items do not count; the entries of a table
-- are looked at in the order of their keys. The first value of the wrong type
-- is reported, with the stretch of the document that it takes.
import ModelScribe.Toml.Document
import ModelScribe.Schema.Kind
import ModelScribe.Decimal.Text
import ModelScribe.Text.Position

namespace ModelScribe.Toml

/-! ## Faults -/

/-- A result of looking at a value. The place of a fault may be left to the container of the
value. -/
abbrev Seen (α : Type) := Except Fault α

/-- A fault whose place is open is placed here. -/
def placedAt {α : Type} (extent : Extent) (r : Seen α) : Seen α :=
  r.mapError fun fault => some (fault.getD extent)

/-! ## Numbers out of range -/

/-- An integer that so many bits hold, one of them for the sign or all for the value. -/
def fits (bits : Nat) (n : Int) : Bool :=
  -(Nat.pow 2 (bits - 1) : Int) ≤ n && n < (Nat.pow 2 bits : Int)

mutual

/-- The first number in a value that is out of range, if there is one. -/
def outOfRange (bits : Nat) (extent : Extent) (v : Value) : Option Extent :=
  match v with
  | .integer n => if fits bits n then none else some extent
  | .overflow => some extent
  | .list _ vs => outOfRangeItem bits vs
  | .table _ es => outOfRangeEntry bits es
  | _ => none

def outOfRangeItem (bits : Nat) (vs : List (Extent × Value)) : Option Extent :=
  match vs with
  | [] => none
  | (extent, v) :: vs => (outOfRange bits extent v).or (outOfRangeItem bits vs)

def outOfRangeEntry (bits : Nat) (es : List (String × Extent × Value)) : Option Extent :=
  match es with
  | [] => none
  | (_, extent, v) :: es => (outOfRange bits extent v).or (outOfRangeEntry bits es)

end

/-- Passes over a value whose numbers are all in range. -/
def ignore (bits : Nat) (extent : Extent) (v : Value) : Seen Unit :=
  match outOfRange bits extent v with
  | some e => .error (some e)
  | none => .ok ()

/-! ## Scalars -/

/-- A string, a number or a flag, as text. -/
def scalar (extent : Extent) (v : Value) : Seen String :=
  (ignore 64 extent v).bind fun _ =>
    match v with
    | .text s => .ok s
    | .flag b => .ok (if b then "true" else "false")
    | .integer n => .ok (Int.repr n)
    | .real x => .ok (Decimal.sourceText x)
    | _ => .error none

/-! ## Kinds -/

/-- Looks at the items of a list one by one. -/
def eachItem {α : Type} (item : Extent → Value → Seen α) : List (Extent × Value) → Seen (List α)
  | [] => .ok []
  | (extent, v) :: vs => do
    let a ← item extent v
    let as ← eachItem item vs
    return a :: as

mutual

/-- Looks at a value as one of the kind. -/
def readKind (k : Kind) (extent : Extent) (v : Value) : Seen k.Value :=
  match k with
  | .text =>
    match v with
    | .text s => .ok s
    | _ => .error (some extent)
  | .flag =>
    match v with
    | .flag b => .ok b
    | _ => .error (some extent)
  | .byte =>
    match v with
    | .integer n => if 0 ≤ n ∧ n < 256 then .ok (UInt8.ofNat n.toNat) else .error (some extent)
    | _ => .error (some extent)
  | .scalar => scalar extent v
  | .optional k => placedAt extent ((readKind k extent v).map some)
  | .list k =>
    match v with
    | .list _ vs => placedAt extent (eachItem (fun e v => readKind k e v) vs)
    | _ => .error (some extent)
  | .record _ fs =>
    match v with
    | .list _ vs => placedAt extent (readPlaces fs vs)
    | .table _ es =>
      placedAt extent <|
        es.foldlM
          (fun state e => placedAt e.2.1 <|
            match readField fs e.1 state e.2.1 e.2.2 with
            | some result => result
            | none => (ignore 128 e.2.1 e.2.2).map fun _ => state)
          fs.unstated
    | .moment => .ok fs.unstated
    | _ => .error (some extent)

/-- Looks at fields by position. -/
def readPlaces (fs : Fields) (vs : List (Extent × Value)) : Seen fs.Values :=
  match fs with
  | .nil => .ok ()
  | .cons _ k fs =>
    match vs with
    | [] => .ok (none, fs.unstated)
    | (extent, v) :: vs => do
      let a ← readKind k extent v
      let as ← readPlaces fs vs
      return (some a, as)

/-- Looks at the field with the given key, if there is one. -/
def readField (fs : Fields) (key : String) (state : fs.Values) (extent : Extent) (v : Value) :
    Option (Seen fs.Values) :=
  match fs with
  | .nil => none
  | .cons name k fs =>
    if key = name then some ((readKind k extent v).map fun a => (some a, state.2))
    else
      (readField fs key state.2 extent v).map fun result => result.map fun as => (state.1, as)

end

/-! ## Documents -/

/-- The stretch in bytes, in a document of the given number of bytes. -/
def Extent.span (total : Nat) (e : Extent) : Text.Span :=
  let start := Text.byteLength e.start
  ⟨total - start, start - Text.byteLength e.stop⟩

/-- The value of a document, or the place of its first fault. -/
def read (k : Kind) (document : String) : Except (Option Text.Span) k.Value :=
  let cs := document.toList
  ((parse cs).bind fun es => readKind k ⟨cs, []⟩ (.table .header es)).mapError fun fault =>
    fault.map (·.span (Text.byteLength cs))

end ModelScribe.Toml
