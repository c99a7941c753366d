-- Shortest decimals. A double stands for a whole interval of real numbers:
-- those that round to it. Its text needs only as many digits as it takes to
-- land in that interval, and among the decimals with that many digits the one
-- nearest to the double is taken. The interval is found exactly, in whole
-- numbers; each number of digits is then tried in turn, from one up.

namespace ModelScribe.Decimal

/-! ## Decimals -/

/-- The number `significand * 10 ^ exponent`. -/
structure Scaled where
  significand : Nat
  exponent : Int
  deriving DecidableEq, Repr

/-- Which of two decimals is taken when both are equally near. -/
inductive Tie where
  | toEven
  | up
  deriving DecidableEq, Repr

/-- The same number without the zeros at the end of its significand. -/
def Scaled.trim (fuel : Nat) (d : Scaled) : Scaled :=
  match fuel with
  | 0 => d
  | fuel + 1 =>
    if d.significand ≠ 0 ∧ d.significand % 10 = 0 then
      Scaled.trim fuel { significand := d.significand / 10, exponent := d.exponent + 1 }
    else d

/-! ## The interval of a double -/

/-- A positive double as a fraction, with the ends of the interval that rounds to it over
the same denominator. -/
structure Interval where
  value : Nat
  low : Nat
  high : Nat
  denominator : Nat
  /-- The ends themselves round to the double. -/
  closed : Bool
  deriving DecidableEq, Repr

/-- The leading bit in the significand of a double. The smallest doubles lack it. -/
def leadingBit : Nat := 0x10000000000000

/-- The interval of `m * 2 ^ q`. The gap below a power of two is half as wide as the gap
above it, except at the bottom of the range. -/
def intervalOf (m : Nat) (q : Int) : Interval :=
  let narrow : Bool := m = leadingBit ∧ -1074 < q
  let value := 4 * m
  let low := if narrow then value - 1 else value - 2
  let high := value + 2
  let up := Nat.pow 2 (q - 2).toNat
  { value := value * up, low := low * up, high := high * up
    denominator := Nat.pow 2 (2 - q).toNat, closed := m % 2 == 0 }

/-- The significand and the binary exponent of a double, read off its bits. -/
def split (bits : Nat) : Nat × Int :=
  let fraction : Nat := bits % leadingBit
  let biased : Nat := bits / leadingBit % 0x800
  if biased = 0 then (fraction, -1074) else (fraction + leadingBit, (biased : Int) - 1075)

/-! ## The search -/

/-- `a * 10 ^ e` as a fraction's numerator, for the part of the power that is not
negative. -/
def scale (a : Nat) (e : Int) : Nat := a * Nat.pow 10 e.toNat

namespace Interval

/-- `digits * 10 ^ s` lies in the interval. -/
def holds (i : Interval) (s : Int) (digits : Nat) : Bool :=
  let x := scale (digits * i.denominator) s
  let low := scale i.low (-s)
  let high := scale i.high (-s)
  if i.closed then low ≤ x && x ≤ high else low < x && x < high

/-- The best decimal among the multiples of `10 ^ s`, if one lies in the interval: of the
two neighbours of the value, the nearer. -/
def onGrid (i : Interval) (tie : Tie) (s : Int) : Option Nat :=
  let value := scale i.value (-s)
  let step := scale i.denominator s
  let below := value / step
  let rest := value % step
  let nearer :=
    if 2 * rest < step then below
    else if step < 2 * rest then below + 1
    else match tie with
      | .up => below + 1
      | .toEven => if below % 2 = 0 then below else below + 1
  let other := if nearer = below then below + 1 else below
  if i.holds s nearer then some nearer else if i.holds s other then some other else none

/-- The number of the digits that stand before the point, zero or less for a value below
one. -/
def magnitude (i : Interval) : Int :=
  let whole := i.value / i.denominator
  if whole ≠ 0 then (Nat.toDigits 10 whole).length
  else 1 - (leadingZeros 400 (10 * i.value) 1 : Int)
where
  /-- The first power of ten that lifts the value to one or more. -/
  leadingZeros (fuel value count : Nat) : Nat :=
    match fuel with
    | 0 => count
    | fuel + 1 =>
      if i.denominator ≤ value then count else leadingZeros fuel (10 * value) (count + 1)

/-- The first grid, from the coarsest on, that has a decimal in the interval. -/
def search (i : Interval) (tie : Tie) (fuel : Nat) (s : Int) : Scaled :=
  match fuel with
  | 0 => { significand := 0, exponent := 0 }
  | fuel + 1 =>
    match i.onGrid tie s with
    | some significand => { significand, exponent := s }
    | none => i.search tie fuel (s - 1)

end Interval

/-- The shortest decimal that reads back as the positive double with these bits, and of
those the nearest. -/
def shortest (tie : Tie) (bits : Nat) : Scaled :=
  let (m, q) := split bits
  let i := intervalOf m q
  (i.search tie 18 (i.magnitude - 1)).trim 20

end ModelScribe.Decimal
