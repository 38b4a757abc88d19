import DynScript.Number.Dyadic

/-!
# Shortest decimals

The decimal text of a number is made of the fewest digits that read back as that number.  Of the
decimals with so many digits that do, the nearest one is taken, a tie going to the even digit.
-/

namespace DynScript.Number

/-- A decimal `digits * 10 ^ exponent`. -/
structure Decimal where
  digits : Nat
  exponent : Int
  deriving DecidableEq, Repr

/-- The numerator and denominator of `n * 2 ^ e`. -/
def scaled (n : Nat) (e : Int) : Nat × Nat :=
  (n * Nat.pow 2 e.toNat, Nat.pow 2 (-e).toNat)

/-- A decimal as a quotient. -/
def Decimal.ratio (d : Decimal) : Nat × Nat :=
  (d.digits * Nat.pow 10 d.exponent.toNat, Nat.pow 10 (-d.exponent).toNat)

/-- Whether the fraction `a` is below `b`, or equal to it when `closed`. -/
def ratioBelow (closed : Bool) (a b : Nat × Nat) : Bool :=
  if closed then a.1 * b.2 ≤ b.1 * a.2 else a.1 * b.2 < b.1 * a.2

/-- The reals that read back as a positive number, by their bounds. -/
structure Interval where
  low : Nat × Nat
  high : Nat × Nat
  closed : Bool

/-- The reals that read back as the magnitude `m`. -/
def Interval.of (m : Dyadic) : Interval :=
  let below := if m.mantissa = Nat.pow 2 52 && -1074 < m.exponent then 1 else 2
  { low := scaled (4 * m.mantissa - below) (m.exponent - 2)
    high := scaled (4 * m.mantissa + 2) (m.exponent - 2)
    closed := m.mantissa % 2 = 0 }

/-- Whether a decimal is in an interval. -/
def Interval.holds (i : Interval) (d : Decimal) : Bool :=
  ratioBelow i.closed i.low d.ratio && ratioBelow i.closed d.ratio i.high

/-- The largest `k` with `10 ^ k ≤ n / d`, for positive `n` and `d`, found by stepping up from a
lower bound. -/
def decimalLog (n d : Nat) : Int :=
  let guess : Int := ((logRatio n d) * 30103) / 100000 - 1
  let reaches (k : Int) : Bool := d * Nat.pow 10 k.toNat ≤ n * Nat.pow 10 (-k).toNat
  if reaches (guess + 2) then guess + 2 else if reaches (guess + 1) then guess + 1 else guess

/-- The best decimal whose last digit has weight `10 ^ exponent` among the two neighbours of the
value `value`, if one of them lies in the interval. -/
def bestAt (i : Interval) (value : Nat × Nat) (exponent : Int) : Option Decimal :=
  let n := value.1 * Nat.pow 10 (-exponent).toNat
  let d := value.2 * Nat.pow 10 exponent.toNat
  let low : Decimal := ⟨n / d, exponent⟩
  let high : Decimal := ⟨n / d + 1, exponent⟩
  match i.holds low, i.holds high with
  | true, true => some ⟨roundDiv n d, exponent⟩
  | true, false => some low
  | false, true => some high
  | false, false => none

/-- Tries one digit more until a decimal lies in the interval; `exponent` is the weight of the last
digit, and the value itself is given when `fuel` more digits are not enough. -/
def shortestFrom (i : Interval) (value : Nat × Nat) (exponent : Int) : Nat → Decimal
  | 0 =>
    let n := value.1 * Nat.pow 10 (-exponent).toNat
    let d := value.2 * Nat.pow 10 exponent.toNat
    ⟨roundDiv n d, exponent⟩
  | fuel + 1 =>
    match bestAt i value exponent with
    | some d => d
    | none => shortestFrom i value (exponent - 1) fuel

/-- Drops zeros at the end. -/
def Decimal.strip (d : Decimal) : Nat → Decimal
  | 0 => d
  | fuel + 1 =>
    if d.digits ≠ 0 ∧ d.digits % 10 = 0 then Decimal.strip ⟨d.digits / 10, d.exponent + 1⟩ fuel else d

/-- The shortest decimal that reads back as the finite positive number `x`. -/
def shortest (x : Float) : Decimal :=
  let m := magnitude x
  let value := scaled m.mantissa m.exponent
  (shortestFrom (.of m) value (decimalLog value.1 value.2) 17).strip 17

end DynScript.Number
