/-!
# Numbers as dyadic fractions

A finite number is a sign and a magnitude `mantissa * 2 ^ exponent`.  This module reads that form
off the bits of a number and finds the number nearest to a quotient of naturals, a tie going to the
even mantissa.
-/

namespace DynScript.Number

/-- A fraction `mantissa * 2 ^ exponent`. -/
structure Dyadic where
  mantissa : Nat
  exponent : Int
  deriving DecidableEq, Repr

/-- Whether the sign bit of `x` is set; a negative zero counts. -/
def isNegative (x : Float) : Bool :=
  Nat.pow 2 63 ≤ x.toBits.toNat

/-- The magnitude of a finite number. -/
def magnitude (x : Float) : Dyadic :=
  let bits : Nat := x.toBits.toNat % Nat.pow 2 63
  let biased : Nat := bits / Nat.pow 2 52
  let fraction : Nat := bits % Nat.pow 2 52
  if biased = 0 then ⟨fraction, -1074⟩ else ⟨Nat.pow 2 52 + fraction, (biased : Int) - 1075⟩

/-- The quotient `n / d` rounded to the nearest natural, a tie going to the even one. -/
def roundDiv (n d : Nat) : Nat :=
  let q := n / d
  let r := n % d
  if 2 * r < d then q
  else if d < 2 * r then q + 1
  else q + q % 2

/-- The largest `k` with `2 ^ k ≤ n / d`, for positive `n` and `d`. -/
def logRatio (n d : Nat) : Int :=
  let k : Int := (n.log2 : Int) - d.log2
  if d * Nat.pow 2 k.toNat ≤ n * Nat.pow 2 (-k).toNat then k else k - 1

/-- The bits, without the sign, of the number nearest to `n / d`; a quotient beyond the largest
finite number gives bits from `infiniteBits` on. -/
def nearestBits (n d : Nat) : Nat :=
  if n = 0 then 0
  else
    let exponent := max (logRatio n d - 52) (-1074)
    let mantissa := roundDiv (n * Nat.pow 2 (-exponent).toNat) (d * Nat.pow 2 exponent.toNat)
    (exponent + 1074).toNat * Nat.pow 2 52 + mantissa

/-- The bits of infinity. -/
def infiniteBits : Nat := 2047 * Nat.pow 2 52

/-- The number with the given sign and the given bits of its magnitude. -/
def ofParts (negative : Bool) (bits : Nat) : Float :=
  Float.ofBits (UInt64.ofNat (bits + if negative then Nat.pow 2 63 else 0))

/-- The number nearest to `n / d` under the given sign, infinity when it is too large. -/
def ofRatio (negative : Bool) (n d : Nat) : Float :=
  ofParts negative (min (nearestBits n d) infiniteBits)

/-- The number nearest to an integer, unless the integer is too large to be a number. -/
def ofInt? (n : Int) : Option Float :=
  let bits := nearestBits n.natAbs 1
  if bits < infiniteBits then some (ofParts (n < 0) bits) else none

/-- The integer that a finite number stands for, when it is integral. -/
def toInt? (x : Float) : Option Int :=
  if x.isFinite then
    let m := magnitude x
    let shift := (-m.exponent).toNat
    if m.mantissa % Nat.pow 2 shift = 0 then
      let n : Int := (m.mantissa * Nat.pow 2 m.exponent.toNat / Nat.pow 2 shift : Nat)
      some (if isNegative x then -n else n)
    else none
  else none

/-- The integer part of a finite number, cut towards zero. -/
def truncate (x : Float) : Int :=
  let m := magnitude x
  let n : Int := (m.mantissa * Nat.pow 2 m.exponent.toNat / Nat.pow 2 (-m.exponent).toNat : Nat)
  if isNegative x then -n else n

end DynScript.Number
