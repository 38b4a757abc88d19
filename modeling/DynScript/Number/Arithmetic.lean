import DynScript.Number.Dyadic

/-!
# Division, remainder and bits

Division and remainder never fail: dividing by zero gives an infinity whose sign is the product of
both signs, or no number at all.  The bit operations treat an integer as an infinite row of bits in
two's complement.
-/

namespace DynScript.Number

/-- What is not a number. -/
def notANumber : Float := 0.0 / 0.0

/-- Division. -/
def divide (x y : Float) : Float :=
  if y == 0.0 then
    if x == 0.0 || x.isNaN then notANumber
    else ofParts (isNegative x != isNegative y) infiniteBits
  else x / y

/-- The remainder of `x / y` when the quotient is cut towards zero; it is exact and takes the sign
of `x`. -/
def remainder (x y : Float) : Float :=
  if y == 0.0 || x.isInf || x.isNaN || y.isNaN then notANumber
  else if y.isInf then x
  else
    let a := magnitude x
    let b := magnitude y
    let e := min a.exponent b.exponent
    let m := a.mantissa * Nat.pow 2 (a.exponent - e).toNat
    let n := b.mantissa * Nat.pow 2 (b.exponent - e).toNat
    let r := m % n
    ofRatio (isNegative x) (r * Nat.pow 2 e.toNat) (Nat.pow 2 (-e).toNat)

/-! ### Bits of integers -/

/-- Bitwise and. -/
def bitAnd : Int → Int → Int
  | .ofNat m, .ofNat n => (m &&& n : Nat)
  | .ofNat m, .negSucc n => (m ^^^ (m &&& n) : Nat)
  | .negSucc m, .ofNat n => (n ^^^ (n &&& m) : Nat)
  | .negSucc m, .negSucc n => .negSucc (m ||| n)

/-- Bitwise or. -/
def bitOr : Int → Int → Int
  | .ofNat m, .ofNat n => (m ||| n : Nat)
  | .ofNat m, .negSucc n => .negSucc (n ^^^ (n &&& m))
  | .negSucc m, .ofNat n => .negSucc (m ^^^ (m &&& n))
  | .negSucc m, .negSucc n => .negSucc (m &&& n)

/-- Bitwise exclusive or. -/
def bitXor : Int → Int → Int
  | .ofNat m, .ofNat n => (m ^^^ n : Nat)
  | .ofNat m, .negSucc n => .negSucc (m ^^^ n)
  | .negSucc m, .ofNat n => .negSucc (m ^^^ n)
  | .negSucc m, .negSucc n => (m ^^^ n : Nat)

/-- Bitwise complement. -/
def bitNot (n : Int) : Int :=
  -n - 1

/-- Shifts to the left, which multiplies by a power of two. -/
def shiftLeft (n : Int) (count : Nat) : Int :=
  if n = 0 then 0 else n * Nat.pow 2 count

/-- Shifts to the right, which divides by a power of two towards negative infinity. -/
def shiftRight (n : Int) (count : Nat) : Int :=
  match n with
  | .ofNat m => (m >>> count : Nat)
  | .negSucc m => .negSucc (m >>> count)

end DynScript.Number
