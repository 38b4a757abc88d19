import DynScript.Number.Shortest

/-!
# The text of numbers

Two forms are written from the shortest digits of a number.  A *literal* always shows that it is not an
integer: it has a fraction or an exponent.
-/

namespace DynScript.Number

/-- How the digits of a literal are laid out: in full while the power of ten of the first digit is
at least `least` and below `bound`, otherwise with an exponent of at least `width` digits. -/
structure Layout where
  least : Int
  bound : Int
  width : Nat

/-- Literals are written in full from one ten-thousandth up to ten to the sixteenth; exponents have
two digits at least. -/
def layout : Layout := ⟨-4, 16, 2⟩

/-- Digits in full, where the first `whole` of them (zeros are added, or put in front when `whole`
is not positive) stand before the point. -/
def inFull (digits : List Char) (whole : Int) : List Char :=
  if whole ≤ 0 then
    '0' :: '.' :: List.replicate (-whole).toNat '0' ++ digits
  else
    let front := digits.take whole.toNat
    let back := digits.drop whole.toNat
    front ++ List.replicate (whole.toNat - front.length) '0' ++
      '.' :: if back.isEmpty then ['0'] else back

/-- Digits with an exponent `power`, the power of ten of the first digit. -/
def withExponent (width : Nat) (digits : List Char) (power : Int) : List Char :=
  let exponent := Nat.toDigits 10 power.natAbs
  digits.take 1 ++ (if digits.length ≤ 1 then [] else '.' :: digits.drop 1) ++
    'e' :: (if power < 0 then '-' else '+') ::
    (List.replicate (width - exponent.length) '0' ++ exponent)

/-- A decimal as a literal. -/
def Decimal.literal (d : Decimal) : List Char :=
  let digits := Nat.toDigits 10 d.digits
  let power := d.exponent + digits.length - 1
  if layout.least ≤ power && power < layout.bound then inFull digits (power + 1)
  else withExponent layout.width digits power

/-- A number as a literal. -/
def literal (x : Float) : String :=
  if x.isNaN then "nan"
  else
    let body :=
      if x.isInf then ['i', 'n', 'f']
      else if x == 0.0 then ['0', '.', '0']
      else (shortest x).literal
    String.ofList (if isNegative x then '-' :: body else body)

/-- The text of an integer. -/
def integerText (n : Int) : String :=
  String.ofList ((if n < 0 then ['-'] else []) ++ Nat.toDigits 10 n.natAbs)

/-- The plain form of a number, in which scripts see it. -/
def text (x : Float) : String :=
  if x.isNaN then "NaN"
  else if x.isInf then if isNegative x then "-Infinity" else "Infinity"
  else match toInt? x with
    | some n => if n.natAbs < Nat.pow 10 16 then integerText n else literal x
    | none => literal x

end DynScript.Number
