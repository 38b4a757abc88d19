import DynScript.Number.Shortest

/-!
# Reading numbers

A decimal reads as the number nearest to it, a tie going to the even mantissa, and as infinity when
it is too large.
-/

namespace DynScript.Number

/-- The natural that a list of decimal digits stands for. -/
def ofDigits (cs : List Char) : Nat :=
  cs.foldl (fun n c => 10 * n + (c.toNat - '0'.toNat)) 0

/-- Whether a character is a digit. -/
def isDigit (c : Char) : Bool :=
  '0' ≤ c && c ≤ '9'

/-- The number nearest to a decimal under the given sign.  A decimal of at most `size` digits whose
exponent is far outside the range of numbers is not expanded. -/
def ofDecimal (negative : Bool) (d : Decimal) (size : Nat) : Float :=
  if d.digits = 0 then ofParts negative 0
  else if 400 < d.exponent then ofParts negative infiniteBits
  else if d.exponent + size < -400 then ofParts negative 0
  else ofRatio negative d.ratio.1 d.ratio.2

/-- The number written by the digits `whole`, followed by a point and the digits `fraction` when
there are any. -/
def ofLiteral (whole fraction : List Char) : Float :=
  let digits := whole ++ fraction
  ofDecimal false ⟨ofDigits digits, -fraction.length⟩ digits.length

/-- Reads a sign. -/
def readSign : List Char → Bool × List Char
  | '-' :: cs => (true, cs)
  | '+' :: cs => (false, cs)
  | cs => (false, cs)

/-- Reads an exponent. -/
def readExponent? : List Char → Option Int
  | [] => some 0
  | c :: cs =>
    let (negative, digits) := readSign cs
    if (c = 'e' || c = 'E') && !digits.isEmpty && digits.all isDigit then
      some (if negative then -(ofDigits digits) else ofDigits digits)
    else none

/-- Reads `inf`, `nan`, or digits with an optional point, fraction and exponent, all with an
optional sign. -/
def ofText? (s : String) : Option Float :=
  let (negative, cs) := readSign s.toList
  if cs = ['n', 'a', 'n'] then some (0.0 / 0.0)
  else if cs = ['i', 'n', 'f'] then some (ofParts negative infiniteBits)
  else
    let whole := cs.takeWhile isDigit
    let rest := cs.dropWhile isDigit
    let (fraction, rest) := match rest with
      | '.' :: r => (r.takeWhile isDigit, r.dropWhile isDigit)
      | r => ([], r)
    let digits := whole ++ fraction
    if digits.isEmpty then none
    else (readExponent? rest).map fun e =>
      ofDecimal negative ⟨ofDigits digits, e - fraction.length⟩ digits.length

end DynScript.Number
