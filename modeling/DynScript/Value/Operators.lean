import DynScript.Number.Arithmetic
import DynScript.Value.Text

/-!
# Operators on values

Arithmetic and comparison are for numbers; texts can be compared, and a sum with a text on either
side is the text of both.  Operations on bits are for integral numbers.  Every operator has its
result boxed when one of its operands is.
-/

namespace DynScript

namespace Value

/-- The datum of a value; an integer of the host counts as the nearest number. -/
def datum? : Value → Option Datum
  | boxed d _ | raw d => some d
  | alien (.integer n) => some (.number (Number.ofRatio (n < 0) n.natAbs 1))
  | alien _ => none

/-- The number that a value is. -/
def number? (v : Value) : Option Float :=
  match v.datum? with
  | some (.number x) => some x
  | _ => none

/-- The text that a value is. -/
def string? (v : Value) : Option String :=
  match v.datum? with
  | some (.string s) => some s
  | _ => none

/-- Equality of values, which both must have a kind. -/
def equal (left right : Value) : Except Fault Bool := do
  let _ ← left.kind
  let _ ← right.kind
  match left.datum?, right.datum? with
  | some a, some b => return a.equal b
  | _, _ => return false

end Value

/-- The objection that an operator is not for operands of these kinds. -/
def operandFault {α : Type} (symbol : String) (operands : List Value) : Except Fault α := do
  throw (.operands symbol (← operands.mapM Value.kind))

/-- What a comparison does. -/
def BinaryOp.comparison? : BinaryOp → Option ((Float → Float → Bool) × (String → String → Bool))
  | .less => some (fun a b => a < b, fun a b => a < b)
  | .lessEqual => some (fun a b => a ≤ b, fun a b => a ≤ b)
  | .greater => some (fun a b => b < a, fun a b => b < a)
  | .greaterEqual => some (fun a b => b ≤ a, fun a b => b ≤ a)
  | _ => none

/-- What an operator does to numbers. -/
def BinaryOp.arithmetic? : BinaryOp → Option (Float → Float → Float)
  | .sub => some fun a b => a - b
  | .mul => some fun a b => a * b
  | .div => some Number.divide
  | .mod => some Number.remainder
  | _ => none

/-- Every nonzero integer shifted further to the left than this is too large to be a number. -/
def shiftBound : Int := 1100

/-- What an operator does to integers. -/
def BinaryOp.onIntegers (op : BinaryOp) (x y : Int) : Except Fault Int :=
  match op with
  | .bitAnd => .ok (Number.bitAnd x y)
  | .bitOr => .ok (Number.bitOr x y)
  | .bitXor => .ok (Number.bitXor x y)
  | .shiftLeft =>
    if y < 0 then .error (.negativeShift y)
    else if x ≠ 0 ∧ shiftBound < y then .error (.resultTooLarge op.symbol)
    else .ok (Number.shiftLeft x y.toNat)
  | .shiftRight =>
    if y < 0 then .error (.negativeShift y) else .ok (Number.shiftRight x y.toNat)
  | _ => .error (.unknownBinary op.symbol)

namespace Heap

/-- The integer that an operand of a bit operator is. -/
def integer (h : Heap) (symbol : String) (v : Value) : Except Fault Int :=
  match v.number?.bind Number.toInt? with
  | some n => .ok n
  | none => do throw (.notIntegral symbol (← h.text v))

/-- Adds numbers or joins texts. -/
def sum (h : Heap) (left right : Value) : Except Fault Datum :=
  if left.string?.isSome || right.string?.isSome then
    return .string ((← h.text left) ++ (← h.text right))
  else match left.number?, right.number? with
    | some a, some b => return .number (a + b)
    | _, _ => operandFault BinaryOp.add.symbol [left, right]

/-- Compares numbers or texts. -/
def compared (op : BinaryOp) (numbers : Float → Float → Bool) (texts : String → String → Bool)
    (left right : Value) : Except Fault Datum :=
  match left.number?, right.number?, left.string?, right.string? with
  | some a, some b, _, _ => return .bool (numbers a b)
  | _, _, some a, some b => return .bool (texts a b)
  | _, _, _, _ => operandFault op.symbol [left, right]

/-- Applies an operator to numbers. -/
def combined (op : BinaryOp) (f : Float → Float → Float) (left right : Value) :
    Except Fault Datum :=
  match left.number?, right.number? with
  | some a, some b => return .number (f a b)
  | _, _ => operandFault op.symbol [left, right]

/-- Applies an operator to integers. -/
def bitwise (h : Heap) (op : BinaryOp) (left right : Value) : Except Fault Datum :=
  if left.number?.isSome && right.number?.isSome then do
    let x ← h.integer op.symbol left
    let y ← h.integer op.symbol right
    match Number.ofInt? (← op.onIntegers x y) with
    | some z => return .number z
    | none => throw (.resultTooLarge op.symbol)
  else operandFault op.symbol [left, right]

/-- The datum that an operator makes of two values. -/
def binaryDatum (h : Heap) (op : BinaryOp) (left right : Value) : Except Fault Datum :=
  match op with
  | .equal => return .bool (← left.equal right)
  | .notEqual => return .bool !(← left.equal right)
  | .add => h.sum left right
  | op => match op.comparison?, op.arithmetic? with
    | some (numbers, texts), _ => compared op numbers texts left right
    | none, some f => combined op f left right
    | none, none => h.bitwise op left right

/-- Applies an operator to two operands. -/
def binary (h : Heap) (op : BinaryOp) (left right : Value) : Except Fault Value :=
  return .wrap (left.isBoxed || right.isBoxed) (← h.binaryDatum op left right)

/-- Applies an operator to a number. -/
def unaryNumber (h : Heap) (op : UnaryOp) (v : Value) (a : Float) : Except Fault Float :=
  match op with
  | .negate => return -a
  | .increment => return a + 1
  | .decrement => return a - 1
  | .bitNot => do
    let n ← h.integer op.symbol v
    return (Number.ofInt? (Number.bitNot n)).getD Number.notANumber
  | .not => throw (.unknownUnary op.symbol)

/-- Applies an operator to one operand. -/
def unary (h : Heap) (op : UnaryOp) (v : Value) : Except Fault Value :=
  match op with
  | .not => return .wrap v.isBoxed (.bool !v.isTrue)
  | op => match v.number? with
    | none => operandFault op.symbol [v]
    | some a => return .wrap v.isBoxed (.number (← h.unaryNumber op v a))

/-- Applies the operator with the given sign to two values. -/
def binaryBySymbol (h : Heap) (symbol : String) (left right : Value) : Except Fault Value :=
  match BinaryOp.ofSymbol? symbol with
  | some op => h.binary op left right
  | none => throw (.unknownBinary symbol)

/-- Applies the operator with the given sign to a value. -/
def unaryBySymbol (h : Heap) (symbol : String) (v : Value) : Except Fault Value :=
  match UnaryOp.ofSymbol? symbol with
  | some op => h.unary op v
  | none => if v.number?.isSome then throw (.unknownUnary symbol) else operandFault symbol [v]

end Heap

end DynScript
