/-!
# Operators
-/

namespace DynScript

/-- Operators on two operands. -/
inductive BinaryOp where
  | add | sub | mul | div | mod
  | bitAnd | bitOr | bitXor | shiftLeft | shiftRight
  | less | lessEqual | greater | greaterEqual
  | equal | notEqual
  deriving DecidableEq, Repr, Inhabited

namespace BinaryOp

/-- The symbol of an operator. -/
def symbol : BinaryOp → String
  | add => "+" | sub => "-" | mul => "*" | div => "/" | mod => "%"
  | bitAnd => "&" | bitOr => "|" | bitXor => "^" | shiftLeft => "<<" | shiftRight => ">>"
  | less => "<" | lessEqual => "<=" | greater => ">" | greaterEqual => ">="
  | equal => "==" | notEqual => "!="

/-- The operator with a symbol. -/
def ofSymbol? (s : String) : Option BinaryOp :=
  [add, sub, mul, div, mod, bitAnd, bitOr, bitXor, shiftLeft, shiftRight, less, lessEqual, greater,
   greaterEqual, equal, notEqual].find? (·.symbol = s)

end BinaryOp

/-- Operators on truth values; the first two evaluate their right side only when it matters. -/
inductive LogicalOp where
  | and | or | xor
  deriving DecidableEq, Repr, Inhabited

/-- The symbol of a logical operator. -/
def LogicalOp.symbol : LogicalOp → String
  | .and => "&&"
  | .or => "||"
  | .xor => "^^"

/-- Operators on one value.  The two steps only compute the next value; storing it is up to the
assignment that they are part of. -/
inductive UnaryOp where
  | negate | not | bitNot
  | increment | decrement
  deriving DecidableEq, Repr, Inhabited

namespace UnaryOp

/-- The symbol of an operator. -/
def symbol : UnaryOp → String
  | negate => "-" | not => "!" | bitNot => "~"
  | increment => "++" | decrement => "--"

/-- The operator with a symbol. -/
def ofSymbol? (s : String) : Option UnaryOp :=
  [negate, not, bitNot, increment, decrement].find? (·.symbol = s)

end UnaryOp

end DynScript
