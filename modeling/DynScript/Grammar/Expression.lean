import DynScript.Grammar.Parse

/-!
# The grammar of expressions

From the loosest to the tightest:

* a condition `a ? b : c`,
* an assignment,
* the nine levels of operators on two operands, each of which groups to the left (`levels`),
* the operators in front of an operand,
* calls, indices and fields behind an operand,
* arrays, records, functions, constants, names and parentheses.
-/

namespace DynScript

namespace Grammar

open Parse

/-! ### Blocks and parameters, which functions share with statements -/

variable (g : Grammar)

/-- Reads declarations up to a closing brace or the end of the input. -/
def declarations : Nat → Parse (List Stmt)
  | 0 => stop .exhausted
  | fuel + 1 => do
    if (← check .rightBrace) || (← atEnd) then return []
    else
      let first ← g.declaration
      return first.toList ++ (← declarations fuel)

/-- Reads a block behind its brace. -/
def block (brace : Token) : Parse Block :=
  inScope .block do
    announceLabels
    let statements ← g.declarations (← rounds)
    let _ ← expect .rightBrace "Expect '\x7d' after block."
    return .mk statements (← currentSlots) brace.location

/-- Reads parameters after the opening parenthesis. -/
def parameters : Parse (List Slot) :=
  enclosed (do declare (← expect .identifier "Expect parameter name.")) .rightParen
    "Expect ')' after parameters."

/-! ### Operands -/

/-- Reads an array behind its bracket. -/
def arrayLiteral (bracket : Token) : Parse Expr := do
  let items ← enclosed (Expr.boxed <$> g.expression) .rightBracket
    "Expect ']' after tuple definition."
  return .array items bracket.location

/-- Reads the name of a field of a record, which may be quoted. -/
def fieldName : Parse String := do
  match ← accept? .identifier with
  | some t => return t.lexeme
  | none => match ← accept? .string with
    | some t => return match t.literal with
      | some (.text s) => s
      | _ => t.lexeme
    | none => fail .unnamedField (← advance)

/-- Reads a field of a record. -/
def recordField : Parse (String × Expr) := do
  let name ← fieldName
  let _ ← expect .colon "Expect ':' after field name."
  return (name, (← g.expression).boxed)

/-- Reads a record after its opening brace; its fields see the record as `this`. -/
def recordLiteral (brace : Token) : Parse Expr := do
  let (self, fields) ← inScope .record do
    let self ← declareOwn "this" brace
    return (self, ← listed g.recordField .rightBrace)
  let _ ← expect .rightBrace "Expect '\x7d' after container definition."
  return .record fields self brace.location

/-- Reads the body of a lambda, whose calls end at `exit`. -/
def lambdaBody (exit : Label) : Parse Block := do
  match ← accept? .fatArrow with
  | some arrow =>
    let value ← g.expression
    return .mk [.jump exit value.boxed arrow.location] [] arrow.location
  | none => g.block (← expect .leftBrace "Expect '\x7b' before function body.")

/-- Reads the name by which a function without a name knows itself: `_` when it is written with
that, and otherwise `self`. -/
def lambdaName : Parse String := do
  match ← accept? .identifier with
  | some t => if t.lexeme = "_" then return "_" else fail .namedLambda t
  | none => return "self"

/-- Reads a function without a name after its keyword. -/
def lambda (keyword : Token) : Parse Expr := do
  let name ← lambdaName
  inScope .function do
    let self ← declareOwn name keyword
    let exit ← reserve .returnCall
    let _ ← expect .leftParen "Expect '(' after function name."
    let params ← parameters
    let body ← g.lambdaBody exit
    return .function name params body exit self keyword.location

/-- Resolves the name of a variable. -/
def variableRead (t : Token) : Parse Expr := do
  let scopes ← scopes
  match scopes.lookup t.lexeme with
  | some slot => return .read slot t.location
  | none => fail (.undeclared t.lexeme (scopes.similar t.lexeme ScopeTable.suggestionLimit)) t

/-- Reads a constant, a name or an expression in parentheses. -/
def primary : Parse Expr := do
  let t ← peek
  match t.kind with
  | .kwFalse => let _ ← advance; return .literal (.bool false) t.location
  | .kwTrue => let _ ← advance; return .literal (.bool true) t.location
  | .kwNull => let _ ← advance; return .literal .null t.location
  | .number | .string => let _ ← advance; return .literal (t.literal.getD .null) t.location
  | .identifier => let _ ← advance; variableRead t
  | .leftParen =>
    let _ ← advance
    let e ← g.expression
    let _ ← expect .rightParen "Expect ')' after expression."
    return e
  | .kwThis =>
    let _ ← advance
    match (← scopes).lookup "this" with
    | some slot => return .read slot t.location
    | none => fail .strayThis t
  | _ => fail .missingExpression t

/-- Reads an operand without anything before or behind it. -/
def operand : Parse Expr := do
  match ← accept? .leftBracket with
  | some bracket => g.arrayLiteral bracket
  | none => match ← accept? .leftBrace with
    | some brace => g.recordLiteral brace
    | none => match ← accept? .kwFun with
      | some keyword => g.lambda keyword
      | none => g.primary

/-! ### Behind an operand -/

/-- Reads arguments after the opening parenthesis. -/
def arguments : Parse (List Expr) :=
  enclosed (Expr.boxed <$> g.expression) .rightParen "Expect ')' after arguments."

/-- Reads the call of a native function after its sign. -/
def nativeCall : Parse Expr := do
  let name ← expect .identifier "Expect static method name."
  let natives := (← context).natives
  match natives.lookup name.lexeme with
  | none => fail (.unknownNative (natives.similar name.lexeme)) name
  | some f =>
    let _ ← expect .leftParen "Expect '(' after static method name."
    return .native name.lexeme f (← g.arguments) name.location

/-- Objects to an empty index. -/
def checkIndex : Parse Unit := do
  if ← check .rightBracket then fail .missingIndex (← advance) else return ()

/-- Objects to an index of a constant. -/
def checkItems (container : Expr) (bracket : Token) : Parse Unit :=
  match container with
  | .literal (.text _) _ => return ()
  | .literal .. => fail .notIndexable bracket
  | _ => return ()

/-- Reads an index after its opening bracket; `a[i, j]` stands for `a[i][j]`. -/
def indexed (container : Expr) (bracket : Token) : Parse Expr := do
  checkIndex
  checkItems container bracket
  let indices ← commaSeparated g.expression (← rounds)
  let _ ← expect .rightBracket "Expect ']' for array index."
  return indices.foldl (fun c i => .index c i bracket.location) container

/-- Objects to a field of a constant. -/
def checkFields (container : Expr) (dot : Token) : Parse Unit :=
  match container with
  | .literal value _ => fail (.noFields value.listing) dot
  | _ => return ()

/-- Reads the name of a field, or an operand that gives it. -/
def fieldKey : Parse Expr := do
  match ← accept? .identifier with
  | some name => return .literal (.text name.lexeme) name.location
  | none => if ← accept .atSign then g.operand else fail .missingFieldName (← peek)

/-- Reads a field behind its dot. -/
def fieldOf (container : Expr) (dot : Token) : Parse Expr := do
  checkFields container dot
  return .field container (← g.fieldKey) dot.location

/-- Reads the calls, indices and fields behind an operand. -/
def suffixes : Nat → Expr → Parse Expr
  | 0, _ => stop .exhausted
  | fuel + 1, e => do
    match ← accept? .leftParen with
    | some paren => suffixes fuel (.call e (← g.arguments) paren.location)
    | none => match ← accept? .leftBracket with
      | some bracket => suffixes fuel (← g.indexed e bracket)
      | none => match ← accept? .dot with
        | some dot => suffixes fuel (← g.fieldOf e dot)
        | none => return e

/-- Reads an operand or the call of a native function. -/
def base : Parse Expr := do
  if ← accept .dollar then g.nativeCall else g.operand

/-- Reads an operand with what stands behind it. -/
def suffixed : Parse Expr := do
  let e ← g.base
  g.suffixes (← rounds) e

/-! ### Assignments -/

/-- Builds the assignment of `update` to `target` for an operator token. -/
def assignment (target : Expr) (update : Update) (operator : Token) (what : String) : Parse Expr :=
  match target with
  | .read slot _ =>
    if slot.constant then fail (.constantTarget slot.name) operator
    else return .assignVariable slot update operator.location
  | .index container index _ => return .assignIndex container index update operator.location
  | .field container key _ => return .assignField container key update operator.location
  | _ => fail (.invalidTarget what) operator

/-- What an assignment operator does with the value behind it. -/
def updateOf? : TokenKind → Option (Expr → Update)
  | .assign => some .set
  | .plusAssign => some (.combine .add)
  | .minusAssign => some (.combine .sub)
  | .starAssign => some (.combine .mul)
  | .slashAssign => some (.combine .div)
  | .percentAssign => some (.combine .mod)
  | _ => none

/-! ### In front of and between operands -/

/-- The operator before an operand. -/
def unaryOf? : TokenKind → Option UnaryOp
  | .bang => some .not
  | .minus => some .negate
  | .bitNot => some .bitNot
  | _ => none

/-- The steps in front of an operand, with the word for what they do to it. -/
def stepOf? : TokenKind → Option (UnaryOp × String)
  | .increment => some (.increment, "increment")
  | .decrement => some (.decrement, "decrement")
  | _ => none

/-- Reads an operand with the operators in front of it. -/
def prefixed : Parse Expr := do
  let t ← peek
  match unaryOf? t.kind with
  | some op =>
    let operator ← advance
    return .unary op (← g.unary) operator.location
  | none => match stepOf? t.kind with
    | some (op, what) =>
      let operator ← advance
      assignment (← g.unary) (.step op) operator what
    | none => g.suffixed

/-- An operator on two operands. -/
inductive Connective where
  | binary (op : BinaryOp)
  | logical (op : LogicalOp)

/-- The expression that a connective makes of its operands. -/
def Connective.join : Connective → Expr → Expr → Location → Expr
  | .binary op, left, right, place => .binary op left right place
  | .logical op, left, right, place => .logical op left right place

/-- The operators of one level of precedence, by their tokens. -/
abbrev Level := List (TokenKind × Connective)

/-- The levels of precedence, the loosest first. -/
def levels : List Level :=
  [[(.xor, .logical .xor)],
   [(.or, .logical .or)],
   [(.and, .logical .and)],
   [(.equal, .binary .equal), (.notEqual, .binary .notEqual)],
   [(.greater, .binary .greater), (.greaterEqual, .binary .greaterEqual),
    (.less, .binary .less), (.lessEqual, .binary .lessEqual)],
   [(.bitAnd, .binary .bitAnd), (.bitOr, .binary .bitOr), (.bitXor, .binary .bitXor)],
   [(.leftShift, .binary .shiftLeft), (.rightShift, .binary .shiftRight)],
   [(.plus, .binary .add), (.minus, .binary .sub)],
   [(.star, .binary .mul), (.slash, .binary .div), (.percent, .binary .mod)]]

/-- Reads further operands as long as an operator of the level stands before them, grouping to the
left. -/
def chain (level : Level) (operand : Parse Expr) : Nat → Expr → Parse Expr
  | 0, _ => stop .exhausted
  | fuel + 1, left => do
    match level.lookup (← peek).kind with
    | none => return left
    | some op =>
      let operator ← advance
      let right ← operand
      chain level operand fuel (op.join left right operator.location)

/-- Reads the operators of the levels. -/
def leveled : List Level → Parse Expr
  | [] => g.prefixed
  | level :: tighter => do
    let first ← leveled tighter
    chain level (leveled tighter) (← rounds) first

/-- Reads an assignment, or an expression of the operator levels. -/
def assigned : Parse Expr := do
  let target ← g.leveled levels
  match updateOf? (← peek).kind with
  | none => return target
  | some update =>
    let operator ← advance
    let value ← g.expression
    assignment target (update value.boxed) operator "assignment"

/-- Reads a condition. -/
def conditional : Parse Expr := do
  let e ← g.assigned
  match ← accept? .question with
  | none => return e
  | some question =>
    let first ← g.expression
    let _ ← expect .colon "Expect ':' in condition expression."
    let second ← g.expression
    return .ternary e first.boxed second.boxed question.location

end Grammar

end DynScript
