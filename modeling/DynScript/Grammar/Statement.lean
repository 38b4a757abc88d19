import DynScript.Grammar.Expression

/-!
# The grammar of statements and declarations

A declaration recovers from its own errors, so one mistake does not hide the next.  The rules of the
whole grammar are tied together in `Grammar.unrolled`: each round of nesting reads a token, so as
many rounds as there are tokens are enough.
-/

namespace DynScript

namespace Grammar

open Parse

variable (g : Grammar)

/-! ### Declarations -/

/-- Reads the initial value of a variable, which is null if none is given. -/
def initialValue (name : Token) : Parse Expr := do
  if ← accept .assign then g.conditional else return .literal .null name.location

/-- Reads a variable declaration after its keyword. -/
def varDeclaration : Parse Stmt := do
  let name ← expect .identifier "Expect variable name."
  let slot ← declare name
  let initial ← g.initialValue name
  let _ ← expect .semicolon "Expect ';' after variable declaration."
  return .declare slot initial.boxed name.location

/-- Reads the declaration of a constant after its keyword.  Its name is not known in its own
initial value, and scalars are kept raw. -/
def letDeclaration : Parse Stmt := do
  let name ← expect .identifier "Expect constant value name."
  let _ ← expect .assign "Constant value must have initialize expression."
  let initial ← g.conditional
  let slot ← declare name true
  let _ ← expect .semicolon "Expect ';' after variable declaration."
  return .declare slot (if initial.isDynamic then .unbox initial else initial) name.location

/-- Reads the declaration of a function after its keyword.  Its name is known in its body. -/
def functionDeclaration : Parse Stmt := do
  let name ← expect .identifier "Expect function name."
  let slot ← declare name
  let function ← inScope .function do
    let exit ← reserve .returnCall
    let _ ← expect .leftParen "Expect '(' after function name."
    let params ← parameters
    let brace ← expect .leftBrace "Expect '\x7b' before function body."
    let body ← g.block brace
    return Expr.function name.lexeme params body exit none name.location
  return .declare slot function name.location

/-- Reads the declaration of a label after its keyword. -/
def labelDeclaration : Parse Stmt := do
  let name ← expect .identifier "Expect label name."
  let _ ← expect .semicolon "Expect ';' after label declaration."
  return .label (← placeLabel name) name.location

/-! ### Statements -/

/-- Reads an expression and the semicolon after it. -/
def expressionStatement : Parse Stmt := do
  let e ← g.conditional
  let _ ← expect .semicolon "Expect ';' after expression."
  return .expression e e.place

/-- Reads what follows `else`. -/
def elseBranch : Parse (Option Stmt) := do
  if ← accept .kwElse then some <$> g.statement else return none

/-- Reads a conditional statement after its keyword; `else` belongs to the nearest `if`. -/
def ifStatement (keyword : Token) : Parse Stmt := do
  let _ ← expect .leftParen "Expect '(' after 'if'."
  let condition ← g.conditional
  let _ ← expect .rightParen "Expect ')' after if condition."
  let first ← g.statement
  let second ← g.elseBranch
  return .branch condition first second keyword.location

/-- Reads the cases of a switch after the first keyword. -/
def cases : Nat → Parse (List (Expr × Stmt))
  | 0 => stop .exhausted
  | fuel + 1 => do
    let test ← g.conditional
    let _ ← expect .colon "Expect ':' after the expression of a case."
    let body ← g.statement
    if ← accept .kwCase then return (test, body) :: (← cases fuel) else return [(test, body)]

/-- Reads the default case of a switch, if there is one. -/
def defaultCase : Parse (Option Stmt) := do
  if ← accept .kwDefault then
    let _ ← expect .colon "Expect ':' after the default expression."
    some <$> g.statement
  else return none

/-- The chain of comparisons of a switch on the value of `subject`. -/
def switchChain (subject : Slot) : List (Expr × Stmt) → Option Stmt → Option Stmt
  | [], otherwise => otherwise
  | (test, body) :: rest, otherwise =>
    some (.branch (.binary .equal (.read subject test.place) test test.place) body
      (switchChain subject rest otherwise) test.place)

/-- Reads a switch after its keyword.  Its subject is evaluated once, into a hidden variable, and
compared with the cases in turn. -/
def switchStatement (keyword : Token) : Parse Stmt := do
  let _ ← expect .leftParen "Expect '(' after switch."
  let subject ← g.conditional
  let _ ← expect .rightParen "Expect ')' after switch test value."
  let _ ← expect .leftBrace "Expect '\x7b' before any 'case' expression."
  let _ ← expect .kwCase "Switch statement should have at least one case."
  let slot ← hiddenSlot "switch" keyword.location
  let cases ← g.cases (← rounds)
  let otherwise ← g.defaultCase
  let _ ← expect .rightBrace "Expect '\x7d' after switch-case statement."
  let first : Stmt := .declare slot subject.boxed keyword.location
  return .block (.mk (first :: (switchChain slot cases otherwise).toList) [slot] keyword.location)

/-- Reads the first part of a `for`, up to its semicolon. -/
def forInitial : Parse (Option Stmt) := do
  if ← accept .semicolon then return none
  else if ← accept .kwVar then return some (← g.varDeclaration)
  else return some (← g.expressionStatement)

/-- Reads the condition of a `for`, which is true if none is given. -/
def forCondition (keyword : Token) : Parse Expr := do
  if ← check .semicolon then return .literal (.bool true) keyword.location else g.conditional

/-- Reads the step of a loop. -/
def forStep : Parse (Option Expr) := do
  if ← check .rightParen then return none else some <$> g.conditional

/-- A loop behind its first part, whose variables `slots` are made anew with it. -/
def withInitial (initial : Option Stmt) (loop : Stmt) (slots : List Slot) (place : Location) :
    Stmt :=
  match initial with
  | none => loop
  | some first => .block (.mk [first, loop] slots place)

/-- Reads a `for` loop. -/
def forStatement (keyword : Token) : Parse Stmt :=
  inScope .loop do
    let exit ← reserve .breakLoop
    let next ← reserve .continueLoop
    let _ ← expect .leftParen "Expect '(' after 'for'."
    let initial ← g.forInitial
    let condition ← g.forCondition keyword
    let _ ← expect .semicolon "Expect ';' after loop condition."
    let step ← g.forStep
    let _ ← expect .rightParen "Expect ')' after for clauses."
    let body ← g.statement
    return withInitial initial (.loop condition body step exit next keyword.location)
      (← currentSlots) keyword.location

/-- Reads a `while` loop. -/
def whileStatement (keyword : Token) : Parse Stmt :=
  inScope .loop do
    let exit ← reserve .breakLoop
    let next ← reserve .continueLoop
    let _ ← expect .leftParen "Expect '(' after 'while'."
    let condition ← g.conditional
    let _ ← expect .rightParen "Expect ')' after condition."
    let body ← g.statement
    return .loop condition body none exit next keyword.location

/-- Reads a jump to the end or the step of the enclosing loop after its keyword. -/
def loopJump (kind : LabelKind) (missing : ParseFault) (message : String) (keyword : Token) :
    Parse Stmt := do
  match (← scopes).lookupLabel kind.word with
  | none => fail missing keyword
  | some entry =>
    let _ ← expect .semicolon message
    return .jump entry.label none keyword.location

/-- Reads a `goto`. -/
def gotoStatement : Parse Stmt := do
  let name ← expect .identifier "Expect goto label."
  match (← scopes).lookupLabel name.lexeme with
  | some entry =>
    if entry.label.kind = .user then
      let _ ← expect .semicolon "Expect ';' after goto statement."
      return .jump entry.label none name.location
    else fail (.undefinedLabel name.lexeme) name
  | none => fail (.undefinedLabel name.lexeme) name

/-- Reads the value of a `return`, which is null if none is given. -/
def returnValue (keyword : Token) : Parse Expr := do
  if ← check .semicolon then return .literal .null keyword.location else g.conditional

/-- Reads a `return`. -/
def returnStatement (keyword : Token) : Parse Stmt := do
  let value ← g.returnValue keyword
  match (← scopes).lookupLabel LabelKind.returnCall.word with
  | none => fail .nothingToReturnFrom keyword
  | some entry =>
    let _ ← expect .semicolon "Expect ';' after return value."
    return .jump entry.label value.boxed keyword.location

/-- Reads a `print`. -/
def printStatement (keyword : Token) : Parse Stmt := do
  let value ← g.conditional
  let _ ← expect .semicolon "Expect ';' after value."
  return .print value keyword.location

/-- Reads a statement. -/
def statementRule : Parse Stmt := do
  let t ← peek
  match t.kind with
  | .leftBrace => let _ ← advance; return .block (← g.block t)
  | .kwIf => let _ ← advance; g.ifStatement t
  | .kwSwitch => let _ ← advance; g.switchStatement t
  | .kwFor => let _ ← advance; g.forStatement t
  | .kwWhile => let _ ← advance; g.whileStatement t
  | .kwBreak =>
    let _ ← advance
    loopJump .breakLoop .nothingToBreak "Expect ';' after break statement." t
  | .kwContinue =>
    let _ ← advance
    loopJump .continueLoop .nothingToContinue "Expect ';' after continue statement." t
  | .kwGoto => let _ ← advance; gotoStatement
  | .kwReturn => let _ ← advance; g.returnStatement t
  | .kwPrint => let _ ← advance; g.printStatement t
  | _ => g.expressionStatement

/-- Reads a declaration or statement, without recovering from its errors. -/
def attempt : Parse (Option Stmt) := do
  let t ← peek
  match t.kind with
  | .kwVar => let _ ← advance; some <$> g.varDeclaration
  | .kwLet => let _ ← advance; some <$> g.letDeclaration
  | .kwFun => let _ ← advance; some <$> g.functionDeclaration
  | .kwLabel => let _ ← advance; some <$> labelDeclaration
  | .kwClass => let _ ← advance; fail .classDeclaration t
  | _ => some <$> g.statementRule

/-- Reads a declaration or statement and recovers. -/
def declarationRule : Parse (Option Stmt) :=
  recovering g.attempt

/-! ### The whole grammar -/

/-- The grammar for code nested at most `depth` deep. -/
def unrolled : Nat → Grammar
  | 0 => ⟨stop .exhausted, stop .exhausted, stop .exhausted, stop .exhausted⟩
  | depth + 1 =>
    let g := unrolled depth
    ⟨g.prefixed, g.conditional, g.statementRule, g.declarationRule⟩

/-- Reads declarations up to the end of the input. -/
def unit : Nat → Parse (List Stmt)
  | 0 => stop .exhausted
  | fuel + 1 => do
    if ← atEnd then return []
    else
      let first ← g.declaration
      return first.toList ++ (← unit fuel)

end Grammar

end DynScript
