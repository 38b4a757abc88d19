import DynScript.Scope
import DynScript.Token

/-!
# Parse errors

What the grammar and the resolution of names can object to, each objection with its code, wording,
help line and suggestions.
-/

namespace DynScript

/-- What was expected instead. -/
inductive Expectation where
  | token (kind : TokenKind)
  | phrase (text : String)

namespace Expectation

/-- How an expectation is named. -/
def name : Expectation → String
  | token kind => kind.name
  | phrase text => text

/-- Suggestions for what was expected. -/
def remedies : Expectation → List String
  | token .semicolon => ["Add a semicolon ';' to end the statement"]
  | token .rightParen => ["Add a closing parenthesis ')'"]
  | token .rightBracket => ["Add a closing bracket ']'"]
  | token .rightBrace => ["Add a closing brace '\x7d'"]
  | token .leftBrace => ["Add an opening brace '\x7b' to start a block"]
  | token .colon => ["Add a colon ':'"]
  | token .assign => ["Add an initializer '= value'"]
  | _ => []

end Expectation

/-- What can be wrong with a unit. -/
inductive ParseFault where
  | expected (what : Expectation) (message : String)
  | missingFieldName
  | missingExpression
  | missingIndex
  | invalidTarget (what : String)
  | constantTarget (name : String)
  | undeclared (name : String) (similar : List String)
  | strayThis
  | notIndexable
  | noFields (shown : String)
  | nothingToBreak
  | nothingToContinue
  | nothingToReturnFrom
  | undefinedLabel (name : String)
  | unknownNative (similar : List String)
  | classDeclaration
  | unnamedField
  | namedLambda
  | redeclared (cause : ScopeError)
  | canceled
  | failedUnit (count : Nat)
  | other (message : String)

namespace ParseFault

/-- The wording of a fault. -/
def message : ParseFault → String
  | expected what message => if message.isEmpty then s!"Expect {what.name}." else message
  | missingFieldName => "Expect field name."
  | missingExpression => "Expect expression."
  | missingIndex => "Too less argument for array index."
  | invalidTarget what => s!"Invalid {what} target."
  | constantTarget name => s!"Cannot assign to constant '{name}'."
  | undeclared name _ => s!"Cannot use variable {name} before Declaration"
  | strayThis => "Unexpected keyword 'this'."
  | notIndexable => "Not an accessable array."
  | noFields shown => s!"Type of [{shown}] doesn't have any field."
  | nothingToBreak => "No loops to break."
  | nothingToContinue => "No loops to continue."
  | nothingToReturnFrom => "Cannot find RETURN label."
  | undefinedLabel name => s!"Undefined label '{name}'."
  | unknownNative _ => "Invalid static method."
  | classDeclaration => "Class declarations are not supported."
  | unnamedField => "Field name must be declared."
  | namedLambda =>
    "Lambda function should not be named, or should be named as anonymous '_'; " ++
    "To recur, use 'self()' for nameless, or '_()' for anonymous."
  | redeclared cause => cause.diagnostic.message
  | canceled => "Parsing canceled due to strict mode."
  | failedUnit count => s!"Compilation failed with {count} error(s)."
  | other message => message

/-- The code of a fault. -/
def code : ParseFault → Option String
  | expected .. | missingFieldName => "P001"
  | missingExpression | missingIndex => "P002"
  | invalidTarget _ | constantTarget _ => "P003"
  | undeclared .. | strayThis => "P004"
  | notIndexable | noFields _ | nothingToBreak | nothingToContinue | nothingToReturnFrom => "P005"
  | undefinedLabel _ => "P006"
  | unknownNative _ => "P007"
  | classDeclaration | unnamedField | namedLambda => "P008"
  | redeclared cause => cause.diagnostic.code
  | canceled => "P009"
  | failedUnit _ | other _ => none

/-- The help line of a fault. -/
def help : ParseFault → Option String
  | invalidTarget _ => "Only variables, index expressions and fields can be assigned."
  | constantTarget _ => "Declare it with 'var' to make it assignable."
  | undefinedLabel _ => "A goto can only reach labels of its own block or an enclosing one."
  | classDeclaration => "Use a record literal with function fields instead."
  | redeclared cause => cause.diagnostic.help
  | _ => none

/-- The suggestions that come with an objection. -/
def suggestions : ParseFault → List String
  | expected what _ => what.remedies
  | undeclared _ similar => similar.map fun n => s!"Did you mean '{n}'?"
  | unknownNative similar => similar.map fun n => s!"Did you mean '${n}'?"
  | _ => []

end ParseFault

/-- An objection and the token it is about; a place of its own, when given, wins over the token's. -/
structure ParseError where
  fault : ParseFault
  token : Option Token := none
  place : Option Location := none

namespace ParseError

/-- The wording of an error. -/
def message (e : ParseError) : String := e.fault.message

/-- The place of an error. -/
def location (e : ParseError) : Option Location :=
  e.place <|> e.token.map (·.location)

/-- The diagnostic of an error. -/
def diagnostic (e : ParseError) : Diagnostic :=
  { message := e.message
    location := e.location
    code := e.fault.code
    help := e.fault.help
    suggestions := e.fault.suggestions }

/-- The line reported for an error. -/
def report (e : ParseError) : String :=
  match e.token with
  | none => s!"[ ParserError ] : {e.message}"
  | some t =>
    let place := if t.kind = .endOfInput then "end" else t.lexeme
    s!"[ ParserError ] at line [{t.location.line}] in [{place}] : {e.message}"

/-- The note that follows the report of an error at `++` or `--`, which are only written in front of
what they step. -/
def stepNote (e : ParseError) : Option String :=
  match e.token with
  | some t =>
    if t.kind = .increment || t.kind = .decrement then
      some (s!"[ Note ] NyaScript doesn't support expressions like ' i{t.lexeme} ', " ++
        s!"do you mean ' {t.lexeme}i '?")
    else none
  | none => none

end ParseError

end DynScript
