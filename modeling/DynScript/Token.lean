import DynScript.Constant
import DynScript.Location

/-!
# Tokens

The words of the language.  Several keywords have more than one spelling, and some operators can
also be written as words.
-/

namespace DynScript

/-- The kinds of tokens. -/
inductive TokenKind where
  | endOfInput
  | leftParen | rightParen | leftBrace | rightBrace | leftBracket | rightBracket
  | comma | dot | semicolon | colon | question
  | plus | minus | star | slash | percent
  | plusAssign | minusAssign | starAssign | slashAssign | percentAssign
  | increment | decrement
  | bitAnd | bitOr | bitXor | bitNot | leftShift | rightShift
  | and | or | xor | bang
  | assign | equal | notEqual | greater | greaterEqual | less | lessEqual
  | atSign | dollar | hash | arrow | fatArrow
  | identifier | string | number
  | kwNull | kwTrue | kwFalse
  | kwIf | kwElse | kwWhile | kwFor | kwSwitch | kwCase | kwDefault | kwBreak | kwContinue
  | kwLabel | kwGoto
  | kwVar | kwLet | kwFun | kwReturn
  | kwClass | kwBase | kwThis
  | kwPrint
  deriving DecidableEq, Repr, Inhabited

namespace TokenKind

/-- The name under which token listings show a kind. -/
def name : TokenKind → String
  | endOfInput => "EOF"
  | leftParen => "LEFT_PAREN" | rightParen => "RIGHT_PAREN"
  | leftBrace => "LEFT_BRACE" | rightBrace => "RIGHT_BRACE"
  | leftBracket => "LEFT_BRACKET" | rightBracket => "RIGHT_BRACKET"
  | comma => "COMMA" | dot => "DOT" | semicolon => "SEMICOLON" | colon => "COLON"
  | question => "QUESTION"
  | plus => "PLUS" | minus => "MINUS" | star => "STAR" | slash => "SLASH" | percent => "PERCENT"
  | plusAssign => "PLUS_ASSIGN" | minusAssign => "MINUS_ASSIGN" | starAssign => "STAR_ASSIGN"
  | slashAssign => "SLASH_ASSIGN" | percentAssign => "PERCENT_ASSIGN"
  | increment => "INCREMENT" | decrement => "DECREMENT"
  | bitAnd => "BIT_AND" | bitOr => "BIT_OR" | bitXor => "BIT_XOR" | bitNot => "BIT_NOT"
  | leftShift => "LEFT_SHIFT" | rightShift => "RIGHT_SHIFT"
  | and => "AND" | or => "OR" | xor => "XOR" | bang => "BANG"
  | assign => "ASSIGN" | equal => "EQUAL" | notEqual => "NOT_EQUAL"
  | greater => "GREATER" | greaterEqual => "GREATER_EQUAL"
  | less => "LESS" | lessEqual => "LESS_EQUAL"
  | atSign => "AT" | dollar => "DOLLAR" | hash => "HASH" | arrow => "ARROW" | fatArrow => "FAT_ARROW"
  | identifier => "IDENTIFIER" | string => "STRING" | number => "NUMBER"
  | kwNull => "NULL" | kwTrue => "TRUE" | kwFalse => "FALSE"
  | kwIf => "IF" | kwElse => "ELSE" | kwWhile => "WHILE" | kwFor => "FOR" | kwSwitch => "SWITCH"
  | kwCase => "CASE" | kwDefault => "DEFAULT" | kwBreak => "BREAK" | kwContinue => "CONTINUE"
  | kwLabel => "LABEL" | kwGoto => "GOTO"
  | kwVar => "VAR" | kwLet => "LET" | kwFun => "FUN" | kwReturn => "RETURN"
  | kwClass => "CLASS" | kwBase => "BASE" | kwThis => "THIS"
  | kwPrint => "PRINT"

/-- All kinds. -/
def all : List TokenKind :=
  [endOfInput, leftParen, rightParen, leftBrace, rightBrace, leftBracket, rightBracket, comma, dot,
   semicolon, colon, question, plus, minus, star, slash, percent, plusAssign, minusAssign,
   starAssign, slashAssign, percentAssign, increment, decrement, bitAnd, bitOr, bitXor, bitNot,
   leftShift, rightShift, and, or, xor, bang, assign, equal, notEqual, greater, greaterEqual, less,
   lessEqual, atSign, dollar, hash, arrow, fatArrow, identifier, string, number, kwNull, kwTrue,
   kwFalse, kwIf, kwElse, kwWhile, kwFor, kwSwitch, kwCase, kwDefault, kwBreak, kwContinue, kwLabel,
   kwGoto, kwVar, kwLet, kwFun, kwReturn, kwClass, kwBase, kwThis, kwPrint]

/-- The kind with a name. -/
def ofName? (s : String) : Option TokenKind :=
  all.find? (·.name = s)

/-- The words that are not names, by their spelling. -/
def keywords : List (String × TokenKind) :=
  [("var", kwVar), ("let", kwLet), ("const", kwLet), ("function", kwFun), ("fun", kwFun),
   ("return", kwReturn), ("true", kwTrue), ("false", kwFalse), ("null", kwNull), ("and", and),
   ("or", or), ("xor", xor), ("not", bang), ("if", kwIf), ("else", kwElse), ("switch", kwSwitch),
   ("case", kwCase), ("default", kwDefault), ("for", kwFor), ("while", kwWhile),
   ("break", kwBreak), ("continue", kwContinue), ("label", kwLabel), ("goto", kwGoto),
   ("class", kwClass), ("base", kwBase), ("this", kwThis), ("print", kwPrint)]

/-- The kind of a word: a keyword or a plain name. -/
def ofWord (s : String) : TokenKind :=
  (keywords.lookup s).getD identifier

/-- The kind of two characters. -/
def ofPair? : Char → Char → Option TokenKind
  | '+', '=' => plusAssign
  | '-', '=' => minusAssign
  | '*', '=' => starAssign
  | '/', '=' => slashAssign
  | '%', '=' => percentAssign
  | '+', '+' => increment
  | '-', '-' => decrement
  | '-', '>' => arrow
  | '=', '>' => fatArrow
  | '&', '&' => and
  | '|', '|' => or
  | '^', '^' => xor
  | '<', '<' => leftShift
  | '>', '>' => rightShift
  | '=', '=' => equal
  | '!', '=' => notEqual
  | '>', '=' => greaterEqual
  | '<', '=' => lessEqual
  | _, _ => none

/-- The operators and separators of one character. -/
def ofChar? : Char → Option TokenKind
  | '(' => leftParen
  | ')' => rightParen
  | '{' => leftBrace
  | '}' => rightBrace
  | '[' => leftBracket
  | ']' => rightBracket
  | ',' => comma
  | '.' => dot
  | ';' => semicolon
  | ':' => colon
  | '?' => question
  | '+' => plus
  | '-' => minus
  | '*' => star
  | '/' => slash
  | '%' => percent
  | '&' => bitAnd
  | '|' => bitOr
  | '^' => bitXor
  | '~' => bitNot
  | '!' => bang
  | '=' => assign
  | '>' => greater
  | '<' => less
  | '@' => atSign
  | '$' => dollar
  | '#' => hash
  | _ => none

end TokenKind

/-- A token: its kind, its spelling, the value of a number or text, and where it starts. -/
structure Token where
  kind : TokenKind
  lexeme : String
  literal : Option Constant := none
  location : Location
  deriving Repr, Inhabited

/-- How a token is shown. -/
def Token.text (t : Token) : String :=
  match t.literal with
  | some c => s!"{t.kind.name}({Text.quoted t.lexeme}, {c.listing})"
  | none => s!"{t.kind.name}({Text.quoted t.lexeme})"

end DynScript
