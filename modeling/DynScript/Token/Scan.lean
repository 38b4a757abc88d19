import DynScript.Diagnostic
import DynScript.Number.Reading
import DynScript.Token

/-!
# Scanning

A source text is cut into *lexemes*, each a piece of the text with its meaning: a token, something blank
(a whitespace character or a comment), or a fault.  No character is lost: the texts of the lexemes, put
together, are the source (`flatMap_text_lexemes`).
-/

namespace DynScript

/-- What can be wrong with a source text. -/
inductive ScanFault where
  | unexpectedCharacter (c : Char)
  | unterminatedString
  | unsupportedEscape (c : Char)
  | unterminatedComment
  deriving DecidableEq, Repr

/-- A fault at a place. -/
structure ScanError where
  fault : ScanFault
  location : Location
  deriving DecidableEq, Repr

/-- The diagnostic of an error. -/
def ScanError.diagnostic (e : ScanError) : Diagnostic :=
  match e.fault with
  | .unexpectedCharacter c =>
    { message := s!"Unexpected character [{c}]."
      location := e.location
      code := "L001"
      help :=
        if Text.isPrintable c then s!"The character '{c}' is not valid in NyaScript source code."
        else
          let point := (String.ofList (Text.hex 4 c.toNat)).toUpper
          s!"Non-printable character (Unicode: U+{point}) is not allowed." }
  | .unterminatedString =>
    { message := "Unterminated string."
      location := e.location
      code := "L002"
      help := "String literals must be closed with a matching '\"'."
      suggestions := ["Add a closing '\"'", "Escape quotes inside the string as '\\\"'"] }
  | .unsupportedEscape c =>
    { message := s!"Unexpected character [{c}] after '\\'."
      location := e.location
      code := "L003"
      help := "Supported escapes are \\\", \\\\, \\n and \\t." }
  | .unterminatedComment =>
    { message := "Unterminated block comment."
      location := e.location
      code := "L004"
      help := "Block comments must be closed with '*/'." }

/-! ### Character classes -/

/-- The letter that stands for the keyword `fun`. -/
def lambdaLetter : Char := 'λ'

/-- Whether a character is blank. -/
def isBlank (c : Char) : Bool :=
  c = ' ' || c = '\t' || c = '\r' || c = '\n'

/-- Letters, the underscore and everything from U+00A1 on, save the lambda, start a name. -/
def startsName (c : Char) : Bool :=
  ('a' ≤ c && c ≤ 'z') || ('A' ≤ c && c ≤ 'Z') || c = '_' ||
    (0xA1 ≤ c.toNat && c ≠ lambdaLetter)

/-- A name goes on with the characters that start one, the lambda and the digits. -/
def continuesName (c : Char) : Bool :=
  startsName c || c = lambdaLetter || Number.isDigit c

/-- What an escape stands for. -/
def unescape? : Char → Option Char
  | '"' => '"'
  | '\\' => '\\'
  | 'n' => '\n'
  | 't' => '\t'
  | _ => none

/-! ### Lexemes -/

/-- What a lexeme is. -/
inductive Piece where
  | blank
  | token (kind : TokenKind) (literal : Option Constant)
  | fault (f : ScanFault)

/-- A piece of the source: its meaning, its text, and the unsupported escapes in it, each with the
number of characters of the text before the escaped one. -/
structure Lexeme where
  piece : Piece
  text : List Char
  escapes : List (Nat × Char) := []

namespace Lexeme

/-- Cuts a comment at its end. -/
def closeComment : List Char → Option (List Char × List Char)
  | [] => none
  | '*' :: '/' :: cs => some (['*', '/'], cs)
  | c :: cs => (closeComment cs).map fun (text, rest) => (c :: text, rest)

/-- The part of a string literal after the opening mark: the characters it stands for, its text, its
unsupported escapes, and what follows the closing mark, if there is one. -/
structure StringTail where
  value : List Char
  text : List Char
  escapes : List (Nat × Char)
  rest : Option (List Char)

/-- Reads a string literal of which `offset` characters have been read. -/
def stringTail (offset : Nat) : List Char → StringTail
  | [] => ⟨[], [], [], none⟩
  | '"' :: cs => ⟨[], ['"'], [], some cs⟩
  | ['\\'] => ⟨[], ['\\'], [], none⟩
  | '\\' :: e :: cs =>
    let t := stringTail (offset + 2) cs
    match unescape? e with
    | some c => ⟨c :: t.value, '\\' :: e :: t.text, t.escapes, t.rest⟩
    | none => ⟨e :: t.value, '\\' :: e :: t.text, (offset + 1, e) :: t.escapes, t.rest⟩
  | c :: cs =>
    let t := stringTail (offset + 1) cs
    ⟨c :: t.value, c :: t.text, t.escapes, t.rest⟩

/-- A comment, of which `c` and `d` are the opening characters. -/
def comment (c d : Char) (cs : List Char) : Option (Lexeme × List Char) :=
  if c = '/' && d = '/' then
    some (⟨.blank, c :: d :: cs.takeWhile (· ≠ '\n'), []⟩, cs.dropWhile (· ≠ '\n'))
  else if c = '/' && d = '*' then
    match closeComment cs with
    | some (text, rest) => some (⟨.blank, c :: d :: text, []⟩, rest)
    | none => some (⟨.fault .unterminatedComment, c :: d :: cs, []⟩, [])
  else none

/-- A number: digits, and a point with further digits when a digit follows the point. -/
def number (cs : List Char) : Lexeme × List Char :=
  let whole := cs.takeWhile Number.isDigit
  match cs.dropWhile Number.isDigit with
  | '.' :: rest =>
    let fraction := rest.takeWhile Number.isDigit
    if fraction.isEmpty then
      (⟨.token .number (some (.number (Number.ofLiteral whole []))), whole, []⟩, '.' :: rest)
    else
      (⟨.token .number (some (.number (Number.ofLiteral whole fraction))),
        whole ++ '.' :: fraction, []⟩, rest.dropWhile Number.isDigit)
  | rest => (⟨.token .number (some (.number (Number.ofLiteral whole []))), whole, []⟩, rest)

/-- Reads a name or keyword. -/
def word (cs : List Char) : Lexeme × List Char :=
  let text := cs.takeWhile continuesName
  (⟨.token (.ofWord (String.ofList text)) none, text, []⟩, cs.dropWhile continuesName)

/-- Reads a string. -/
def stringLiteral (cs : List Char) : Lexeme × List Char :=
  let t := stringTail 1 cs
  match t.rest with
  | some rest => (⟨.token .string (some (.text (String.ofList t.value))), '"' :: t.text, t.escapes⟩, rest)
  | none => (⟨.fault .unterminatedString, '"' :: t.text, t.escapes⟩, [])

/-- A lexeme of one character. -/
def single (c : Char) : Lexeme :=
  match TokenKind.ofChar? c with
  | some k => ⟨.token k none, [c], []⟩
  | none => ⟨.fault (.unexpectedCharacter c), [c], []⟩

/-- An operator, the longest one that fits, or a fault. -/
def operator (c : Char) (cs : List Char) : Lexeme × List Char :=
  match cs with
  | [] => (single c, [])
  | d :: rest =>
    match TokenKind.ofPair? c d with
    | some k => (⟨.token k none, [c, d], []⟩, rest)
    | none => (single c, cs)

/-- The lexeme at the front of `c :: cs`, and what follows it. -/
def first (c : Char) (cs : List Char) : Lexeme × List Char :=
  if isBlank c then (⟨.blank, [c], []⟩, cs)
  else match cs.head?.bind (fun d => comment c d cs.tail) with
  | some found => found
  | none =>
    if c = lambdaLetter then (⟨.token .kwFun none, [c], []⟩, cs)
    else if Number.isDigit c then number (c :: cs)
    else if startsName c then word (c :: cs)
    else if c = '"' then stringLiteral cs
    else operator c cs

end Lexeme

/-- The lexemes of a text of at most `fuel` characters. -/
def lexemesFrom : Nat → List Char → List Lexeme
  | _, [] => []
  | 0, _ => []
  | fuel + 1, c :: cs =>
    let (l, rest) := Lexeme.first c cs
    l :: lexemesFrom fuel rest

/-- The lexemes of a text. -/
def lexemes (cs : List Char) : List Lexeme :=
  lexemesFrom cs.length cs

/-! ### Tokens and errors -/

/-- What scanning gives: the tokens, ending with the end of input, and the errors. -/
structure Scan where
  tokens : List Token
  errors : List ScanError

namespace Lexeme

/-- The token that a lexeme at `start` stands for. -/
def token? (l : Lexeme) (file : String) (start : Position) : Option Token :=
  match l.piece with
  | .token kind literal => some ⟨kind, String.ofList l.text, literal, start.inFile file⟩
  | _ => none

/-- The errors in a lexeme at `start`: its unsupported escapes, then the fault that it is. -/
def errors (l : Lexeme) (file : String) (start : Position) : List ScanError :=
  l.escapes.map (fun (n, c) => ⟨.unsupportedEscape c, (start.after (l.text.take n)).inFile file⟩) ++
    match l.piece with
    | .fault f => [⟨f, start.inFile file⟩]
    | _ => []

end Lexeme

/-- Reads the tokens and errors off the lexemes that start at `start`. -/
def Scan.ofLexemes (file : String) (start : Position) : List Lexeme → Scan
  | [] => ⟨[⟨.endOfInput, "", none, start.inFile file⟩], []⟩
  | l :: ls =>
    let rest := Scan.ofLexemes file (start.after l.text) ls
    ⟨(l.token? file start).toList ++ rest.tokens, l.errors file start ++ rest.errors⟩

/-- Scans a source text. -/
def scan (source : String) (file : String) : Scan :=
  Scan.ofLexemes file {} (lexemes source.toList)

end DynScript
