import DynScript.Grammar.Statement
import DynScript.Log
import DynScript.Text.Strip
import DynScript.Token.Scan

/-!
# Compiling

A unit of source text is scanned and parsed into a program.  It can be linked to earlier units: the
names that they export are known behind the unit's own global names.  Errors are collected unless
the unit is strict, where the first one cancels the parse.
-/

namespace DynScript

/-- How a unit is compiled. -/
structure CompileOptions where
  strict : Bool := false
  file : String := "<script>"
  deriving DecidableEq, Repr, Inhabited

/-- The words for "yes" in the setting that makes units strict. -/
def strictWords : List String :=
  ["1", "true", "yes", "on"]

/-- Options from the setting that makes units strict, in which blanks around the word and its case do
not matter. -/
def CompileOptions.ofSetting (setting : String) (file : String := "<script>") : CompileOptions :=
  { strict := strictWords.contains (Text.lower (Text.strip setting)), file := file }

/-- The numbers of the next slot and the next label. -/
structure Supply where
  slot : Nat := 1
  label : Nat := 1
  deriving DecidableEq, Repr, Inhabited

/-- The outcome of compiling a unit. -/
structure CompiledUnit where
  program : Program
  exported : List Slot
  errors : List ParseError
  scanErrors : List ScanError := []

namespace CompiledUnit

/-- Whether there were no errors. -/
def ok (u : CompiledUnit) : Bool :=
  u.errors.isEmpty && u.scanErrors.isEmpty

/-- The number of errors. -/
def errorCount (u : CompiledUnit) : Nat :=
  u.errors.length + u.scanErrors.length

/-- The lines of the summary of the errors in a unit. -/
def summary (u : CompiledUnit) : List String :=
  Diagnostic.summary (u.scanErrors.map (·.diagnostic.code) ++ u.errors.map (·.diagnostic.code))

end CompiledUnit

/-- The outcome of compiling a unit: the unit, or why there is none, with the numbers to go on from
and the messages sent. -/
structure Compilation where
  result : Except ParseFailure CompiledUnit
  supply : Supply
  log : List LogEntry

/-- The error that a strict parse ends with, given its cause. -/
def ParseError.cancellation (cause : ParseError) : ParseError :=
  { fault := .canceled, token := cause.token }

/-- What is logged for a parse error. -/
def ParseError.log (e : ParseError) : List LogEntry :=
  (e.report :: e.stepNote.toList).map fun m => ⟨.error, .grammar, m⟩

/-- What is logged for a scan error. -/
def ScanError.log (e : ScanError) : LogEntry :=
  ⟨.error, .scanner, e.diagnostic.text⟩

/-- Reads a whole unit. -/
def parseUnit (depth : Nat) : Parse (List Stmt) := do
  Parse.announceLabels
  (Grammar.unrolled depth).unit (← Parse.rounds)

/-- A parser over tokens, the last of which is the end of the input.  It can parse them again and again;
`left` is the state that its last parse has left behind. -/
structure Parser where
  tokens : List Token
  options : CompileOptions
  natives : Registry
  left : ParseState

namespace Parser

/-- A parser that has read nothing yet. -/
def new (tokens : List Token) (options : CompileOptions) (natives : Registry) : Parser :=
  let eof := tokens.getLastD default
  { tokens, options, natives, left := { last := eof, rest := [], scopes := {} } }

/-- Parses the tokens from the start, with the given linked names and numbers.  However the parse ends,
nothing that it has declared stays in the scopes. -/
def parse (p : Parser) (linked : List Slot) (supply : Supply) : Compilation × Parser :=
  let eof := p.tokens.getLastD default
  let body := p.tokens.dropLast
  let first := p.tokens.headD eof
  let roots := { p.left.scopes with nextSlot := supply.slot, nextLabel := supply.label }
  let start : ParseState :=
    { p.left with last := first, rest := body, errors := [], scopes := roots.reset linked }
  let bound := body.length + 1
  let context : ParseContext :=
    { eof := eof, strict := p.options.strict, natives := p.natives, bound := bound }
  let finish (result : Except ParseFailure CompiledUnit) (s : ParseState) : Compilation × Parser :=
    ({ result := result
       supply := ⟨s.scopes.nextSlot, s.scopes.nextLabel⟩
       log := s.errors.flatMap ParseError.log },
     { p with left := { s with scopes := s.scopes.reset [] } })
  match (parseUnit bound).run context start with
  | .ok statements s =>
    let globals := s.scopes.globals.slots
    finish (.ok
      { program := ⟨.mk statements globals first.location, p.options.file⟩
        exported := globals
        errors := s.errors }) s
  | .error e s => finish (.error e) s

end Parser

/-- Parses tokens, the last of which is the end of the input. -/
def parse (tokens : List Token) (options : CompileOptions) (natives : Registry)
    (linked : List Slot) (supply : Supply) : Compilation :=
  ((Parser.new tokens options natives).parse linked supply).1

/-- Scans and parses a source text. -/
def compile (source : String) (options : CompileOptions) (natives : Registry)
    (linked : List Slot) (supply : Supply) : Compilation :=
  let scan := scan source options.file
  let c := parse scan.tokens options natives linked supply
  { c with
    result := c.result.map fun u => { u with scanErrors := scan.errors }
    log := scan.errors.map ScanError.log ++ c.log }

end DynScript
