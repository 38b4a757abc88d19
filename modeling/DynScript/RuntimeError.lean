import DynScript.Diagnostic
import DynScript.Value

/-!
# Runtime errors

What stops a running script.  Each cause belongs to a class, which has a code, and has its own
wording.  An error gets the place of the innermost expression or statement that was at work when it
was raised.
-/

namespace DynScript

/-- The classes of runtime errors.  An integer of the host that is too large for a number is a
failure of the host and has no code. -/
inductive FaultClass where
  | general | uncallable | arity | indexRange | field | valueKind | callDepth | integerOverflow
  deriving DecidableEq, Repr, Inhabited

/-- The code of a class of faults. -/
def FaultClass.code : FaultClass → Option String
  | .general => "R000"
  | .uncallable => "R001"
  | .arity => "R002"
  | .indexRange => "R003"
  | .field => "R004"
  | .valueKind => "R005"
  | .callDepth => "R006"
  | .integerOverflow => none

/-- What can go wrong in a run. -/
inductive Fault where
  | unbound (name : String)
  | undefinedLabel (name : String)
  | tooDeep (limit : Int) (function : String)
  | hostStack
  | uncallable (kind : Kind)
  | tooFewArguments (function : String) (expected : Int) (given : Nat)
  | operands (symbol : String) (kinds : List Kind)
  | notIntegral (symbol shown : String)
  | resultTooLarge (symbol : String)
  | negativeShift (count : Int)
  | unknownBinary (symbol : String)
  | unknownUnary (symbol : String)
  | unknownHostValue (type : String)
  | unconvertible (type : String)
  | recordKey (type : String)
  | endlessHostValue
  | integerTooLarge
  | indexNotIntegral (shown : String)
  | indexOutOfRange (position : Int) (kind : Kind) (length : Nat)
  | cannotIndex (kind : Kind)
  | cannotStoreAt (kind : Kind)
  | immutableString
  | missingField (name : String)
  | noFields (kind : Kind)
  | nullLength
  | reported (category : FaultClass) (message : String)
  deriving Repr

namespace Fault

/-- The class of a fault. -/
def category : Fault → FaultClass
  | unbound _ | undefinedLabel _ | nullLength => .general
  | tooDeep .. | hostStack => .callDepth
  | uncallable _ => .uncallable
  | tooFewArguments .. => .arity
  | indexOutOfRange .. => .indexRange
  | missingField _ => .field
  | integerTooLarge => .integerOverflow
  | reported c _ => c
  | _ => .valueKind

/-- The word for a kind where null is put in capitals. -/
def shout : Kind → String
  | .null => "NULL"
  | k => k.word

/-- The wording of a fault. -/
def message : Fault → String
  | unbound name => s!"Variable [{name}] is not bound in this frame."
  | undefinedLabel name => s!"Undefined label [{name}]."
  | tooDeep limit function => s!"Call depth exceeded {limit} in function [{function}]."
  | hostStack => "Call depth exceeded the host stack."
  | uncallable .null => "Can not INVOKE uncallable object [NULL]."
  | uncallable kind => s!"Can not INVOKE uncallable object type [{kind.word}]."
  | tooFewArguments function expected given =>
    s!"Argument given is LESS THAN demanded for function [{function}]: " ++
    s!"expected {expected}, got {given}."
  | operands symbol kinds =>
    let shown := " and ".intercalate (kinds.map fun k => s!"[{k.word}]")
    s!"Operator '{symbol}' cannot be applied to {shown}."
  | notIntegral symbol shown => s!"Operator '{symbol}' needs integral numbers, got [{shown}]."
  | resultTooLarge symbol => s!"Result of '{symbol}' is too large to be a number."
  | negativeShift count => s!"Negative shift count [{Number.integerText count}]."
  | unknownBinary symbol => s!"Unknown binary operator '{symbol}'."
  | unknownUnary symbol => s!"Unknown unary operator '{symbol}'."
  | unknownHostValue type => s!"Unknown host value of type [{type}]."
  | unconvertible type => s!"Cannot convert host value of type [{type}]."
  | recordKey type => s!"Record keys must be strings, got [{type}]."
  | endlessHostValue => "Cannot convert host value that holds itself."
  | integerTooLarge => "int too large to convert to float"
  | indexNotIntegral shown => s!"Index [{shown}] is not an integral number."
  | indexOutOfRange position kind length =>
    s!"Index [{Number.integerText position}] is OUT OF RANGE when accessing [{kind.word}] " ++
    s!"of length {length}."
  | cannotIndex kind => s!"Type of [{shout kind}] is NOT an accessable type."
  | cannotStoreAt kind => s!"Type of [{kind.word}] is NOT an accessable type."
  | immutableString => "Strings are immutable; cannot assign to a string index."
  | missingField name => s!"Not field named as [{name}]."
  | noFields .null => "Type of [NULL] is NOT an accessable type."
  | noFields kind => s!"Type of [{kind.word}] doesn't have fields."
  | nullLength => "In static method [$Len]: NULL argument error."
  | reported _ message => message

end Fault

/-- A runtime error: its cause, its place once it is known, and a help line. -/
structure RuntimeError where
  fault : Fault
  location : Option Location := none
  help : Option String := none
  deriving Repr

namespace RuntimeError

/-- An error with a place, if it has none. -/
def withLocation (e : RuntimeError) (place : Option Location) : RuntimeError :=
  match e.location with
  | some _ => e
  | none => { e with location := place }

/-- The wording of an error. -/
def message (e : RuntimeError) : String := e.fault.message

/-- The code of an error. -/
def code (e : RuntimeError) : Option String := e.fault.category.code

/-- The diagnostic of an error. -/
def diagnostic (e : RuntimeError) : Diagnostic :=
  { message := e.message, location := e.location, code := e.code, help := e.help }

/-- The text of an error. -/
def text (e : RuntimeError) : String :=
  match e.location with
  | some l => s!"[ RuntimeError ] at line [{l.line}] : {e.message}"
  | none => s!"[ RuntimeError ] : {e.message}"

end RuntimeError

end DynScript
