import DynScript.Text.LowerCase
import DynScript.Value

/-!
# Native functions

Scripts call native functions by the sign `$` and a name.  The standard library offers a fixed set of
them (`Builtin`); an embedding application adds its own, each named by a symbol that the application
gives a meaning to, together with the values it has been bound to.
-/

namespace DynScript

/-- The functions of the standard library. -/
inductive Builtin where
  | concat | len | toText
  | debugLog | debugLogLine | debugReadLine
  | fileReadAllText | fileReadAllLines | fileWriteAllText | fileWriteAllLines
  | random | randomInt | randomRange
  | ticks
  | evaluate
  | warning
  | pushLine | pushFormatLine | waitInput | clearView
  deriving DecidableEq, Repr, Inhabited

namespace Builtin

/-- The name under which scripts call a function of the standard library. -/
def name : Builtin → String
  | concat => "Concat" | len => "Len" | toText => "ToString"
  | debugLog => "DebugLog" | debugLogLine => "DebugLogLine" | debugReadLine => "DebugReadLine"
  | fileReadAllText => "FileReadAllText" | fileReadAllLines => "FileReadAllLines"
  | fileWriteAllText => "FileWriteAllText" | fileWriteAllLines => "FileWriteAllLines"
  | random => "Random" | randomInt => "RandomInt" | randomRange => "RandomRange"
  | ticks => "Ticks"
  | evaluate => "Eval"
  | warning => "Warning"
  | pushLine => "PushLine" | pushFormatLine => "PushFormatLine" | waitInput => "WaitInput"
  | clearView => "ClearView"

/-- The number of arguments of a function of the standard library. -/
def arity : Builtin → Nat
  | debugReadLine | random | ticks | waitInput | clearView => 0
  | concat | fileWriteAllText | fileWriteAllLines | randomRange => 2
  | _ => 1

/-- All functions of the library. -/
def all : List Builtin :=
  [concat, len, toText, debugLog, debugLogLine, debugReadLine, fileReadAllText, fileReadAllLines,
   fileWriteAllText, fileWriteAllLines, random, randomInt, randomRange, ticks, evaluate, warning,
   pushLine, pushFormatLine, waitInput, clearView]

end Builtin

/-- What a native function does: a function of the standard library, or one of the application's,
with the values it is bound to. -/
inductive NativeBody where
  | builtin (b : Builtin)
  | host (symbol : String) (bound : List Value)
  deriving Repr, Inhabited

/-- A native function.  It needs `arity` arguments; further ones are dropped unless it takes any
number of them.  A negative arity needs none and drops as many of the last ones. -/
structure NativeFunction where
  name : String
  arity : Int
  variadic : Bool := false
  body : NativeBody
  deriving Repr, Inhabited

/-- How a function is shown. -/
def functionText (name : String) (arity : Int) : String :=
  s!"<fun {name}/{arity}>"

/-- A library function as a native one. -/
def Builtin.function (b : Builtin) : NativeFunction :=
  { name := b.name, arity := b.arity, body := .builtin b }

/-- The table of native functions, by the names that scripts call them by. -/
structure Registry where
  entries : List (String × NativeFunction) := []
  deriving Repr, Inhabited

namespace Registry

/-- The function under a name. -/
def lookup (r : Registry) (name : String) : Option NativeFunction :=
  r.entries.lookup name

/-- Puts a function into the table, in place of an earlier one of that name.  The function takes the
name unless it is empty, and the given number of arguments unless none is given. -/
def register (r : Registry) (name : String) (f : NativeFunction) (arity : Option Int := none) :
    NativeFunction × Registry :=
  let f := { f with name := if name.isEmpty then f.name else name, arity := arity.getD f.arity }
  let entries :=
    if (r.lookup name).isSome then r.entries.map fun e => if e.1 = name then (name, f) else e
    else r.entries ++ [(name, f)]
  (f, ⟨entries⟩)

/-- The names, sorted. -/
def names (r : Registry) : List String :=
  (r.entries.map (·.1)).mergeSort (· ≤ ·)

/-- The registered names that start with `name` when upper and lower case are the same. -/
def similar (r : Registry) (name : String) : List String :=
  let wanted := (Text.lower name).toList
  r.names.filter fun n => wanted.isPrefixOf (Text.lower n).toList

/-- The number of functions. -/
def size (r : Registry) : Nat :=
  r.entries.length

/-- The registry of the library. -/
def standard : Registry :=
  ⟨Builtin.all.map fun b => (b.name, b.function)⟩

end Registry

end DynScript
