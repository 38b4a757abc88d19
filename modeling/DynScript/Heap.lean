import DynScript.Code
import DynScript.RuntimeError

/-!
# The heap

What values refer to: arrays, records and functions.  Nothing is ever taken out of the heap, so a
reference stays good for ever and two references are the same thing exactly when they are equal.
-/

namespace DynScript

/-- A key of a record: the name of a field, or a key that only a table of the host can have, with its
host type and its text. -/
inductive Key where
  | name (s : String)
  | foreign (type text : String)
  deriving DecidableEq, Repr

/-- The text of a key. -/
def Key.text : Key → String
  | name s => s
  | foreign _ text => text

/-- The fields of a record in the order in which they were added. -/
structure Record where
  fields : List (Key × Value) := []
  deriving Repr, Inhabited

namespace Record

/-- The field under a name. -/
def get? (r : Record) (name : String) : Option Value :=
  r.fields.lookup (.name name)

/-- Stores a field: in its place when the record has it, else at the end. -/
def put (r : Record) (name : String) (v : Value) : Record :=
  if (r.get? name).isSome then
    ⟨r.fields.map fun f => if f.1 = .name name then (.name name, v) else f⟩
  else ⟨r.fields ++ [(.name name, v)]⟩

/-- The number of fields. -/
def size (r : Record) : Nat :=
  r.fields.length

end Record

/-- The code of a function: its name, its parameters, its body, where its calls end, and the slot by
which it knows itself, if it has one. -/
structure FunctionCode where
  name : String
  params : List Slot
  body : Block
  exit : Label
  self : Option Slot
  deriving Inhabited

/-- A function of a script: its code, the frame in which it was made, and the interpreter that made
it, which also runs it. -/
structure Closure where
  code : FunctionCode
  frame : Ref
  owner : Ref
  deriving Inhabited

/-- A function of a script or a native one. -/
inductive Callable where
  | closure (c : Closure)
  | native (f : NativeFunction)

/-- What a reference to no function counts as. -/
instance : Inhabited Callable := ⟨.native default⟩

namespace Callable

/-- The name of a function. -/
def name : Callable → String
  | closure c => c.code.name
  | native f => f.name

/-- The number of arguments that a function needs. -/
def arity : Callable → Int
  | closure c => c.code.params.length
  | native f => f.arity

/-- Whether any number of arguments is taken. -/
def variadic : Callable → Bool
  | closure _ => false
  | native f => f.variadic

/-- Those of the arguments that are handed to a function. -/
def accepted (c : Callable) {α : Type} (arguments : List α) : List α :=
  if c.variadic then arguments
  else if 0 ≤ c.arity then arguments.take c.arity.toNat
  else arguments.take (arguments.length - c.arity.natAbs)

/-- The text of a function. -/
def text (c : Callable) : String :=
  functionText c.name c.arity

end Callable

/-- Arrays, records and functions, by their references, and how many marks have been given to
boxes. -/
structure Heap where
  arrays : Array (Array Value) := #[]
  records : Array Record := #[]
  functions : Array Callable := #[]
  marks : Nat := 0
  deriving Inhabited

namespace Heap

/-- The items of an array. -/
def array (h : Heap) (r : Ref) : Array Value :=
  h.arrays.getD r #[]

/-- The fields of a record. -/
def record (h : Heap) (r : Ref) : Record :=
  h.records.getD r {}

/-- The function under a reference. -/
def function (h : Heap) (r : Ref) : Callable :=
  h.functions.getD r default

/-- Makes an array. -/
def newArray (h : Heap) (items : Array Value) : Ref × Heap :=
  (h.arrays.size, { h with arrays := h.arrays.push items })

/-- Makes a record. -/
def newRecord (h : Heap) (r : Record) : Ref × Heap :=
  (h.records.size, { h with records := h.records.push r })

/-- Makes a function. -/
def newFunction (h : Heap) (c : Callable) : Ref × Heap :=
  (h.functions.size, { h with functions := h.functions.push c })

/-- Assigns an item. -/
def setItem (h : Heap) (r : Ref) (i : Nat) (v : Value) : Heap :=
  { h with arrays := h.arrays.modify r fun items => items.setIfInBounds i v }

/-- Assigns a field. -/
def setField (h : Heap) (r : Ref) (name : String) (v : Value) : Heap :=
  { h with records := h.records.modify r fun fields => fields.put name v }

/-- The number of arrays and records, which bounds the depth of any nesting without repetition. -/
def containers (h : Heap) : Nat :=
  h.arrays.size + h.records.size

end Heap

end DynScript
