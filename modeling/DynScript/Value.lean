import DynScript.Constant

/-!
# Values

Scripts work on *data* of seven kinds.  Arrays, records and functions are shared: a datum holds a
reference to them, and their contents live in the heap.

A value is a datum together with the side it stands on.
-/

namespace DynScript

/-- The kinds of values. -/
inductive Kind where
  | null | bool | number | string | array | record | callable
  deriving DecidableEq, Repr, Inhabited

/-- The word for a kind. -/
def Kind.word : Kind → String
  | .null => "null"
  | .bool => "bool"
  | .number => "number"
  | .string => "string"
  | .array => "array"
  | .record => "record"
  | .callable => "callable"

/-- A reference to an array, a record, a function or a frame. -/
abbrev Ref := Nat

/-- What a value is apart from its box. -/
inductive Datum where
  | null
  | bool (b : Bool)
  | number (x : Float)
  | string (s : String)
  | array (ref : Ref)
  | record (ref : Ref)
  | callable (ref : Ref)
  deriving Repr, Inhabited

namespace Datum

/-- The kind of a datum. -/
def kind : Datum → Kind
  | null => .null
  | bool _ => .bool
  | number _ => .number
  | string _ => .string
  | array _ => .array
  | record _ => .record
  | callable _ => .callable

/-- Whether a datum refers to nothing in the heap. -/
def isScalar : Datum → Bool
  | array _ | record _ | callable _ => false
  | _ => true

/-- Whether a datum counts as true. -/
def isTrue : Datum → Bool
  | null => false
  | bool b => b
  | _ => true

/-- Equality of data.  Data of different kinds differ; what is shared is equal only to itself. -/
def equal : Datum → Datum → Bool
  | null, null => true
  | bool a, bool b => a == b
  | number a, number b => a == b
  | string a, string b => a == b
  | array a, array b => a == b
  | record a, record b => a == b
  | callable a, callable b => a == b
  | _, _ => false

end Datum

/-- A host value that the language has no kind for, except that an integer counts as a number: an
integer of any size, a fixed sequence of values (kept like an array), a bare function (kept like a
function), or an object of the named type. -/
inductive Alien where
  | integer (n : Int)
  | tuple (ref : Ref)
  | function (ref : Ref) (type : String)
  | object (type : String)
  deriving Repr, Inhabited

/-- A value: boxed, raw, or alien to the language.  The mark 0 of a box stands for none. -/
inductive Value where
  | boxed (d : Datum) (mark : Nat := 0)
  | raw (d : Datum)
  | alien (a : Alien)
  deriving Repr, Inhabited

namespace Value

/-- The null of scripts. -/
def null : Value := .boxed .null

/-- The raw null, the outcome of a statement that has no value. -/
def nothing : Value := .raw .null

/-- Whether a value is in a box. -/
def isBoxed : Value → Bool
  | boxed _ _ => true
  | _ => false

/-- A value in a box, or raw. -/
def wrap (dynamic : Bool) (d : Datum) : Value :=
  if dynamic then .boxed d else .raw d

/-- A value counts as false when it is null or false; every alien counts as true. -/
def isTrue : Value → Bool
  | boxed d _ | raw d => d.isTrue
  | alien _ => true

/-- Takes a scalar out of its box; what is shared stays boxed. -/
def unbox : Value → Value
  | boxed d mark => if d.isScalar then .raw d else .boxed d mark
  | v => v

/-- A value without its box. -/
def payload : Value → Value
  | boxed d _ => .raw d
  | v => v

end Value

/-- The datum of a constant. -/
def Constant.datum : Constant → Datum
  | .null => .null
  | .bool b => .bool b
  | .number x => .number x
  | .text s => .string s

end DynScript
