import DynScript.Value.Operators

/-!
# Conversion and access

Conversion boxes a value: a raw container is copied with its parts converted, in order; what is
boxed already stays the same value.  Whatever is stored in a container is boxed on the way.
-/

namespace DynScript

/-- Operations that can change the heap and can fail; what they did before failing stays. -/
abbrev HeapM := EStateM Fault Heap

namespace HeapM

/-- Looks at the heap without changing it. -/
def look {α : Type} (f : Heap → Except Fault α) : HeapM α := fun h =>
  match f h with
  | .ok a => .ok a h
  | .error e => .error e h

/-- An operation that makes something in the heap. -/
def make {α : Type} (f : Heap → α × Heap) : HeapM α := fun h =>
  let (a, h) := f h
  .ok a h

end HeapM

/-- What a field is copied to, given what is made of its value.  Its key has to be a name. -/
def HeapM.copiedField (part : Value → HeapM Value) (f : Key × Value) : HeapM (Key × Value) :=
  match f.1 with
  | .name _ => do return (f.1, ← part f.2)
  | .foreign type _ => throw (.recordKey type)

/-- Makes a copy of a container, given what is made of each of its parts. -/
def HeapM.copied (part : Value → HeapM Value) : Container → HeapM Datum
  | .array r => do
    let items ← ((← get).array r).toList.mapM part
    return .array (← make (·.newArray items.toArray))
  | .record r => do
    let fields ← ((← get).record r).fields.mapM (copiedField part)
    return .record (← make (·.newRecord ⟨fields⟩))

namespace Value

/-- Boxes a value, given what to do with a container that is not boxed. -/
def convertWith (copy : Container → HeapM Value) : Value → HeapM Value
  | .boxed d mark => return .boxed d mark
  | .raw d =>
    match d.container? with
    | none => return .boxed d
    | some c => copy c
  | .alien (.tuple r) => copy (.array r)
  | .alien (.integer n) =>
    match Number.ofInt? n with
    | some x => return .boxed (.number x)
    | none => throw .integerTooLarge
  | .alien (.function r _) => do
    return .boxed (.callable (← HeapM.make fun h => h.newFunction (h.function r)))
  | .alien (.object type) => throw (.unconvertible type)

/-- Boxes a value whose raw parts are nested at most `depth` deep. -/
def convertWithin : (depth : Nat) → Value → HeapM Value
  | 0 => convertWith fun _ => throw .endlessHostValue
  | depth + 1 => convertWith fun c => do
    return .boxed (← HeapM.copied (convertWithin depth) c)

/-- Converts a value from the host. -/
def convert (v : Value) : HeapM Value := do
  convertWithin ((← get).containers + 1) v

/-! ### Items -/

/-- The position in a container of the given kind and length that an index stands for. -/
def position (h : Heap) (index : Value) (length : Nat) (kind : Kind) : Except Fault Nat :=
  match index.number?.bind Number.toInt? with
  | none => do throw (.indexNotIntegral (← h.text index))
  | some i =>
    if i < 0 ∨ (length : Int) ≤ i then throw (.indexOutOfRange i kind length) else return i.toNat

/-- The item of a container. -/
def getIndex (h : Heap) (container index : Value) : Except Fault Value := do
  let kind ← container.kind
  match container.datum? with
  | some (.array r) =>
    let items := h.array r
    let i ← position h index items.size kind
    return items.getD i .null
  | some (.string s) =>
    let i ← position h index s.length kind
    return .wrap (container.isBoxed || index.isBoxed) (.string ((s.drop i).take 1).toString)
  | _ => throw (.cannotIndex kind)

/-- Stores an item of an array, and gives what has been stored. -/
def setIndex (container index value : Value) : HeapM Value := do
  let kind ← HeapM.look fun _ => container.kind
  match container.datum? with
  | some (.array r) =>
    let stored ← value.convert
    let i ← HeapM.look fun h => position h index (h.array r).size kind
    modify (·.setItem r i stored)
    return stored
  | some (.string _) => throw .immutableString
  | _ => throw (.cannotStoreAt kind)

/-! ### Fields -/

/-- The name that a key stands for. -/
def fieldName (h : Heap) (key : Value) : Except Fault String :=
  match key.string? with
  | some s => return s
  | none => h.text key

/-- The field of a container. -/
def getField (h : Heap) (container key : Value) : Except Fault Value := do
  let kind ← container.kind
  let name ← fieldName h key
  match container.datum? with
  | some (.record r) =>
    match (h.record r).get? name with
    | some v => return v
    | none => throw (.missingField name)
  | _ => throw (.noFields kind)

/-- Stores a field of a record, and gives what has been stored. -/
def setField (container key value : Value) : HeapM Value := do
  let kind ← HeapM.look fun _ => container.kind
  let name ← HeapM.look fun h => fieldName h key
  match container.datum? with
  | some (.record r) =>
    let stored ← value.convert
    modify (·.setField r name stored)
    return stored
  | _ => throw (.noFields kind)

end Value

end DynScript
