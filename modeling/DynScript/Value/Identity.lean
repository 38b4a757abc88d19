import DynScript.Value.Access

/-!
# Telling boxes apart

Two boxes may hold the same datum and still be two.  A host that keeps values from one call to the next
can tell them apart by their marks: a box that has none is given one that no other box has, and keeps it
wherever it is handed on or stored.
-/

namespace DynScript

namespace Datum

/-- Whether there is only one box with this datum. -/
def isSingle : Datum → Bool
  | null | bool _ => true
  | _ => false

end Datum

namespace Value

/-- Gives a box a mark of its own. -/
def marked : Value → HeapM Value
  | .boxed d 0 => HeapM.make fun h => (.boxed d (h.marks + 1), { h with marks := h.marks + 1 })
  | v => return v

/-- Whether two values are one and the same.  Raw containers and functions are told apart by their
references; of raw numbers and texts this cannot be told, so they count as two. -/
def same : Value → Value → Bool
  | .boxed d m, .boxed e n => if d.isSingle then d.equal e else m ≠ 0 && m == n
  | .raw d, .raw e => (d.isSingle || !d.isScalar) && d.equal e
  | .alien (.tuple r), .alien (.tuple s) => r == s
  | .alien (.function r _), .alien (.function s _) => r == s
  | _, _ => false

end Value

/-- Gives the boxes in a record that have no mark a new one. -/
def Record.marked (r : Record) : HeapM Record := do
  return ⟨← r.fields.mapM fun (key, v) => do return (key, ← v.marked)⟩

/-- Gives every box in an array or record that has no mark a new one. -/
def HeapM.markAll : HeapM Unit := do
  let arrays ← (← get).arrays.mapM (·.mapM Value.marked)
  let records ← (← get).records.mapM Record.marked
  modify fun h => { h with arrays := arrays, records := records }

namespace Value

/-- Stores an item of an array, and gives the box that stands there from then on. -/
def putIndex (container index value : Value) : HeapM Value := do
  let _ ← container.setIndex index value
  HeapM.markAll
  HeapM.look fun h => container.getIndex h index

/-- Stores a field of a record, and gives the box that stands there from then on.  The key stands
for the name that it had before. -/
def putField (container key value : Value) : HeapM Value := do
  let before ← get
  let _ ← container.setField key value
  HeapM.markAll
  HeapM.look fun h => do container.getField h (.raw (.string (← fieldName before key)))

end Value

end DynScript
