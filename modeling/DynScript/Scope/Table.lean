import DynScript.Scope

/-!
# The scope table

The stack of scopes that names are resolved in: at its foot the scope of linked names, above it the
global scope, above that the scopes entered and not yet left.
-/

namespace DynScript

/-- A stack of scopes, the innermost one first, over the linked and the global scope. -/
structure ScopeTable where
  linked : Scope := { kind := .linked }
  globals : Scope := { kind := .global }
  inner : List Scope := []
  nextSlot : Nat := 1
  nextLabel : Nat := 1
  deriving DecidableEq, Repr, Inhabited

namespace ScopeTable

/-- The scopes from the innermost one on. -/
def chain (t : ScopeTable) : List Scope :=
  t.inner ++ [t.globals, t.linked]

/-- The innermost scope. -/
def current (t : ScopeTable) : Scope :=
  t.inner.headD t.globals

/-- Replaces the innermost scope. -/
def setCurrent (t : ScopeTable) (s : Scope) : ScopeTable :=
  match t.inner with
  | [] => { t with globals := s }
  | _ :: rest => { t with inner := s :: rest }

/-- The number of scopes entered. -/
def depth (t : ScopeTable) : Nat :=
  t.inner.length

/-- Starts over from a linked scope with the given slots and an empty global scope; the numbers go
on. -/
def reset (t : ScopeTable) (slots : List Slot) : ScopeTable :=
  { linked := slots.foldl Scope.link { kind := .linked }
    nextSlot := t.nextSlot
    nextLabel := t.nextLabel }

/-! ### Entering and leaving -/

/-- Enters a scope. -/
def enter (t : ScopeTable) (kind : ScopeKind) : ScopeTable :=
  { t with inner := { kind := kind } :: t.inner }

/-- Leaves the current scope, which is given back. -/
def leave (t : ScopeTable) : Except ScopeError (Scope × ScopeTable) :=
  match t.inner with
  | [] => .error (.cannotLeave .global)
  | s :: rest =>
    if s.kind.isRoot then .error (.cannotLeave s.kind) else .ok (s, { t with inner := rest })

/-- The scopes left on a stack when it is taken down to `depth`, and what stopped that. -/
def unwound (depth : Int) : List Scope → List Scope × Option ScopeError
  | [] => ([], if depth < 0 then some (.cannotLeave .global) else none)
  | s :: rest =>
    if depth < rest.length + 1 then
      if s.kind.isRoot then (s :: rest, some (.cannotLeave s.kind)) else unwound depth rest
    else (s :: rest, none)

/-- Leaves scopes until `depth` of them are left. -/
def unwindTo (t : ScopeTable) (depth : Int) : ScopeTable × Option ScopeError :=
  let (inner, stopped) := unwound depth t.inner
  ({ t with inner := inner }, stopped)

/-! ### Variables -/

/-- Hands out a slot. -/
def newSlot (t : ScopeTable) (name : String) (location : Option Location) (constant : Bool) :
    Slot × ScopeTable :=
  (⟨name, constant, location, t.nextSlot⟩, { t with nextSlot := t.nextSlot + 1 })

/-- Declares a variable. -/
def define (t : ScopeTable) (name : String) (location : Option Location) (constant : Bool) :
    Except ScopeError Slot × ScopeTable :=
  let (slot, t) := t.newSlot name location constant
  let scope := t.current
  if (scope.slot? name).isSome then (.error (.variableDeclared name location), t)
  else (.ok slot, t.setCurrent (scope.addSlot slot))

/-- Resolves a name from the innermost scope outwards. -/
def lookup (t : ScopeTable) (name : String) : Option Slot :=
  t.chain.findSome? (·.slot? name)

/-- The names in sight, the innermost scope first; a name hidden by another one is listed too. -/
def names (t : ScopeTable) : List String :=
  t.chain.flatMap fun s => s.slots.map (·.name)

/-- At most five names in sight within `limit` edits of `name`, upper and lower case being the same;
the nearest come first, and of equally near ones the innermost. -/
def similar (t : ScopeTable) (name : String) (limit : Int) : List String :=
  let wanted := (Text.lower name).toList
  let measured := t.names.eraseDups.map fun n => (n, Text.editDistance wanted (Text.lower n).toList)
  let near := measured.filter fun m => (m.2 : Int) ≤ limit
  ((near.mergeSort fun a b => a.2 ≤ b.2).take 5).map (·.1)

/-- How far a suggested name may be from the one that was meant. -/
def suggestionLimit : Int := 2

/-! ### Labels -/

/-- Declares a label. -/
def defineLabel (t : ScopeTable) (name : String) (kind : LabelKind) (location : Option Location)
    (placed : Bool) : Except ScopeError LabelEntry × ScopeTable :=
  let entry : LabelEntry := ⟨⟨name, kind, t.nextLabel⟩, location, placed⟩
  let t := { t with nextLabel := t.nextLabel + 1 }
  let scope := t.current
  if (scope.label? name).isSome then (.error (.labelDeclared name location), t)
  else (.ok entry, t.setCurrent (scope.addLabel entry))

/-- Binds a new end of loop, step of loop or end of call in the current scope. -/
def reserve (t : ScopeTable) (kind : LabelKind) : Except ScopeError LabelEntry × ScopeTable :=
  t.defineLabel kind.word kind none true

/-- Announces a label whose declaration lies further on in the current block. -/
def announce (t : ScopeTable) (name : String) (location : Option Location) :
    Except ScopeError LabelEntry × ScopeTable :=
  t.defineLabel name .user location false

/-- Places the label of a declaration: the one announced, or a new one. -/
def place (t : ScopeTable) (name : String) (location : Option Location) :
    Except ScopeError LabelEntry × ScopeTable :=
  match t.current.label? name with
  | none => t.defineLabel name .user location true
  | some entry =>
    if entry.placed then (.error (.labelDeclared name location), t)
    else
      let entry := { entry with location := location, placed := true }
      let scope := t.current
      (.ok entry, t.setCurrent
        { scope with labels := scope.labels.map fun e => if e.label = entry.label then entry else e })

/-- The label of that name in the first of the scopes that has one, but not beyond the scope of a
function: no jump leaves a function. -/
def labelIn (name : String) : List Scope → Option LabelEntry
  | [] => none
  | s :: rest =>
    match s.label? name with
    | some entry => some entry
    | none => if s.kind = .function then none else labelIn name rest

/-- The label that a name leads to. -/
def lookupLabel (t : ScopeTable) (name : String) : Option LabelEntry :=
  labelIn name t.chain

/-- A summary for messages. -/
def text (t : ScopeTable) : String :=
  s!"SymbolTable(depth: {t.depth}, current: {t.current.text})"

end ScopeTable

end DynScript
