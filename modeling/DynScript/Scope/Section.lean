import DynScript.Scope.Table

/-!
# Sections

The actions on a scope table as data, so that whole sequences of them can be spoken of.  A *section*
carries out a sequence of actions in a scope of its own; however the sequence ends, the scopes it has
entered are left again.
-/

namespace DynScript

/-- What can be done to a scope table. -/
inductive ScopeAction where
  | enter (kind : ScopeKind)
  | leave
  | unwind (depth : Int)
  | define (name : String) (location : Option Location) (constant : Bool)
  | lookup (name : String)
  | similar (name : String) (limit : Int)
  | names
  | exported
  | reserve (kind : LabelKind)
  | announce (name : String) (location : Option Location)
  | place (name : String) (location : Option Location)
  | lookupLabel (name : String)
  | reset (linked : List String)
  deriving DecidableEq, Repr, Inhabited

/-- An action, or a section with a scope of the given kind. -/
inductive ScopeStep where
  | act (a : ScopeAction)
  | nest (kind : ScopeKind) (body : List ScopeStep)
  deriving Inhabited

/-- What an action gives. -/
inductive ScopeAnswer where
  | done
  | scope (s : Scope)
  | slot (s : Option Slot)
  | label (entry : Option LabelEntry)
  | names (l : List String)
  | slots (l : List Slot)
  | nested (scope : Scope) (answers : List ScopeAnswer)

/-- A section under way: how many scopes lie below its own scope, that scope as it was last, and
whether it has been left already. -/
structure OpenSection where
  below : Nat
  scope : Scope
  left : Bool := false

namespace ScopeTable

/-- Hands out several slots. -/
def newSlots (t : ScopeTable) : List String → List Slot × ScopeTable
  | [] => ([], t)
  | name :: rest =>
    let (slot, t) := t.newSlot name none false
    let (slots, t) := t.newSlots rest
    (slot :: slots, t)

/-- Looks at the scope of a section under way after an action. -/
def observe (t : ScopeTable) (s : OpenSection) : OpenSection :=
  if s.left then s
  else match t.inner.reverse[s.below]? with
    | some scope => { s with scope := scope }
    | none => { s with left := true }

/-- Carries out an action. -/
def act (t : ScopeTable) : ScopeAction → Except ScopeError ScopeAnswer × ScopeTable
  | .enter kind =>
    let t := t.enter kind
    (.ok (.scope t.current), t)
  | .leave =>
    match t.leave with
    | .ok (s, t) => (.ok (.scope s), t)
    | .error e => (.error e, t)
  | .unwind depth =>
    match t.unwindTo depth with
    | (t, none) => (.ok .done, t)
    | (t, some e) => (.error e, t)
  | .define name location constant =>
    let (r, t) := t.define name location constant
    (r.map fun s => .slot (some s), t)
  | .lookup name => (.ok (.slot (t.lookup name)), t)
  | .similar name limit => (.ok (.names (t.similar name limit)), t)
  | .names => (.ok (.names t.names), t)
  | .exported => (.ok (.slots t.globals.slots), t)
  | .reserve kind =>
    let (r, t) := t.reserve kind
    (r.map fun entry => .label (some entry), t)
  | .announce name location =>
    let (r, t) := t.announce name location
    (r.map fun entry => .label (some entry), t)
  | .place name location =>
    let (r, t) := t.place name location
    (r.map fun entry => .label (some entry), t)
  | .lookupLabel name => (.ok (.label (t.lookupLabel name)), t)
  | .reset linked =>
    let (slots, t) := t.newSlots linked
    (.ok .done, t.reset slots)

end ScopeTable

/-- A scope table together with the sections under way, the innermost one first. -/
structure SectionState where
  table : ScopeTable
  sections : List OpenSection := []

namespace SectionState

/-- Replaces the table, which the sections under way take notice of. -/
def withTable (s : SectionState) (t : ScopeTable) : SectionState :=
  { table := t, sections := s.sections.map t.observe }

/-- Starts a section. -/
def start (s : SectionState) (kind : ScopeKind) : SectionState :=
  let t := s.table.enter kind
  { table := t, sections := ⟨s.table.depth, t.current, false⟩ :: s.sections }

/-- Ends the innermost section, which has been started over `depth` scopes: leaves the scopes above
them, and gives the scope of the section and what went wrong in leaving. -/
def finish (s : SectionState) (depth : Nat) : Scope × Option ScopeError × SectionState :=
  match s.sections with
  | [] => (s.table.current, none, s)
  | own :: rest =>
    let (t, stopped) := s.table.unwindTo depth
    (own.scope, stopped, { table := t, sections := rest })

end SectionState

mutual

/-- Carries out a step.  A failing step ends the sections around it; an error in leaving the scopes
of a section takes the place of the error that ended it. -/
def ScopeStep.perform (s : SectionState) : ScopeStep → Except ScopeError ScopeAnswer × SectionState
  | .act action =>
    let (r, t) := s.table.act action
    (r, s.withTable t)
  | .nest kind body =>
    let (r, inside) := ScopeStep.performAll (s.start kind) body
    let (scope, stopped, s) := inside.finish s.table.depth
    match stopped with
    | some e => (.error e, s)
    | none => (r.map (.nested scope), s)

/-- Performs steps one by one. -/
def ScopeStep.performAll (s : SectionState) :
    List ScopeStep → Except ScopeError (List ScopeAnswer) × SectionState
  | [] => (.ok [], s)
  | step :: rest =>
    match step.perform s with
    | (.error e, s) => (.error e, s)
    | (.ok answer, s) =>
      let (r, s) := ScopeStep.performAll s rest
      (r.map (answer :: ·), s)

end

end DynScript
