import DynScript.Diagnostic
import DynScript.Text.EditDistance
import DynScript.Text.LowerCase

/-!
# Scopes

A scope binds names to variable slots and names to labels, each in the order of declaration.  Slots
and labels are told apart by their numbers: two declarations never share one, even when they use
the same name.
-/

namespace DynScript

/-- A variable of compiled code. -/
structure Slot where
  name : String
  constant : Bool := false
  location : Option Location := none
  id : Nat
  deriving DecidableEq, Repr, Inhabited

/-- How a slot is shown. -/
def Slot.text (s : Slot) : String :=
  s!"{s.name}#{s.id}"

/-- What a label is for. -/
inductive LabelKind where
  | breakLoop
  | continueLoop
  | returnCall
  | user
  deriving DecidableEq, Repr, Inhabited

/-- The word for a kind of label; reserved labels are also named by it. -/
def LabelKind.word : LabelKind → String
  | .breakLoop => "break"
  | .continueLoop => "continue"
  | .returnCall => "return"
  | .user => "label"

/-- A target of jumps. -/
structure Label where
  name : String
  kind : LabelKind
  id : Nat
  deriving DecidableEq, Repr, Inhabited

/-- How a label is shown. -/
def Label.text (l : Label) : String :=
  s!"{l.name}@{l.id}"

/-- A label as its scope knows it.  A label found by looking ahead in its block is not `placed`
until its declaration is reached. -/
structure LabelEntry where
  label : Label
  location : Option Location := none
  placed : Bool := false
  deriving DecidableEq, Repr, Inhabited

/-- What a scope belongs to. -/
inductive ScopeKind where
  | linked
  | global
  | block
  | function
  | loop
  | record
  deriving DecidableEq, Repr, Inhabited

namespace ScopeKind

/-- The word for a kind of scope. -/
def word : ScopeKind → String
  | linked => "linked"
  | global => "global"
  | block => "block"
  | function => "function"
  | loop => "loop"
  | record => "record"

/-- The kind of scope with a word. -/
def ofWord? (s : String) : Option ScopeKind :=
  [linked, global, block, function, loop, record].find? (·.word = s)

/-- The two kinds at the foot of the scope stack, which are never left. -/
def isRoot : ScopeKind → Bool
  | linked | global => true
  | _ => false

end ScopeKind

/-- The variables and labels of a scope. -/
structure Scope where
  kind : ScopeKind
  slots : List Slot := []
  labels : List LabelEntry := []
  deriving DecidableEq, Repr, Inhabited

namespace Scope

/-- The slot that this scope itself binds to `name`. -/
def slot? (s : Scope) (name : String) : Option Slot :=
  s.slots.find? (·.name = name)

/-- The label that this scope itself binds to `name`. -/
def label? (s : Scope) (name : String) : Option LabelEntry :=
  s.labels.find? (·.label.name = name)

/-- Adds a slot. -/
def addSlot (s : Scope) (slot : Slot) : Scope :=
  { s with slots := s.slots ++ [slot] }

/-- Adds a label. -/
def addLabel (s : Scope) (entry : LabelEntry) : Scope :=
  { s with labels := s.labels ++ [entry] }

/-- Binds a slot to its name, taking the place of an earlier one of that name. -/
def link (s : Scope) (slot : Slot) : Scope :=
  if (s.slot? slot.name).isSome then
    { s with slots := s.slots.map fun v => if v.name = slot.name then slot else v }
  else s.addSlot slot

/-- How a scope is shown. -/
def text (s : Scope) : String :=
  s!"Scope({s.kind.word}, {s.slots.length} variables, {s.labels.length} labels)"

end Scope

/-- What can go wrong in the scope stack: a name declared twice in one scope, or a step out of a
scope that is never left. -/
inductive ScopeError where
  | variableDeclared (name : String) (location : Option Location)
  | labelDeclared (name : String) (location : Option Location)
  | cannotLeave (kind : ScopeKind)
  deriving DecidableEq, Repr

namespace ScopeError

/-- The report on a name declared twice, `what` being the capitalised and the plain word for what
it names. -/
def redeclared (capital what name code : String) (location : Option Location) : Diagnostic :=
  { message := s!"{capital} '{name}' is already declared in this scope."
    location := location
    code := code
    help := s!"Rename the {what} or declare it in a nested block." }

/-- The diagnostic of an objection. -/
def diagnostic : ScopeError → Diagnostic
  | variableDeclared name location => redeclared "Variable" "variable" name "S001" location
  | labelDeclared name location => redeclared "Label" "label" name "S002" location
  | cannotLeave kind => { message := s!"Cannot step out of the {kind.word} scope." }

end ScopeError

end DynScript
