import DynScript.Machine.Run

/-!
# Sessions

A session runs several units on one interpreter.  The names that a unit exports are known to all
later ones, and their values stay as the units leave them.  A function can be called by the name
under which it was exported, and native functions can be added at any time.
-/

namespace DynScript

/-- A machine at rest with the names that its units have exported. -/
structure Session where
  machine : Machine
  exported : List Slot := []

namespace Session

/-- Adds an exported name; a later one takes the place of an earlier one. -/
def addName (slots : List Slot) (slot : Slot) : List Slot :=
  if slots.any (·.name = slot.name) then
    slots.map fun s => if s.name = slot.name then slot else s
  else slots ++ [slot]

/-- Compiles a unit and exports its names, also when something is wrong with it. -/
def compile (s : Session) (source : String) (options : CompileOptions) (linked : Bool) :
    Except ParseFailure CompiledUnit × Session :=
  match s.machine.compile source options (if linked then s.exported else []) with
  | (.error e, m) => (.error e, { s with machine := m })
  | (.ok u, m) => (.ok u, { machine := m, exported := u.exported.foldl addName s.exported })

/-- Keeps the machine that an action leaves. -/
def settle {α : Type} (s : Session) (outcome : α × Machine) : α × Session :=
  (outcome.1, { s with machine := outcome.2 })

/-- Runs a unit. -/
def run (rules : Rules) (fuel : Nat) (s : Session) (u : CompiledUnit)
    (stack : Option HostStack := none) : Except RunError Value × Session :=
  s.settle (s.machine.run rules fuel Machine.mainInterpreter u.program stack)

/-- Compiles and runs a source text on its own: no names are linked or exported. -/
def runSource (rules : Rules) (fuel : Nat) (s : Session) (source : String)
    (options : CompileOptions) (stack : Option HostStack := none) : Except RunError Value × Session :=
  s.settle (s.machine.runSource rules fuel Machine.mainInterpreter source options stack)

/-- The interpreter of the session. -/
def interpreter (s : Session) : Interpreter :=
  s.machine.interpreter Machine.mainInterpreter

/-- The value of a global variable. -/
def value (s : Session) (name : String) : Except RuntimeError Value :=
  let unbound := .error { fault := .unbound name }
  match s.exported.find? (·.name = name) with
  | none => unbound
  | some slot =>
    match s.machine.cell? slot s.interpreter.globals with
    | none => unbound
    | some c => .ok (s.machine.load c)

/-- Calls a global function. -/
def call (rules : Rules) (fuel : Nat) (s : Session) (name : String) (arguments : List Value) :
    Except RunError Value × Session :=
  match s.value name with
  | .error e => (.error (.runtime e), s)
  | .ok f => s.settle (s.machine.invoke rules fuel f arguments)

/-- Adds a native function. -/
def register (s : Session) (name : String) (f : NativeFunction) (arity : Option Int) :
    NativeFunction × Session :=
  let (f, registry) := s.machine.registry.register name f arity
  (f, { s with machine := { s.machine with registry := registry } })

/-- Forgets the global variables. -/
def reset (s : Session) : Session :=
  { s with machine := s.machine.reset Machine.mainInterpreter }

/-- The global variables in the order of the numbers of their slots. -/
def globals (s : Session) : List (Nat × Value) :=
  (s.machine.frames.getD s.interpreter.globals {}).cells.mergeSort fun a b => a.1 ≤ b.1

end Session

end DynScript
