import DynScript.Machine.Step

/-!
# Runs

Compiling a source text, running a program and calling a function on a machine.  The machine is at
rest before and after.  Since a script need not come to an end, the number of steps is bounded by
the `fuel`; a run that needs more is unfinished.

The host works on a stack of its own, which the parts of a run are nested on.  Where it has no room for
them, the innermost run ends in an error.
-/

namespace DynScript

/-- Why a run gives no value. -/
inductive RunError where
  | parse (failure : ParseFailure)
  | runtime (e : RuntimeError)
  | unfinished

/-- The activations of the host that a pending part keeps open: one that finds out what it is, one that
does its work, one more for the statements of a block, and three more for a call. -/
def Pending.frames : Pending → Nat
  | .block .. => 3
  | .call .. => 5
  | _ => 2

/-- The stack of a host: whether it has room for a state of the machine. -/
structure HostStack where
  holds : Machine → Bool

namespace Machine

/-- Compiles a source text with the native functions of the machine. -/
def compile (m : Machine) (source : String) (options : CompileOptions) (linked : List Slot) :
    Except ParseFailure CompiledUnit × Machine :=
  let c := DynScript.compile source options m.registry linked m.supply
  (c.result, { m with supply := c.supply, world := m.world.send c.log })

/-- Lets a machine work until it is at rest. -/
def finish (rules : Rules) (fuel : Nat) (m : Machine) : Except RunError Value × Machine :=
  let m := m.steps rules fuel
  match m.outcome? with
  | some (.ok v) => (.ok v, m)
  | some (.error e) => (.error (.runtime e), m)
  | none => (.error .unfinished, m)

/-- A machine at rest, whatever it was about to do. -/
def atRest (m : Machine) : Machine :=
  { m with stack := [], collectors := [], control := .give .nothing }

/-- Gives up what is pending on a stack up to the innermost run, which ends in an error that has no
place. -/
def overflow (m : Machine) : List Pending → Machine
  | [] => ({ m with stack := [] }).raise .hostStack none
  | .run caller :: stack => (({ m with stack := stack }).leaveRun caller).raise .hostStack none
  | .call _ owner caller _ :: stack => (m.leaveCall owner caller).overflow stack
  | _ :: stack => m.overflow stack

/-- Takes steps on the stack of a host.  A step to a state that it has no room for is not taken; an error
on its way out needs no room. -/
def stepsWithin (rules : Rules) (host : HostStack) : (fuel : Nat) → Machine → Machine
  | 0, m => m
  | fuel + 1, m =>
    if m.outcome?.isSome then m
    else if host.holds (m.step rules) then stepsWithin rules host fuel (m.step rules)
    else (m.overflow m.stack).steps rules fuel

/-- Runs a program on an interpreter; its value is that of its last statement.  The host has room for
everything unless its stack is given. -/
def run (rules : Rules) (fuel : Nat) (m : Machine) (i : Ref) (p : Program)
    (stack : Option HostStack := none) : Except RunError Value × Machine :=
  let m := m.atRest.startRun i p
  match stack with
  | none => m.finish rules fuel
  | some host => (m.stepsWithin rules host fuel).finish rules 0

/-- Calls a function on a machine at rest. -/
def invoke (rules : Rules) (fuel : Nat) (m : Machine) (f : Value) (arguments : List Value) :
    Except RunError Value × Machine :=
  (m.atRest.go (.apply (.value f) arguments none)).finish rules fuel

/-- Compiles a source text and runs it unless something is wrong with it. -/
def runSource (rules : Rules) (fuel : Nat) (m : Machine) (i : Ref) (source : String)
    (options : CompileOptions) (stack : Option HostStack := none) : Except RunError Value × Machine :=
  match m.compile source options [] with
  | (.error e, m) => (.error (.parse e), m)
  | (.ok u, m) =>
    if u.ok then m.run rules fuel i u.program stack
    else (.error (.parse (.error { fault := .failedUnit u.errorCount })), m)

/-- Makes an interpreter forget its global variables. -/
def reset (m : Machine) (i : Ref) : Machine :=
  let (globals, m) := m.newFrame {}
  m.updateInterpreter i fun n => { n with globals := globals }

/-- The reference of a machine's first interpreter. -/
def mainInterpreter : Ref := 0

/-- A fresh machine. -/
def initial (registry : Registry) (supply : Supply) (world : World) (limit : Int)
    (relinks : Bool) : Machine :=
  let blank : Machine := { registry := registry, supply := supply, world := world }
  (blank.newInterpreter limit relinks).2

/-! ### The stack of the host -/

/-- The activations that a run asks of the host for each nested call that it allows, and for the rest. -/
def framesPerCall : Int := 16

/-- Room that a run asks for besides its calls. -/
def spareFrames : Int := 1000

/-- The activations that the host allows, if it allows `size` of its own accord and the runs under way
have asked for more. -/
def framesAllowed (m : Machine) (size : Nat) : Int :=
  m.collectors.foldr (fun i n => max n ((m.interpreter i).limit * framesPerCall + spareFrames)) size

end Machine

/-- A stack with room for `size` activations, or for more if a run asks for them.  It is looked at where a
function is entered; in between, code can nest no deeper than it is written. -/
def HostStack.ofSize (size : Nat) : HostStack where
  holds m :=
    match m.stack with
    | .call .. :: _ => m.stack.foldl (fun n p => n + (p.frames : Int)) 0 ≤ m.framesAllowed size
    | _ => true

end DynScript
