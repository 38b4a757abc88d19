import DynScript.Compile
import DynScript.Value.Access
import DynScript.World

/-!
# The machine

Scripts are run by a machine that takes one small step at a time.  Its *control* says what is to be done
next: evaluate an expression, execute a statement, give a value to whoever waits for it, call a
function, or look for the one who handles a jump or an error.
-/

namespace DynScript

/-- The variables of a block, a call, a record under construction or an interpreter, by the numbers of
their slots, and the frame around it. -/
structure Frame where
  parent : Option Ref := none
  cells : List (Nat × Value) := []
  deriving Inhabited

namespace Frame

/-- The value of a variable. -/
def get? (f : Frame) (id : Nat) : Option Value :=
  f.cells.lookup id

/-- Changes a variable. -/
def set (f : Frame) (id : Nat) (v : Value) : Frame :=
  { f with cells := f.cells.map fun c => if c.1 = id then (id, v) else c }

/-- Adds null variables for the slots that the frame has none for. -/
def extend (f : Frame) (slots : List Slot) : Frame :=
  slots.foldl
    (fun f s => if (f.get? s.id).isSome then f else { f with cells := f.cells ++ [(s.id, .null)] }) f

/-- A frame with a variable for each slot, all null. -/
def fresh (parent : Option Ref) (slots : List Slot) : Frame :=
  Frame.extend { parent := parent } slots

end Frame

/-- A variable: a frame and the number of a slot in it. -/
structure Cell where
  frame : Ref
  id : Nat
  deriving DecidableEq, Repr, Inhabited

/-- The nested calls that an interpreter allows unless told otherwise. -/
def defaultLimit : Int := 900

/-- An interpreter: the calls it allows to be nested, those that are at present, its global frame,
whether it looks native functions up in the registry again when they are called, and the warnings
that its runs have collected. -/
structure Interpreter where
  limit : Int := defaultLimit
  depth : Nat := 0
  globals : Ref
  relinks : Bool := true
  warnings : Array String := #[]
  deriving Inhabited

/-- What a call is a call of: a value, or a native function that the script names. -/
inductive Callee where
  | value (v : Value)
  | native (f : NativeFunction)

/-- What is pending while a part of it is evaluated or executed. -/
inductive Pending where
  | box (place : Location)
  | unbox
  | arrayItem (before : List Value) (rest : List Expr) (frame : Ref) (place : Location)
  | recordField (record : Ref) (name : String) (rest : List (String × Expr)) (frame : Ref)
      (place : Location)
  | binaryLeft (op : BinaryOp) (right : Expr) (frame : Ref) (place : Location)
  | binaryRight (op : BinaryOp) (left : Value) (place : Location)
  | logicalLeft (op : LogicalOp) (right : Expr) (frame : Ref)
  | logicalRight (op : LogicalOp) (left : Bool)
  | unary (op : UnaryOp) (place : Location)
  | ternary (first second : Expr) (frame : Ref)
  | storeVariable (cell : Cell) (old : Option (BinaryOp × Value)) (place : Location)
  | assignIndexContainer (index : Expr) (update : Update) (frame : Ref) (place : Location)
  | assignIndex (container : Value) (update : Update) (frame : Ref) (place : Location)
  | storeIndex (container index : Value) (old : Option (BinaryOp × Value)) (place : Location)
  | assignFieldContainer (key : Expr) (update : Update) (frame : Ref) (place : Location)
  | assignField (container : Value) (update : Update) (frame : Ref) (place : Location)
  | storeField (container key : Value) (old : Option (BinaryOp × Value)) (place : Location)
  | callee (arguments : List Expr) (frame : Ref) (place : Location)
  | argument (callee : Callee) (before : List Value) (rest : List Expr) (frame : Ref)
      (place : Location)
  | indexContainer (index : Expr) (frame : Ref) (place : Location)
  | index (container : Value) (place : Location)
  | fieldContainer (key : Expr) (frame : Ref) (place : Location)
  | field (container : Value) (place : Location)
  | declare (slot : Slot) (frame : Ref) (place : Location)
  | print (place : Location)
  | block (b : Block) (rest : List Stmt) (frame : Ref)
  | branch (first : Stmt) (second : Option Stmt) (frame : Ref)
  | discard
  | loopTest (condition : Expr) (body : Stmt) (step : Option Expr) (exit next : Label) (frame : Ref)
  | loopBody (condition : Expr) (body : Stmt) (step : Option Expr) (exit next : Label) (frame : Ref)
  | loopStep (condition : Expr) (body : Stmt) (step : Option Expr) (exit next : Label) (frame : Ref)
  | jumpValue (target : Label)
  | call (exit : Label) (owner caller : Ref) (place : Option Location)
  | run (caller : Ref)
  | site (place : Option Location)

/-- What is to be done next. -/
inductive Control where
  | eval (e : Expr) (frame : Ref)
  | exec (s : Stmt) (frame : Ref)
  | give (v : Value)
  | apply (callee : Callee) (arguments : List Value) (place : Option Location)
  | jump (target : Label) (v : Value)
  | raise (e : RuntimeError)

/-- The state of the machine.  The warnings of a run go to the interpreters in `collectors`, those of
the runs that are under way. -/
structure Machine where
  heap : Heap := {}
  frames : Array Frame := #[]
  interpreters : Array Interpreter := #[]
  current : Ref := 0
  collectors : List Ref := []
  registry : Registry := .standard
  supply : Supply := {}
  world : World := {}
  control : Control := .give .nothing
  stack : List Pending := []

instance : Inhabited Machine := ⟨{}⟩

namespace Machine

/-! ### Control -/

/-- Says what is to be done next. -/
def go (m : Machine) (c : Control) : Machine :=
  { m with control := c }

/-- Hands on a value. -/
def give (m : Machine) (v : Value) : Machine :=
  m.go (.give v)

/-- Raises an error. -/
def raise (m : Machine) (fault : Fault) (place : Option Location) : Machine :=
  m.go (.raise { fault := fault, location := place })

/-- Evaluates an expression for what is then pending. -/
def eval (m : Machine) (e : Expr) (frame : Ref) (pending : Pending) : Machine :=
  { m with control := .eval e frame, stack := pending :: m.stack }

/-- Executes a statement for what is then pending. -/
def exec (m : Machine) (s : Stmt) (frame : Ref) (pending : Pending) : Machine :=
  { m with control := .exec s frame, stack := pending :: m.stack }

/-- Gives the outcome of an operation that only looks at the heap. -/
def look (m : Machine) (f : Heap → Except Fault Value) (place : Location) : Machine :=
  match f m.heap with
  | .ok v => m.give v
  | .error e => m.raise e place

/-- Runs an operation on the heap and goes on with its outcome. -/
def onHeap {α : Type} (m : Machine) (f : HeapM α) (place : Option Location)
    (next : Machine → α → Machine) : Machine :=
  match m with
  | ⟨heap, frames, interpreters, current, collectors, registry, supply, world, control, stack⟩ =>
    match f heap with
    | .ok a heap =>
      next ⟨heap, frames, interpreters, current, collectors, registry, supply, world, control,
        stack⟩ a
    | .error e heap =>
      (Machine.mk heap frames interpreters current collectors registry supply world control
        stack).raise e place

theorem onHeap_eq {α : Type} (m : Machine) (f place) (next : Machine → α → Machine) :
    m.onHeap f place next =
      match f m.heap with
      | .ok a h => next { m with heap := h } a
      | .error e h => ({ m with heap := h } : Machine).raise e place := by
  cases m
  rfl

/-! ### Frames -/

/-- Makes a frame. -/
def newFrame (m : Machine) (f : Frame) : Ref × Machine :=
  (m.frames.size, { m with frames := m.frames.push f })

/-- The variable of a slot as seen from a frame, in at most `depth` frames around it. -/
def cellWithin (frames : Array Frame) (id : Nat) : (depth : Nat) → Ref → Option Cell
  | 0, _ => none
  | depth + 1, r =>
    let frame := frames.getD r {}
    if (frame.get? id).isSome then some ⟨r, id⟩
    else frame.parent.bind (cellWithin frames id depth)

/-- The variable of a slot as seen from a frame. -/
def cell? (m : Machine) (slot : Slot) (frame : Ref) : Option Cell :=
  cellWithin m.frames slot.id (m.frames.size + 1) frame

/-- Reads a variable. -/
def load (m : Machine) (c : Cell) : Value :=
  ((m.frames.getD c.frame {}).get? c.id).getD .null

/-- Writes a variable. -/
def store (m : Machine) (c : Cell) (v : Value) : Machine :=
  { m with frames := m.frames.modify c.frame fun f => f.set c.id v }

/-! ### Interpreters -/

/-- The interpreter under a reference. -/
def interpreter (m : Machine) (r : Ref) : Interpreter :=
  m.interpreters.getD r { globals := 0 }

/-- Changes an interpreter. -/
def updateInterpreter (m : Machine) (r : Ref) (f : Interpreter → Interpreter) : Machine :=
  { m with interpreters := m.interpreters.modify r f }

/-- Makes an interpreter with an empty global frame. -/
def newInterpreter (m : Machine) (limit : Int) (relinks : Bool) : Ref × Machine :=
  let (globals, m) := m.newFrame {}
  (m.interpreters.size, { m with
    interpreters := m.interpreters.push { limit := limit, globals := globals, relinks := relinks } })

/-! ### The world -/

/-- Changes the world. -/
def onWorld (m : Machine) (f : World → World) : Machine :=
  { m with world := f m.world }

/-- Takes something from the world. -/
def fromWorld {α : Type} (m : Machine) (f : World → α × World) : α × Machine :=
  let (a, w) := f m.world
  (a, { m with world := w })

/-- Logs a warning and hands it to all interpreters with a run under way. -/
def warn (m : Machine) (w : Warning) : Machine :=
  let text := w.text
  let m := m.onWorld (·.send [⟨.warning, .machine, text⟩])
  m.collectors.foldl
    (fun m r => m.updateInterpreter r fun i => { i with warnings := i.warnings.push text }) m

end Machine

end DynScript
