import DynScript.Machine.Library

/-!
# Steps of the machine

`Machine.step` takes one step.  It does not recurse: what is to be done with the outcome of a part is
put on the stack and taken up again when that part has given its value.  A machine whose stack is
empty and that has a value to give, a jump or an error is at rest and stays as it is.
-/

namespace DynScript

/-- What a function of the application answers: a host value, an error, or a call of a function whose
outcome is its own. -/
inductive HostAnswer where
  | value (v : Value)
  | error (e : RuntimeError)
  | invoke (f : Value) (arguments : List Value)

/-- The meaning of the functions of the application: given the symbol of a function, the values it is
bound to and its arguments, it answers and may make new things in the heap.

This is a restriction on applications that everything said about machines with a host depends on: a
function of theirs calls at most one function, as the last thing it does.  It does not go on after that
call, does not catch its error, and does not write to the output or the log. -/
structure Host where
  call : (symbol : String) → (bound arguments : List Value) → Heap → HostAnswer × Heap

/-- An application without functions of its own. -/
def Host.none : Host :=
  ⟨fun symbol _ _ h => (.error { fault := .reported .general s!"No function [{symbol}]." }, h)⟩

/-- How the machine works: with which host, and whether it keeps every value boxed.  Constants and
the outcomes of logical operators are raw unless it does. -/
structure Rules where
  host : Host := .none
  alwaysBoxed : Bool := false

/-- The plain rules for a host. -/
instance : Coe Host Rules := ⟨fun host => { host }⟩

namespace Machine

variable (rules : Rules)

/-! ### Calls -/

/-- Enters a function of a script, which is known to itself as `self`. -/
def enter (m : Machine) (c : Closure) (self : Value) (arguments : List Value)
    (place : Option Location) : Machine :=
  let owner := m.interpreter c.owner
  if owner.limit ≤ owner.depth then m.raise (.tooDeep owner.limit c.code.name) place
  else
    let cells := (c.code.params.zip arguments).map fun (slot, v) => (slot.id, v)
    let own := c.code.self.toList.map fun slot => (slot.id, self)
    let (frame, m) := m.newFrame { parent := c.frame, cells := cells ++ own }
    let m := m.updateInterpreter c.owner fun i => { i with depth := i.depth + 1 }
    { m with
      stack := .call c.code.exit c.owner m.current place :: m.stack
      current := c.owner
      control := .exec (.block c.code.body) frame }

/-- Calls a function of the application. -/
def callHost (m : Machine) (symbol : String) (bound arguments : List Value)
    (place : Option Location) : Machine :=
  let (answer, heap) := rules.host.call symbol bound arguments m.heap
  let m := { m with heap := heap }
  match answer with
  | .value v => m.onHeap v.convert place fun m v => m.give v
  | .error e => m.go (.raise (e.withLocation place))
  | .invoke f arguments =>
    { m with control := .apply (.value f) arguments none, stack := .site place :: m.stack }

/-- Calls what can be called: too few arguments are an error, further ones are dropped, and all are
boxed. -/
def call (m : Machine) (c : Callable) (self : Value) (arguments : List Value)
    (place : Option Location) : Machine :=
  if arguments.length < c.arity then
    m.raise (.tooFewArguments c.name c.arity arguments.length) place
  else
    m.onHeap (arguments.mapM Value.convert) place fun m arguments =>
      let arguments := c.accepted arguments
      match c with
      | .closure c => m.enter c self arguments place
      | .native f =>
        match f.body with
        | .builtin b => m.callBuiltin b arguments place
        | .host symbol bound => m.callHost rules symbol bound arguments place

/-- Calls a function. -/
def apply (m : Machine) (callee : Callee) (arguments : List Value) (place : Option Location) :
    Machine :=
  match callee with
  | .native f => m.call rules (.native f) .null arguments place
  | .value v =>
    match v.kind with
    | .error e => m.raise e place
    | .ok kind =>
      match v.datum? with
      | some (.callable r) =>
        m.call rules (m.heap.function r) (.boxed (.callable r)) arguments place
      | _ => m.raise (.uncallable kind) place

/-- Evaluates the arguments of a call that are left, then calls. -/
def evalArguments (m : Machine) (callee : Callee) (before : List Value) (rest : List Expr)
    (frame : Ref) (place : Location) : Machine :=
  match rest with
  | [] => m.go (.apply callee before.reverse place)
  | e :: rest => m.eval e frame (.argument callee before rest frame place)

/-! ### Assignments -/

/-- What an assignment stores when its value is `v`, given the operator and the old value that it is
combined with. -/
def updated (h : Heap) (old : Option (BinaryOp × Value)) (v : Value) : Except Fault Value :=
  match old with
  | none => .ok v
  | some (op, old) => h.binary op old v

/-- Assigns a variable. -/
def storeVariable (m : Machine) (c : Cell) (v : Value) (place : Location) : Machine :=
  m.onHeap v.convert place fun m v => (m.store c v).give v

/-- Evaluates what an update stores: `current` reads the old value, `pending` waits for the new one
and `store` stores it. -/
def update (m : Machine) (u : Update) (frame : Ref) (place : Location)
    (current : Heap → Except Fault Value) (pending : Option (BinaryOp × Value) → Pending)
    (store : Machine → Value → Machine) : Machine :=
  match u with
  | .set e => m.eval e frame (pending none)
  | .combine op e =>
    match current m.heap with
    | .ok old => m.eval e frame (pending (some (op, old)))
    | .error f => m.raise f place
  | .step op =>
    match current m.heap with
    | .ok old =>
      match m.heap.unary op old with
      | .ok v => store m v
      | .error f => m.raise f place
    | .error f => m.raise f place

/-- Assigns an item. -/
def storeIndex (m : Machine) (container index v : Value) (place : Location) : Machine :=
  m.onHeap (container.setIndex index v) place fun m v => m.give v

/-- Assigns a field. -/
def storeField (m : Machine) (container key v : Value) (place : Location) : Machine :=
  m.onHeap (container.setField key v) place fun m v => m.give v

/-! ### Records -/

/-- Evaluates the fields of a record that are left, then gives the record. -/
def evalFields (m : Machine) (record : Ref) (rest : List (String × Expr)) (frame : Ref)
    (place : Location) : Machine :=
  match rest with
  | [] => m.giveDatum (.record record)
  | (name, e) :: rest => m.eval e frame (.recordField record name rest frame place)

/-! ### Expressions -/

/-- Goes on with a variable, if it is bound. -/
def withCell (m : Machine) (slot : Slot) (frame : Ref) (place : Location)
    (next : Cell → Machine) : Machine :=
  match m.cell? slot frame with
  | some c => next c
  | none => m.raise (.unbound slot.name) place

/-- Starts to evaluate an expression. -/
def stepEval (m : Machine) (e : Expr) (frame : Ref) : Machine :=
  match e with
  | .literal value _ => m.give (.wrap rules.alwaysBoxed value.datum)
  | .read slot place => m.withCell slot frame place fun c => m.give (m.load c)
  | .box inner => m.eval inner frame (.box inner.place)
  | .unbox inner => m.eval inner frame .unbox
  | .array [] _ => m.giveArray #[]
  | .array (item :: rest) place => m.eval item frame (.arrayItem [] rest frame place)
  | .record fields self place =>
    m.onHeap (HeapM.make (·.newRecord {})) none fun m r =>
      let (inner, m) := m.newFrame
        { parent := frame, cells := [(self.id, .boxed (.record r))] }
      m.evalFields r fields inner place
  | .function name params body exit self _ =>
    let closure : Closure := ⟨⟨name, params, body, exit, self⟩, frame, m.current⟩
    m.onHeap (HeapM.make (·.newFunction (.closure closure))) none fun m r =>
      m.giveDatum (.callable r)
  | .binary op left right place => m.eval left frame (.binaryLeft op right frame place)
  | .logical op left right _ => m.eval left frame (.logicalLeft op right frame)
  | .unary op operand place => m.eval operand frame (.unary op place)
  | .ternary condition first second _ => m.eval condition frame (.ternary first second frame)
  | .assignVariable slot u place =>
    m.withCell slot frame place fun c =>
      m.update u frame place (fun _ => .ok (m.load c)) (.storeVariable c · place)
        fun m v => m.storeVariable c v place
  | .assignIndex container index u place =>
    m.eval container frame (.assignIndexContainer index u frame place)
  | .assignField container key u place =>
    m.eval container frame (.assignFieldContainer key u frame place)
  | .call callee arguments place => m.eval callee frame (.callee arguments frame place)
  | .native name f arguments place =>
    let f :=
      if (m.interpreter m.current).relinks then (m.registry.lookup name).getD f else f
    m.evalArguments (.native f) [] arguments frame place
  | .index container index place => m.eval container frame (.indexContainer index frame place)
  | .field container key place => m.eval container frame (.fieldContainer key frame place)

/-! ### Statements -/

/-- Starts to execute a statement. -/
def stepExec (m : Machine) (s : Stmt) (frame : Ref) : Machine :=
  match s with
  | .expression e _ => m.go (.eval e frame)
  | .declare slot initial place => m.eval initial frame (.declare slot frame place)
  | .print e place => m.eval e frame (.print place)
  | .block b =>
    if b.slots.isEmpty then m.runStatements b b.statements frame
    else
      let (inner, m) := m.newFrame (.fresh frame b.slots)
      m.runStatements b b.statements inner
  | .branch condition first second _ => m.eval condition frame (.branch first second frame)
  | .loop condition body step exit next _ =>
    m.eval condition frame (.loopTest condition body step exit next frame)
  | .jump target none _ => m.go (.jump target .nothing)
  | .jump target (some e) _ => m.eval e frame (.jumpValue target)
  | .label .. => m.give .nothing

/-! ### Values -/

/-- Takes the next round of a loop whose body is done. -/
def nextRound (m : Machine) (condition : Expr) (body : Stmt) (step : Option Expr)
    (exit next : Label) (frame : Ref) : Machine :=
  match step with
  | some e => m.eval e frame (.loopStep condition body step exit next frame)
  | none => m.eval condition frame (.loopTest condition body step exit next frame)

/-- Hands on a truth value. -/
def giveTruth (m : Machine) (b : Bool) : Machine :=
  m.give (.wrap rules.alwaysBoxed (.bool b))

/-- Leaves a call. -/
def leaveCall (m : Machine) (owner caller : Ref) : Machine :=
  { m.updateInterpreter owner fun i => { i with depth := i.depth - 1 } with current := caller }

/-- Leaves a run. -/
def leaveRun (m : Machine) (caller : Ref) : Machine :=
  { m with collectors := m.collectors.tail, current := caller }

/-- Hands a value to the innermost pending part, which has been taken off the stack. -/
def resume (m : Machine) (p : Pending) (v : Value) : Machine :=
  match p with
  | .box place =>
    if rules.alwaysBoxed then m.give v else m.onHeap v.convert place fun m v => m.give v
  | .unbox => m.give (if rules.alwaysBoxed then v else v.unbox)
  | .arrayItem before rest frame place =>
    m.onHeap v.convert place fun m v =>
      match rest with
      | [] => m.giveArray (v :: before).reverse.toArray
      | e :: rest => m.eval e frame (.arrayItem (v :: before) rest frame place)
  | .recordField record name rest frame place =>
    m.onHeap v.convert place fun m v =>
      m.onHeap (modify (·.setField record name v)) none fun m _ =>
        m.evalFields record rest frame place
  | .binaryLeft op right frame place => m.eval right frame (.binaryRight op v place)
  | .binaryRight op left place => m.look (fun h => h.binary op left v) place
  | .logicalLeft op right frame =>
    match op, v.isTrue with
    | .and, false => m.giveTruth rules false
    | .or, true => m.giveTruth rules true
    | op, left => m.eval right frame (.logicalRight op left)
  | .logicalRight op left =>
    m.giveTruth rules (match op with
      | .xor => left != v.isTrue
      | _ => v.isTrue)
  | .unary op place => m.look (fun h => h.unary op v) place
  | .ternary first second frame => m.go (.eval (if v.isTrue then first else second) frame)
  | .storeVariable c old place =>
    match updated m.heap old v with
    | .ok v => m.storeVariable c v place
    | .error f => m.raise f place
  | .assignIndexContainer index u frame place => m.eval index frame (.assignIndex v u frame place)
  | .assignIndex container u frame place =>
    m.update u frame place (fun h => container.getIndex h v) (.storeIndex container v · place)
      fun m new => m.storeIndex container v new place
  | .storeIndex container index old place =>
    match updated m.heap old v with
    | .ok v => m.storeIndex container index v place
    | .error f => m.raise f place
  | .assignFieldContainer key u frame place => m.eval key frame (.assignField v u frame place)
  | .assignField container u frame place =>
    m.update u frame place (fun h => container.getField h v) (.storeField container v · place)
      fun m new => m.storeField container v new place
  | .storeField container key old place =>
    match updated m.heap old v with
    | .ok v => m.storeField container key v place
    | .error f => m.raise f place
  | .callee arguments frame place => m.evalArguments (.value v) [] arguments frame place
  | .argument callee before rest frame place =>
    m.evalArguments callee (v :: before) rest frame place
  | .indexContainer index frame place => m.eval index frame (.index v place)
  | .index container place => m.look (fun h => container.getIndex h v) place
  | .fieldContainer key frame place => m.eval key frame (.field v place)
  | .field container place => m.look (fun h => container.getField h v) place
  | .declare slot frame place =>
    m.withCell slot frame place fun c => (m.store c v).give .nothing
  | .print place =>
    m.withText v place fun m s => (m.onWorld (·.write (s ++ "\n"))).give .nothing
  | .block b rest frame =>
    match rest with
    | [] => m.give v
    | s :: rest => m.exec s frame (.block b rest frame)
  | .branch first second frame =>
    if v.isTrue then m.exec first frame .discard
    else match second with
      | some s => m.exec s frame .discard
      | none => m.give .nothing
  | .discard => m.give .nothing
  | .loopTest condition body step exit next frame =>
    if v.isTrue then m.exec body frame (.loopBody condition body step exit next frame)
    else m.give .nothing
  | .loopBody condition body step exit next frame =>
    m.nextRound condition body step exit next frame
  | .loopStep condition body step exit next frame =>
    m.eval condition frame (.loopTest condition body step exit next frame)
  | .jumpValue target => m.go (.jump target v)
  | .call _ owner caller _ => (m.leaveCall owner caller).give .null
  | .run caller => (m.leaveRun caller).onHeap v.convert none fun m v => m.give v
  | .site _ => m.give v

/-! ### Jumps and errors -/

/-- Passes a jump by the innermost pending part, which has been taken off the stack, unless it is
the one that the jump leads to. -/
def jumpThrough (m : Machine) (p : Pending) (target : Label) (v : Value) : Machine :=
  match p with
  | .block b _ frame =>
    match b.resumeAt target with
    | some rest => m.runStatements b rest frame
    | none => m
  | .loopBody condition body step exit next frame =>
    if target.id = exit.id then m.give .nothing
    else if target.id = next.id then m.nextRound condition body step exit next frame
    else m
  | .call exit owner caller place =>
    let m := m.leaveCall owner caller
    if target.id = exit.id then m.onHeap v.convert place fun m v => m.give v else m
  | .run caller => (m.leaveRun caller).raise (.undefinedLabel target.name) none
  | _ => m

/-- Passes an error by the innermost pending part, which has been taken off the stack. -/
def raiseThrough (m : Machine) (p : Pending) (e : RuntimeError) : Machine :=
  match p with
  | .call _ owner caller _ => m.leaveCall owner caller
  | .run caller => m.leaveRun caller
  | .site place => m.go (.raise (e.withLocation place))
  | _ => m

/-! ### Steps -/

/-- Takes one step. -/
def step (m : Machine) : Machine :=
  match m.control with
  | .eval e frame => m.stepEval rules e frame
  | .exec s frame => m.stepExec s frame
  | .apply callee arguments place => m.apply rules callee arguments place
  | .give v =>
    match m.stack with
    | [] => m
    | p :: stack => ({ m with stack := stack }).resume rules p v
  | .jump target v =>
    match m.stack with
    | [] => m
    | p :: stack => ({ m with stack := stack }).jumpThrough p target v
  | .raise e =>
    match m.stack with
    | [] => m
    | p :: stack => ({ m with stack := stack }).raiseThrough p e

/-- The value or error that a machine at rest has come to. -/
def outcome? (m : Machine) : Option (Except RuntimeError Value) :=
  match m.stack, m.control with
  | [], .give v => some (.ok v)
  | [], .raise e => some (.error e)
  | [], .jump target _ => some (.error { fault := .undefinedLabel target.name })
  | _, _ => none

/-- Takes steps until the machine is at rest, at most `fuel` of them. -/
def steps : (fuel : Nat) → Machine → Machine
  | 0, m => m
  | fuel + 1, m => if m.outcome?.isSome then m else steps fuel (m.step rules)

end Machine

end DynScript
