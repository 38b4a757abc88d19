import DynScript.Machine.State

/-!
# The standard library

What the functions of the standard library do to the machine.  Wrong arguments and failures of files
never stop a script: they are reported as warnings and the function gives a default value.  The one
exception is the length of null.
-/

namespace DynScript

namespace Machine

/-! ### Starting a run -/

/-- Goes on with the statements `rest` of a block. -/
def runStatements (m : Machine) (b : Block) (rest : List Stmt) (frame : Ref) : Machine :=
  match rest with
  | [] => m.give .nothing
  | s :: rest => m.exec s frame (.block b rest frame)

/-- Starts to run a program on an interpreter, for what is then pending. -/
def startRun (m : Machine) (i : Ref) (p : Program) : Machine :=
  let globals := (m.interpreter i).globals
  let m := { m with
    frames := m.frames.modify globals fun f => f.extend p.body.slots
    collectors := i :: m.collectors
    stack := .run m.current :: m.stack
    current := i }
  m.runStatements p.body p.body.statements globals

/-! ### Outcomes -/

/-- Hands on a boxed value. -/
def giveDatum (m : Machine) (d : Datum) : Machine :=
  m.give (.boxed d)

/-- Hands on an integer. -/
def giveInteger (m : Machine) (n : Int) : Machine :=
  m.giveDatum (.number (Number.ofRatio (n < 0) n.natAbs 1))

/-- Hands on a new array. -/
def giveArray (m : Machine) (items : Array Value) : Machine :=
  m.onHeap (HeapM.make (·.newArray items)) none fun m r => m.giveDatum (.array r)

/-- Goes on with the text of a value. -/
def withText (m : Machine) (v : Value) (place : Option Location)
    (next : Machine → String → Machine) : Machine :=
  match m.heap.text v with
  | .ok s => next m s
  | .error e => m.raise e place

/-- The kind of an argument; arguments are boxed, so they have one. -/
def kindOf (v : Value) : Kind :=
  match v.datum? with
  | some d => d.kind
  | none => .null

/-! ### Arrays and texts -/

/-- Joins an array and the items of another one, or a single item. -/
def concat (m : Machine) (left right : Value) : Machine :=
  match left.datum? with
  | some (.array a) =>
    match right.datum? with
    | some (.array b) => m.giveArray (m.heap.array a ++ m.heap.array b)
    | _ => m.giveArray ((m.heap.array a).push right)
  | _ => (m.warn (.concatFirst (kindOf left))).give .null

/-- The length of a value. -/
def lengthOf (m : Machine) (v : Value) (place : Option Location) : Machine :=
  match v.datum? with
  | some .null => m.raise .nullLength place
  | some (.array r) => m.giveInteger (m.heap.array r).size
  | some (.string s) => m.giveInteger s.length
  | some (.record r) => m.giveInteger (m.heap.record r).size
  | _ => (m.warn (.notEnumerable (kindOf v))).giveInteger 1

/-! ### Files -/

/-- Reads a file and goes on with its text; otherwise gives a default. -/
def readFile (m : Machine) (b : Builtin) (path : Value) (default : Datum)
    (next : Machine → String → Machine) : Machine :=
  match path.string? with
  | none => (m.warn (.notString b.name (kindOf path))).giveDatum default
  | some p =>
    match m.world.files.read p with
    | .ok s => next m s
    | .error e => (m.warn (.file b.name p e)).giveDatum default

/-- Writes a file. -/
def writeFile (m : Machine) (b : Builtin) (path content : String) : Machine :=
  match m.world.files.write path content with
  | .ok files => (m.onWorld fun w => { w with files := files }).give .null
  | .error e => (m.warn (.file b.name path e)).give .null

/-- Writes to a file, the path of which is checked first. -/
def writeTo (m : Machine) (b : Builtin) (path : Value) (next : String → Machine) : Machine :=
  match path.string? with
  | none => (m.warn (.argumentKind b.name "path" "string" (kindOf path))).give .null
  | some p => next p

/-- The content of a file with one line for each value. -/
def linesOf (h : Heap) (items : List Value) : Except Fault String := do
  let texts ← items.mapM h.text
  return String.join (texts.map (· ++ "\n"))

/-! ### Random numbers -/

/-- Goes on with the integer part of an argument; otherwise gives minus one. -/
def withInteger (m : Machine) (b : Builtin) (argument : String) (v : Value)
    (next : Machine → Int → Machine) : Machine :=
  match v.number? with
  | none => (m.warn (.argumentKind b.name argument "number" (kindOf v))).giveInteger (-1)
  | some x =>
    if x.isFinite then next m (Number.truncate x)
    else (m.warn (.notFinite b.name argument (Number.text x))).giveInteger (-1)

/-- An integer between `lower` and `upper`, the latter excluded. -/
def drawBetween (m : Machine) (lower upper : Int) : Machine :=
  let (k, m) := m.fromWorld World.draw
  m.giveInteger (lower + (k : Int) % (upper - lower))

/-- Draws below a bound. -/
def randomInt (m : Machine) (maximum : Value) : Machine :=
  m.withInteger .randomInt "maxVal" maximum fun m upper =>
    if upper ≤ 0 then (m.warn (.notPositive upper)).giveInteger (-1) else m.drawBetween 0 upper

/-- Draws between bounds. -/
def randomRange (m : Machine) (minimum maximum : Value) : Machine :=
  m.withInteger .randomRange "minVal" minimum fun m lower =>
    m.withInteger .randomRange "maxVal" maximum fun m upper =>
      if lower = upper then m.giveInteger lower
      else if upper < lower then (m.warn (.emptyRange lower upper)).giveInteger (-1)
      else m.drawBetween lower upper

/-! ### Scripts in scripts -/

/-- The options for a text that a script evaluates. -/
def evalOptions : CompileOptions :=
  { strict := true, file := "<eval>" }

/-- Compiles and runs a text on an interpreter of its own. -/
def evaluateText (m : Machine) (code : Value) (place : Option Location) : Machine :=
  match code.string? with
  | none => (m.warn (.notString Builtin.evaluate.name (kindOf code))).give .null
  | some source =>
    let c := compile source evalOptions m.registry [] m.supply
    let m := { m with supply := c.supply, world := m.world.send c.log }
    let refuse (m : Machine) : Machine := (m.warn (.unparsable source)).give .null
    match c.result with
    | .error _ => refuse m
    | .ok u =>
      if u.ok then
        let (i, m) := m.newInterpreter defaultLimit true
        ({ m with stack := .site place :: m.stack }).startRun i u.program
      else refuse m

/-! ### The view of the application -/

/-- Hands a line to the application if it has a handler for it. -/
def push (m : Machine) (b : Builtin) (installed : Bool) (event : String → Event) (v : Value)
    (place : Option Location) : Machine :=
  if installed then
    m.withText v place fun m s => (m.onWorld (·.record (event s))).give .null
  else (m.warn (.unregistered b.name)).give .null

/-! ### All functions -/

/-- Calls a function of the standard library with boxed arguments. -/
def callBuiltin (m : Machine) (b : Builtin) (arguments : List Value) (place : Option Location) :
    Machine :=
  let first := arguments.getD 0 .null
  let second := arguments.getD 1 .null
  match b with
  | .concat => m.concat first second
  | .len => m.lengthOf first place
  | .toText => m.withText first place fun m s => m.giveDatum (.string s)
  | .debugLog => m.withText first place fun m s => (m.onWorld (·.write s)).give .null
  | .debugLogLine => m.withText first place fun m s => (m.onWorld (·.write (s ++ "\n"))).give .null
  | .debugReadLine =>
    let (s, m) := m.fromWorld World.readLine
    m.giveDatum (.string s)
  | .fileReadAllText => m.readFile b first (.string "") fun m s => m.giveDatum (.string s)
  | .fileReadAllLines => m.readFile b first .null fun m s =>
    m.giveArray ((Text.lines s).map fun l => Value.boxed (.string l)).toArray
  | .fileWriteAllText => m.writeTo b first fun path =>
    match second.string? with
    | none => (m.warn (.argumentKind b.name "text" "string" (kindOf second))).give .null
    | some s => m.writeFile b path s
  | .fileWriteAllLines => m.writeTo b first fun path =>
    match second.datum? with
    | some (.array r) =>
      match linesOf m.heap (m.heap.array r).toList with
      | .ok s => m.writeFile b path s
      | .error e => m.raise e place
    | _ => (m.warn (.argumentKind b.name "texts" "array" (kindOf second))).give .null
  | .random =>
    let (k, m) := m.fromWorld World.draw
    m.giveDatum (.number (Number.ofRatio false (k % 1000) 1000))
  | .randomInt => m.randomInt first
  | .randomRange => m.randomRange first second
  | .ticks =>
    let (t, m) := m.fromWorld World.tick
    m.giveInteger t
  | .evaluate => m.evaluateText first place
  | .warning => m.withText first place fun m s => (m.warn (.said s)).give .null
  | .pushLine => m.push b m.world.hooks.pushLine .pushLine first place
  | .pushFormatLine => m.push b m.world.hooks.pushFormatLine .pushFormatLine first place
  | .waitInput =>
    match m.world.hooks.waitInput with
    | none => (m.warn (.unregistered b.name)).giveInteger (-1)
    | some v => m.onHeap v.convert place fun m v => m.give v
  | .clearView =>
    if m.world.hooks.clearView then (m.onWorld (·.record .clearView)).give .null
    else (m.warn (.unregistered b.name)).give .null

end Machine

end DynScript
