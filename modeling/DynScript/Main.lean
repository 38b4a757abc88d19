import DynScript.Command
import DynScript.Machine.Request
import Std.Time.DateTime.Timestamp

/-!
# The program

Carries out a command line on the real console, files and clock.  Scripts are run step by step;
before a step that needs something from outside it is brought in, and what a step has written is
sent out after it.
-/

namespace DynScript.Shell

/-- The time in ticks of a ten-millionth of a second since the start of 1970. -/
def currentTicks : IO Nat := do
  let now ← Std.Time.Timestamp.now
  return (now.toNanosecondsSinceUnixEpoch.val / 100).toNat

/-- Brings what is at a path, and the directories that lead to it, into a world. -/
def bringFile (w : World) (path : String) : IO World := do
  if path.contains '\x00' || path.isEmpty then return w
  let base ← IO.currentDir
  let parts := path.splitOn "/"
  let mut files := w.files
  for i in List.range parts.length do
    let part := "/".intercalate (parts.take (i + 1))
    if part.isEmpty then continue
    let place := base / part
    if ← place.isDir then files := files.add (part ++ "/") default
    else if ← place.pathExists then
      let bytes ← IO.FS.readBinFile place
      files := files.add part (match String.fromUTF8? bytes with
        | some s => .text s
        | none => .bytes bytes.toList)
  return { w with files := files }

/-- Brings what a request asks for into a world. -/
def bring (w : World) : Request → IO World
  | .line => do
    if w.input.isEmpty then
      let line ← (← IO.getStdin).getLine
      return { w with input := line.toList }
    else return w
  | .time => do return { w with clock := ← currentTicks }
  | .file path => bringFile w path

/-- Saves a file that a step wrote. -/
def saveFile (before after : World) (path : String) : IO Unit := do
  match after.files.target path with
  | .error _ => return
  | .ok names =>
    let entry := after.files.entry? names
    if before.files.entry? names != entry then
      if let some (.file (.text s)) := entry then IO.FS.writeFile path s

/-- Sends out what has been written to the console and to the log. -/
def flush (w : World) (least : LogLevel) : IO World := do
  unless w.output.isEmpty do
    let out ← IO.getStdout
    out.putStr w.output
    out.flush
  unless w.log.isEmpty do
    (← IO.getStderr).putStr (logText least w.log.toList)
  return { w with output := "", log := #[] }

/-- Runs a machine until it is at rest. -/
partial def drive (m : Machine) (least : LogLevel) : IO Machine := do
  let m := { m with world := ← flush m.world least }
  if m.outcome?.isSome then return m
  match m.request? with
  | none => drive (m.step {}) least
  | some request =>
    let m := { m with world := ← bring m.world request }
    let next := m.step {}
    if let .file path := request then saveFile m.world next.world path
    drive next least

/-- Sends a report out. -/
def send (r : Report) : IO UInt32 := do
  (← IO.getStdout).putStr r.output
  (← IO.getStderr).putStr r.errors
  return r.exit.toUInt32

/-- Runs a script step by step. -/
def run (l : CommandLine) (source : String) (options : CompileOptions) (quiet : Bool) :
    IO UInt32 := do
  let seed ← IO.rand 0 (Nat.pow 2 31)
  let draws (n : Nat) : Nat := ((n + seed + 1) * 6364136223846793005 + 1442695040888963407) / Nat.pow 2 33
  let (m, refused) := Command.startScript source options quiet { draws := draws }
  let m ← if refused.isSome then pure m else drive m l.level
  send (Command.finishScript m refused quiet l.level)

/-- Carries out a command line. -/
def perform (l : CommandLine) : IO UInt32 := do
  let setting := (← IO.getEnv "NYAS_STRICT").getD ""
  match l.file? with
  | none => send (l.perform 0 setting "" {}).1
  | some file =>
    match (← bringFile {} file).files.read file with
    | .error _ => send (.ofUsage (.unreadableFile file))
    | .ok source =>
      match l.command with
      | .run file strict quiet shown =>
        run l source (Command.optionsFor setting (Command.shownName file shown) strict) quiet
      | _ => send (l.perform 0 setting source {}).1

end DynScript.Shell

/-- The entry of the program. -/
def main (arguments : List String) : IO UInt32 :=
  match DynScript.CommandLine.ofArguments arguments with
  | .error e => DynScript.Shell.send (.ofUsage e)
  | .ok l => DynScript.Shell.perform l
