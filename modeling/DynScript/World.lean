import DynScript.Log
import DynScript.World.Warning

/-!
# The world around a script

What a running script can see and change outside of its own values: the console, the files, the
source of random numbers, the clock, the view of the embedding application, and the log.
-/

namespace DynScript

/-- What a script does to the view of the application. -/
inductive Event where
  | pushLine (text : String)
  | pushFormatLine (text : String)
  | clearView
  deriving DecidableEq, Repr

/-- The handlers that the application has installed.  A handler for a line records an event; the
handler for input gives the same host value each time. -/
structure Hooks where
  pushLine : Bool := false
  pushFormatLine : Bool := false
  clearView : Bool := false
  waitInput : Option Value := none

/-- The world.  Random numbers are made from a sequence of draws, of which `drawn` have been used. -/
structure World where
  output : String := ""
  input : List Char := []
  files : Files := {}
  draws : Nat → Nat := fun _ => 0
  drawn : Nat := 0
  clock : Nat := 0
  hooks : Hooks := {}
  events : Array Event := #[]
  log : Array LogEntry := #[]

instance : Inhabited World := ⟨{}⟩

namespace World

/-- Writes to the output. -/
def write (w : World) (s : String) : World :=
  { w with output := w.output ++ s }

/-- Reads a line from the console, without the line breaks at its end; at the end of the input the
line is empty. -/
def readLine (w : World) : String × World :=
  let line := w.input.takeWhile (· ≠ '\n')
  let rest := (w.input.dropWhile (· ≠ '\n')).drop 1
  let kept := (line.reverse.dropWhile fun c => c = '\r' || c = '\n').reverse
  (String.ofList kept, { w with input := rest })

/-- Draws a random number. -/
def draw (w : World) : Nat × World :=
  (w.draws w.drawn, { w with drawn := w.drawn + 1 })

/-- The time in ticks of a ten-millionth of a second; each look at the clock takes one. -/
def tick (w : World) : Nat × World :=
  (w.clock, { w with clock := w.clock + 1 })

/-- Records an event. -/
def record (w : World) (e : Event) : World :=
  { w with events := w.events.push e }

/-- Sends messages to the log. -/
def send (w : World) (entries : List LogEntry) : World :=
  { w with log := entries.foldl Array.push w.log }

end World

end DynScript
