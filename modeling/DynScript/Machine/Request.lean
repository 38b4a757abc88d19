import DynScript.Machine.State

/-!
# Requests

What a machine needs from outside before it takes its next step.  Whoever runs scripts on real
files, a real console and a real clock brings the world of the machine up to date first.
-/

namespace DynScript

/-- What a step needs: a line from the console, the time, or what is at a path. -/
inductive Request where
  | line
  | time
  | file (path : String)
  deriving DecidableEq, Repr

/-- What a function of the standard library needs. -/
def Builtin.request? (b : Builtin) (arguments : List Value) : Option Request :=
  match b with
  | .debugReadLine => some .line
  | .ticks => some .time
  | .fileReadAllText | .fileReadAllLines | .fileWriteAllText | .fileWriteAllLines =>
    (arguments.head?.bind Value.string?).map .file
  | _ => none

/-- What the next step asks for. -/
def Machine.request? (m : Machine) : Option Request :=
  match m.control with
  | .apply (.native f) arguments _ =>
    match f.body with
    | .builtin b => b.request? arguments
    | .host .. => none
  | _ => none

end DynScript
