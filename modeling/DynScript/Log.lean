/-!
# The log

Messages for whoever runs scripts, each with its weight and the part that sent it.
-/

namespace DynScript

/-- The weight of a message. -/
inductive LogLevel where
  | debug
  | info
  | warning
  | error
  | critical
  deriving DecidableEq, Repr, Inhabited

/-- The order of weights. -/
def LogLevel.rank : LogLevel → Nat
  | .debug => 0
  | .info => 1
  | .warning => 2
  | .error => 3
  | .critical => 4

/-- The part that sends a message. -/
inductive LogSource where
  | scanner
  | grammar
  | machine
  deriving DecidableEq, Repr, Inhabited

/-- A message in the log. -/
structure LogEntry where
  level : LogLevel
  source : LogSource
  message : String
  deriving DecidableEq, Repr, Inhabited

/-- What is written of a log when only messages of at least the given weight are shown: each message
and a line break. -/
def logText (least : LogLevel) (entries : List LogEntry) : String :=
  String.join ((entries.filter fun e => least.rank ≤ e.level.rank).map fun e => e.message ++ "\n")

end DynScript
