import DynScript.Code.Listing
import DynScript.Machine.Run
import DynScript.Text.Styling

/-!
# The command line

What the program does when it is called from a shell: run a script, check it, or list its tokens.
Arguments are read into a `CommandLine`, which is then carried out on a world; what is written to
the two output streams and the exit code make up a `Report`.
-/

namespace DynScript

/-- What the program is asked to do. -/
inductive Command where
  | version
  | run (file : String) (strict quiet : Bool) (shown : Option String)
  | check (file : String) (strict listing : Bool)
  | tokens (file : String)
  deriving DecidableEq, Repr

/-- A command and whether all messages are shown. -/
structure CommandLine where
  command : Command
  verbose : Bool := false
  deriving DecidableEq, Repr

/-- What is wrong with a command line. -/
inductive UsageError where
  | noCommand
  | unknownCommand (name : String)
  | unknownOption (option : String)
  | missingValue (option : String)
  | missingFile
  | surplusArgument (argument : String)
  | unreadableFile (path : String)
  deriving DecidableEq, Repr

/-- The wording of what is wrong with the arguments. -/
def UsageError.message : UsageError → String
  | noCommand => "Error: Missing command."
  | unknownCommand name => s!"Error: No such command '{name}'."
  | unknownOption option => s!"Error: No such option: {option}"
  | missingValue option => s!"Error: Option '{option}' requires an argument."
  | missingFile => "Error: Missing argument 'FILE'."
  | surplusArgument argument => s!"Error: Got unexpected extra argument ({argument})"
  | unreadableFile path => s!"Error: Invalid value for 'FILE': File '{path}' does not exist."

/-! ### Arguments -/

/-- The arguments of a command: its file, its flags and its options with values. -/
structure Arguments where
  files : List String := []
  flags : List String := []
  values : List (String × String) := []

namespace Arguments

/-- Whether an argument has the form of an option. -/
def isOption (s : String) : Bool :=
  s.startsWith "-" && s ≠ "-"

/-- Cuts an option at its `=`. -/
def cutOption (s : String) : String × Option String :=
  let name := s.toList.takeWhile (· ≠ '=')
  match s.toList.drop name.length with
  | [] => (s, none)
  | _ :: value => (String.ofList name, some (String.ofList value))

/-- Reads arguments, given the flags and the options with values that are known.  After `--` nothing
is an option. -/
def read (flags options : List String) : List String → Arguments → Except UsageError Arguments
  | [], a => .ok a
  | "--" :: rest, a => .ok { a with files := a.files ++ rest }
  | [s], a =>
    if !isOption s then .ok { a with files := a.files ++ [s] }
    else if flags.contains s then .ok { a with flags := s :: a.flags }
    else match cutOption s with
      | (name, some value) =>
        if options.contains name then .ok { a with values := (name, value) :: a.values }
        else .error (.unknownOption name)
      | (name, none) =>
        if options.contains name then .error (.missingValue name) else .error (.unknownOption name)
  | s :: next :: rest, a =>
    if !isOption s then read flags options (next :: rest) { a with files := a.files ++ [s] }
    else if flags.contains s then read flags options (next :: rest) { a with flags := s :: a.flags }
    else match cutOption s with
      | (name, some value) =>
        if options.contains name then
          read flags options (next :: rest) { a with values := (name, value) :: a.values }
        else .error (.unknownOption name)
      | (name, none) =>
        if options.contains name then
          read flags options rest { a with values := (name, next) :: a.values }
        else .error (.unknownOption name)

/-- The one file that is named. -/
def file (a : Arguments) : Except UsageError String :=
  match a.files with
  | [] => .error .missingFile
  | [f] => .ok f
  | _ :: extra :: _ => .error (.surplusArgument extra)

end Arguments

namespace CommandLine

/-- Reads the name of a command and its arguments. -/
def readCommand (name : String) (rest : List String) : Except UsageError Command :=
  match name with
  | "run" => do
    let a ← Arguments.read ["--strict", "--quiet"] ["--filename"] rest {}
    return .run (← a.file) (a.flags.contains "--strict") (a.flags.contains "--quiet")
      (a.values.lookup "--filename")
  | "check" => do
    let a ← Arguments.read ["--strict", "--ir"] [] rest {}
    return .check (← a.file) (a.flags.contains "--strict") (a.flags.contains "--ir")
  | "tokens" => do
    let a ← Arguments.read [] [] rest {}
    return .tokens (← a.file)
  | _ => .error (.unknownCommand name)

/-- What the options before the command ask for. -/
structure GeneralOptions where
  verbose : Bool := false
  version : Bool := false
  deriving DecidableEq, Repr

/-- Whether an argument asks for all messages: the word in full, or its letter once or more after
one dash. -/
def isVerbose (s : String) : Bool :=
  s = "--verbose" || match s.toList with
    | '-' :: c :: letters => (c :: letters).all (· = 'v')
    | _ => false

/-- Reads the options before the command, and gives what follows them.  They end at the first
argument that is no option or after a `--`. -/
def readGeneral : List String → GeneralOptions → Except UsageError (GeneralOptions × List String)
  | [], o => .ok (o, [])
  | s :: rest, o =>
    if s = "--" then .ok (o, rest)
    else if s = "--version" then readGeneral rest { o with version := true }
    else if isVerbose s then readGeneral rest { o with verbose := true }
    else if Arguments.isOption s then .error (.unknownOption s)
    else .ok (o, s :: rest)

/-- Reads the arguments. -/
def ofArguments (arguments : List String) : Except UsageError CommandLine := do
  let (options, rest) ← readGeneral arguments {}
  if options.version then return { command := .version, verbose := options.verbose }
  match rest with
  | [] => throw .noCommand
  | name :: rest => return { command := ← readCommand name rest, verbose := options.verbose }

/-- The file of a command. -/
def file? (l : CommandLine) : Option String :=
  match l.command with
  | .version => none
  | .run file .. | .check file .. | .tokens file => some file

/-- The least weight of the messages that are shown. -/
def level (l : CommandLine) : LogLevel :=
  if l.verbose then .debug else .info

end CommandLine

/-! ### Carrying out -/

/-- What a command has written to its output and to its error stream, and its exit code. -/
structure Report where
  exit : Nat := 0
  output : String := ""
  errors : String := ""
  deriving DecidableEq, Repr, Inhabited

namespace Report

/-- The exit codes of faulty scripts, of runtime errors and of wrong arguments. -/
def faultyScript : Nat := 1

@[inherit_doc faultyScript]
def runtimeError : Nat := 2

@[inherit_doc faultyScript]
def wrongUsage : Nat := 2

/-- The report of a wrong call. -/
def ofUsage (e : UsageError) : Report :=
  { exit := wrongUsage, errors := e.message ++ "\n" }

end Report

namespace Command

/-- The version of the program. -/
def versionLine : String :=
  "nyas, version 0.1.0\n"

/-- A line of the command's own, which is written without style. -/
def line (s : String) : String :=
  Text.unstyled s ++ "\n"

/-- The report on the tokens of a script, one a line. -/
def listTokens (source file : String) (least : LogLevel) : Report :=
  let s := scan source file
  let shown (t : Token) : String :=
    s!"{t.location.line}:{t.location.column}\t{t.kind.name}\t{Text.quoted t.lexeme}"
  { output := String.join (s.tokens.map fun t => line (shown t))
    errors := logText least (s.errors.map ScanError.log) }

/-- What is written about a compilation that gives no unit. -/
def failureText : ParseFailure → String
  | .canceled cause => line cause.cancellation.report
  | .error e => line e.report
  | .scopes _ | .exhausted => ""

/-- Checks a script without running it. -/
def checkScript (source : String) (options : CompileOptions) (listing : Bool) (least : LogLevel) :
    Report :=
  let c := compile source options .standard [] {}
  let log := logText least c.log
  match c.result with
  | .error e => { exit := Report.faultyScript, errors := log ++ failureText e }
  | .ok u =>
    let shown := if listing then line u.program.listing else ""
    if u.errorCount = 0 then { output := shown ++ line "No errors found.", errors := log }
    else
      { exit := Report.faultyScript
        output := shown ++ line s!"Found {u.errorCount} error(s)." ++
          String.join (u.summary.map fun entry => line s!"  {entry}")
        errors := log }

/-- How an error is shown. -/
def errorText (e : RuntimeError) : String :=
  let code := e.code.getD ""
  let title := (Diagnostic.title? code).getD ""
  line e.text ++ line s!"  {code}: {title}"

/-- A line that is only written when the command is not quiet. -/
def status (quiet : Bool) (s : String) : String :=
  if quiet then "" else line s

/-- Compiles a script for a run: a machine about to run it, or a machine at rest when there is
nothing to run, with the exit code and what is written about that. -/
def startScript (source : String) (options : CompileOptions) (quiet : Bool) (world : World) :
    Machine × Option (Nat × String) :=
  let world := (world.write (status quiet "Scanning...")).write (status quiet "Parsing...")
  let m := Machine.initial .standard {} world defaultLimit true
  match m.compile source options [] with
  | (.error e, m) => (m, some (Report.faultyScript, failureText e))
  | (.ok u, m) =>
    if u.ok then (m.startRun Machine.mainInterpreter u.program, none)
    else (m, some (Report.faultyScript, ""))

/-- The exit code of a machine that has run a script, and what is written about it. -/
def exitOf (m : Machine) : Nat × String :=
  match m.outcome? with
  | some (.error e) => (Report.runtimeError, errorText e)
  | _ => (0, "")

/-- The report on a script that has been run, or could not be. -/
def finishScript (m : Machine) (refused : Option (Nat × String)) (quiet : Bool)
    (least : LogLevel) : Report :=
  let (exit, text) := refused.getD (exitOf m)
  { exit := exit
    output := m.world.output ++ status quiet s!"Script exit with code {exit}"
    errors := logText least m.world.log.toList ++ text }

/-- Runs a script. -/
def runScript (fuel : Nat) (source : String) (options : CompileOptions) (quiet : Bool)
    (world : World) (least : LogLevel) : Report × World :=
  let (m, refused) := startScript source options quiet world
  let m := if refused.isSome then m else m.steps {} fuel
  (finishScript m refused quiet least, m.world)

/-- The options for a script, given the setting that makes scripts strict. -/
def optionsFor (setting file : String) (strict : Bool) : CompileOptions :=
  let options := CompileOptions.ofSetting setting file
  { options with strict := options.strict || strict }

/-- The name a script is shown under. -/
def shownName (file : String) (shown : Option String) : String :=
  match shown with
  | some name => if name.isEmpty then file else name
  | none => file

end Command

/-- Carries out a command on a world, given the setting that makes scripts strict and the text of
the file that the command reads. -/
def CommandLine.perform (fuel : Nat) (l : CommandLine) (setting source : String) (world : World) :
    Report × World :=
  match l.command with
  | .version => ({ output := Command.versionLine }, world)
  | .tokens file => (Command.listTokens source file l.level, world)
  | .check file strict listing =>
    (Command.checkScript source (Command.optionsFor setting file strict) listing l.level, world)
  | .run file strict quiet shown =>
    let options := Command.optionsFor setting (Command.shownName file shown) strict
    Command.runScript fuel source options quiet world l.level

/-- Reads and carries out a command line in a world whose files hold the script. -/
def CommandLine.performIn (fuel : Nat) (arguments : List String) (setting : String)
    (world : World) : Report × World :=
  match CommandLine.ofArguments arguments with
  | .error e => (.ofUsage e, world)
  | .ok l =>
    match l.file? with
    | none => l.perform fuel setting "" world
    | some file =>
      match world.files.read file with
      | .error _ => (.ofUsage (.unreadableFile file), world)
      | .ok source => l.perform fuel setting source world

end DynScript
