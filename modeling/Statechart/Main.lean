import Statechart.Program.CommandLine
import Statechart.Program.Feed

/-!
# The programs

With arguments, the command line is obeyed; without any, the configured chart is fed with the
lines of standard input. Between two lines the time passes that has really gone by.
-/
namespace Statechart.Program

/-- What follows an at sign somewhere in a text, with and without blanks at its end. -/
def mentioned : List Char → List String
  | [] => []
  | '@' :: rest =>
    String.ofList rest :: String.ofList (rest.reverse.dropWhile Text.isBlank).reverse ::
      mentioned rest
  | _ :: rest => mentioned rest

def variableNames : List String :=
  ["ARBOR_CONFIG", "ARBOR_DEFINITION", "ARBOR_GUARD_ERRORS", "ARBOR_RAISE_POLICY",
    "ARBOR_MAX_MICROSTEPS", "ARBOR_COMMAND_CAPACITY", "ARBOR_NOTIFICATION_CAPACITY",
    "ARBOR_REPLY_TIMEOUT_MS", "ARBOR_SERVICE_DELAY_MS"]

/-- The variables, and those of the files that can be read. -/
def environment (paths : List String) : IO Environment := do
  let settings ← variableNames.filterMapM fun name => do
    return (← IO.getEnv name).map fun value => (name, value)
  let files ← (paths ++ settings.map (·.2)).filterMapM fun (path : String) => do
    try
      return some (path, ← IO.FS.readFile path)
    catch _ => return none
  return { value? := fun name => settings.lookup name, file? := fun path => files.lookup path }

def printLine (line : String) : IO Unit := do
  let out ← IO.getStdout
  out.putStrLn line
  out.flush

def fail (e : Failure) : IO UInt32 := do
  IO.eprintln ("Error: " ++ e.message)
  return e.status.toUInt32

/-- Shows what a session has to show and forgets it. -/
def shown (s : Session) : IO Session := do
  s.console.shown.forM fun item => printLine item.line
  return { s with console := { s.console with shown := [] } }

/-- Obeys the lines of standard input. -/
partial def converse (since : Nat) (s : Session) : IO Unit := do
  let s ← shown s
  let line ← (← IO.getStdin).getLine
  let now ← IO.monoMsNow
  if line.isEmpty then
    discard (shown s.endOfInput.finish)
  else
    match (s.sleep (now - since)).line (← environment (mentioned line.toList)) line with
    | (s, true) => converse now s
    | (s, false) => discard (shown s.finish)

/-- Carries out a subcommand. -/
def obey (env : Environment) : Subcommand → IO UInt32
  | .repl definition context config => do
    printLine Session.banner
    match Session.start env definition context config with
    | .error e => fail e
    | .ok s =>
      converse (← IO.monoMsNow) s
      return 0
  | subcommand => do
    let ending := subcommand.perform env []
    ending.shown.forM fun item => printLine item.line
    ending.failure.elim (pure ending.status.toUInt32) fail

/-- Feeds an instance with the lines of standard input. -/
partial def feed (since : Nat) (f : Feed) : IO Unit := do
  let line ← (← IO.getStdin).getLine
  let now ← IO.monoMsNow
  let (f, before) := f.sleep (now - since)
  let (f, lines) := if line.isEmpty then (f, f.finish) else f.line line
  (before ++ lines).forM fun item => printLine item.toDocument.write
  if !line.isEmpty then feed now f

/-- Runs the configured chart. -/
def runConfigured : IO UInt32 := do
  let env ← environment []
  let path := (Config.load env).toOption.bind Config.definition
  match Feed.start (← environment path.toList) with
  | .error e => fail e
  | .ok f =>
    let (f, lines) := f.take
    lines.forM fun item => printLine item.toDocument.write
    feed (← IO.monoMsNow) f
    return 0

end Statechart.Program

def main (args : List String) : IO UInt32 := do
  if args.isEmpty then
    Statechart.Program.runConfigured
  else
    let paths := args ++ args.flatMap fun arg => Statechart.Program.mentioned arg.toList
    let env ← Statechart.Program.environment paths
    match Statechart.Subcommand.read env args with
    | .ok subcommand => Statechart.Program.obey env subcommand
    | .error refusal =>
      refusal.ending.shown.forM fun item => Statechart.Program.printLine item.line
      return refusal.ending.status.toUInt32
