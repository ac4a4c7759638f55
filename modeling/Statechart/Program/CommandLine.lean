import Statechart.Program.OneShot
import Statechart.Program.Options
import Statechart.Program.Session

/-!
# The command line

The first argument names a subcommand. A command line that asks for help ends well, one that
cannot be understood ends with 2 and one whose subcommand fails with the status of its failure.
-/
namespace Statechart

inductive Subcommand where
  | validate (definition : String)
  | inspect (definition : String) (json : Bool)
  | run (order : OneShot.Order)
  | repl (definition : String) (context config : Option String)

/-- How a program ends. -/
structure Ending where
  shown : List Shown := []
  failure : Option Failure := none
  status : Nat := 0

namespace Subcommand

def names : List String := ["validate", "inspect", "run", "repl", "help"]

/-- The time to settle is a number of 64 bits, and a path is not empty. -/
def optionsOf : String → List OptionSpec
  | "inspect" => [{ name := "json" }]
  | "run" => [
    { name := "ctx", letter := some 'c', accepts := some fun _ => true },
    { name := "watch", letter := some 'w' },
    { name := "settle-ms", accepts := some fun s => (Text.word? s).isSome },
    { name := "config", accepts := some fun s => !s.isEmpty }]
  | "repl" => [
    { name := "ctx", letter := some 'c', accepts := some fun _ => true },
    { name := "config", accepts := some fun s => !s.isEmpty }]
  | _ => []

/-- The path of the configuration file: an option, or else a variable. -/
def configPath (env : Environment) (a : Arguments) : Except Refusal (Option String) :=
  match a.value? "config", env.value? "ARBOR_CONFIG" with
  | some path, _ => .ok (some path)
  | none, some "" => .error .misuse
  | none, path => .ok path

/-- Reads the arguments of a named subcommand. -/
def ofArguments (env : Environment) (name : String) (args : List String) :
    Except Refusal Subcommand := do
  let limit := if name = "run" then none else some 1
  let a ← Arguments.read { options := optionsOf name, limit } args
  match name, a.positional with
  | "validate", definition :: _ => return .validate definition
  | "inspect", definition :: _ => return .inspect definition (a.has "json")
  | "run", definition :: events =>
    return .run {
      definition, events
      context := a.value? "ctx"
      watch := a.has "watch"
      settleTime := ((a.value? "settle-ms").bind Text.word?).getD 0
      config := ← configPath env a }
  | "repl", definition :: _ => return .repl definition (a.value? "ctx") (← configPath env a)
  | _, _ => throw .misuse

/-- Reads a command line. -/
def read (env : Environment) : List String → Except Refusal Subcommand
  | [] => .error .misuse
  | "help" :: args =>
    .error (if args.all names.contains ∧ args.length ≤ 1 then .helpWanted else .misuse)
  | name :: args =>
    if name = "--help" ∨ name.startsWith "-h" then .error .helpWanted
    else if name = "--version" ∨ name.startsWith "-V" then .error .versionWanted
    else if names.contains name then ofArguments env name args
    else .error .misuse

/-- The last line of a command, or its failure. -/
def concluded (shown : List Shown) : Except Failure String → Ending
  | .ok answer => { shown := shown ++ [.text answer] }
  | .error e => { shown, failure := some e, status := e.status }

/-- Carries out a subcommand; a session obeys the given lines. -/
def perform (env : Environment) (lines : List String) : Subcommand → Ending
  | validate definition => concluded [] (OneShot.validate env definition)
  | inspect definition json => concluded [] (OneShot.inspect env definition json)
  | run order =>
    let (shown, result) := OneShot.run env order
    concluded shown result
  | repl definition context config =>
    let banner := Shown.text Session.banner
    match Session.start env definition context config with
    | .ok session => { shown := banner :: (session.run env lines).console.shown }
    | .error e => { shown := [banner], failure := some e, status := e.status }

end Subcommand

def usage : String := "\n".intercalate [
  "Usage:",
  "  validate <definition>",
  "  inspect [--json] <definition>",
  "  run [-c <context>] [-w] [--settle-ms <ms>] [--config <file>] <definition> [<event>...]",
  "  repl [-c <context>] [--config <file>] <definition>"]

/-- What a program does whose command line is refused. -/
def Refusal.ending : Refusal → Ending
  | helpWanted => { shown := [.text usage] }
  | versionWanted => { shown := [.text "arbor-cli 0.1.0"] }
  | misuse => { status := 2 }

/-- What the program does on a command line and lines of input. -/
def commandLine (env : Environment) (args lines : List String) : Ending :=
  match Subcommand.read env args with
  | .ok subcommand => subcommand.perform env lines
  | .error refusal => refusal.ending

end Statechart
