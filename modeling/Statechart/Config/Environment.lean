import Statechart.Config.File

/-!
# Where configurations come from

A configuration begins with the defaults or with a file and is then overridden by environment
variables. A variable with a value that does not fit is passed over.
-/
namespace Statechart

/-- The environment of a program: its variables, and the files that it can read. -/
structure Environment where
  value? : String → Option String
  file? : String → Option String

namespace Environment

/-- The names on the way to a file, without those of the directory one is in. -/
def pathParts (path : String) : List String :=
  (path.splitOn "/").filter fun part => part ≠ "" && part ≠ "."

/-- Whether a path leads from the directory one is in to something that may be a file. -/
def leadsToFile (path : String) : Bool :=
  !path.startsWith "/" && !path.endsWith "/" && !path.endsWith "/."

/-- An environment that is held in memory: variables, and the files of the directory one is in. -/
def ofLists (values files : List (String × String)) : Environment where
  value? := fun name => values.lookup name
  file? := fun path =>
    if leadsToFile path then
      (files.find? fun (name, _) => pathParts name = pathParts path).map Prod.snd
    else none

end Environment

/-- Why a configuration cannot be had. -/
inductive ConfigError where
  | unreadable (path : String)
  | malformed (path : String)
  | invalid (fault : ConfigFault)
  deriving DecidableEq

/-- What can be said of the error without the words of the file system or the reader. -/
def ConfigError.message : ConfigError → String
  | unreadable path => "failed to read config file '" ++ path ++ "'"
  | malformed path => "failed to parse config file '" ++ path ++ "'"
  | invalid fault => "configuration validation failed: " ++ fault.reason

namespace Config

/-- A value that a variable names in any case of letters. -/
def namedBy {α : Type} (names : List (String × α)) (s : String) : Option α :=
  names.lookup (Text.lower s)

/-- Puts the environment's variables over a configuration. -/
def overridden (value? : String → Option String) (c : Config) : Config :=
  let read {α : Type} (name : String) (f : String → Option α) (otherwise : α) : α :=
    ((value? name).bind f).getD otherwise
  let path (s : String) : Option (Option String) := if s.isEmpty then none else some (some s)
  { definition := read "ARBOR_DEFINITION" path c.definition
    settings := {
      guardErrors :=
        read "ARBOR_GUARD_ERRORS" (namedBy GuardErrorPolicy.names) c.settings.guardErrors
      raisePolicy := read "ARBOR_RAISE_POLICY" (namedBy RaisePolicy.names) c.settings.raisePolicy
      maxMicrosteps := read "ARBOR_MAX_MICROSTEPS" Text.word? c.settings.maxMicrosteps }
    host := {
      commandCapacity := read "ARBOR_COMMAND_CAPACITY" Text.word? c.host.commandCapacity
      notificationCapacity :=
        read "ARBOR_NOTIFICATION_CAPACITY" Text.word? c.host.notificationCapacity
      replyTimeout := read "ARBOR_REPLY_TIMEOUT_MS" Text.word? c.host.replyTimeout }
    serviceDelay := read "ARBOR_SERVICE_DELAY_MS" Text.word? c.serviceDelay }

/-- Reads a configuration file. -/
def ofFile (env : Environment) (path : String) : Except ConfigError Config :=
  match env.file? path with
  | none => .error (.unreadable path)
  | some text => (ofText text).mapError fun _ => .malformed path

/-- The defaults under the environment's variables. -/
def ofVariables (env : Environment) : Config := overridden env.value? {}

def validated (c : Config) : Except ConfigError Config :=
  match c.fault? with
  | some fault => .error (.invalid fault)
  | none => .ok c

/-- The file that the environment names, or the defaults, under the environment's variables. -/
def load (env : Environment) : Except ConfigError Config := do
  let base ← match env.value? "ARBOR_CONFIG" with
    | some path => ofFile env path
    | none => pure {}
  (overridden env.value? base).validated

end Config

end Statechart
