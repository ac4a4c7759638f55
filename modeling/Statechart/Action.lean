import Statechart.Provider

/-!
# Actions

An action logs a message, writes a value into the context, or raises an event. It has its whole
effect or, when a value cannot be resolved, none.
-/
namespace Statechart

inductive LogLevel where
  | trace
  | debug
  | info
  | warn
  | error
  deriving DecidableEq

def LogLevel.names : List (String × LogLevel) :=
  [("trace", .trace), ("debug", .debug), ("info", .info), ("warn", .warn), ("error", .error)]

/-- A name may also be the key of an empty object. -/
def LogLevel.decode : Json → Decoded LogLevel
  | .obj [(name, .obj [])] => Decode.oneOf LogLevel.names (.str name)
  | document => Decode.oneOf LogLevel.names document

def LogLevel.name : LogLevel → String
  | trace => "trace"
  | debug => "debug"
  | info => "info"
  | warn => "warn"
  | error => "error"

/-- A message that a machine has logged. -/
structure LogRecord where
  machine : String
  level : LogLevel
  label : Option String
  message : Json

def LogRecord.toJson (r : LogRecord) : Json :=
  .obj ((match r.label with | some l => [("label", .str l)] | none => []) ++
    [("level", .str r.level.name), ("machine", .str r.machine), ("message", r.message)])

/-- Whether events raised by actions are queued or refused. -/
inductive RaisePolicy where
  | queue
  | reject
  deriving DecidableEq

def RaisePolicy.names : List (String × RaisePolicy) := [("queue", .queue), ("reject", .reject)]

def RaisePolicy.name : RaisePolicy → String
  | queue => "queue"
  | reject => "reject"

inductive Action where
  | log (label : Option String) (level : LogLevel) (message : Provider)
  | assign (key : String) (value : Provider)
  | raise (event : String) (data : Option Provider)

/-- Why an action has had no effect. -/
inductive ActionFailure where
  | resolution (cause : ResolutionError)
  | raiseRejected (event : String)
  deriving DecidableEq

def ActionFailure.message : ActionFailure → String
  | resolution cause => cause.message
  | raiseRejected event => "raise of '" ++ event ++ "' rejected while a dispatch is in progress"

/-- What actions act on: the context, the events raised and the messages logged so far. -/
structure Scope where
  context : Context
  raised : List Event
  logs : List LogRecord

namespace Action

/-- The action as messages show it. -/
def describe : Action → String
  | log (some label) .. => "log(" ++ label ++ ")"
  | log none .. => "log"
  | assign key _ => "assign(" ++ key ++ ")"
  | raise event _ => "raise(" ++ event ++ ")"

/-- Runs an action of a machine. A refused raise fails before its payload is resolved. -/
def apply (machine : String) (policy : RaisePolicy) (event : Option Event) (scope : Scope) :
    Action → Except ActionFailure Scope
  | log label level message => do
    let message ← (message.resolve scope.context event).mapError .resolution
    return { scope with logs := scope.logs ++ [⟨machine, level, label, message⟩] }
  | assign key value => do
    let value ← (value.resolve scope.context event).mapError .resolution
    let context ← (scope.context.setPath key value).mapError .resolution
    return { scope with context }
  | raise name data => do
    if policy = .reject then
      throw (.raiseRejected name)
    let payload ← match data with
      | some provider => (provider.resolve scope.context event).mapError .resolution
      | none => .ok .null
    return { scope with raised := scope.raised ++ [⟨name, payload⟩] }

/-- Runs actions one after another up to the first that fails. -/
def applyAll (machine : String) (policy : RaisePolicy) (event : Option Event) :
    List Action → Scope → Scope × Option (Action × ActionFailure)
  | [], scope => (scope, none)
  | action :: rest, scope =>
    match action.apply machine policy event scope with
    | .ok scope => applyAll machine policy event rest scope
    | .error failure => (scope, some (action, failure))

/-- An optional member of an object. -/
def optionalMember (key : String) : Option Json → List (String × Json)
  | some value => [(key, value)]
  | none => []

/-- The type first, then the fields in a fixed order; what is absent is left out. -/
def toJson : Action → Json
  | log label level message =>
    .obj (("type", .str "log") :: (optionalMember "label" (label.map .str) ++
      [("level", .str level.name), ("message", message.toJson)]))
  | assign key value =>
    .obj [("type", .str "assign"), ("key", .str key), ("value", value.toJson)]
  | raise event data =>
    .obj ([("type", .str "raise"), ("event", .str event)] ++
      optionalMember "data" (data.map Provider.toJson))

/-- The fields of an action, whichever of them its type has. -/
structure Fields where
  label : Option (Option String) := none
  level : Option LogLevel := none
  message : Option Provider := none
  key : Option String := none
  value : Option Provider := none
  event : Option String := none
  data : Option (Option Provider) := none

def Fields.addLog (f : Fields) : String × Json → Decoded Fields
  | (k, v) =>
    if k = "label" then do
      return { f with label := ← Decode.once f.label (Decode.optional Decode.string v) }
    else if k = "level" then do
      return { f with level := ← Decode.once f.level (LogLevel.decode v) }
    else if k = "message" then do
      return { f with message := ← Decode.once f.message (Provider.decode v) }
    else .ok f

def Fields.addAssign (f : Fields) : String × Json → Decoded Fields
  | (k, v) =>
    if k = "key" then do return { f with key := ← Decode.once f.key (Decode.string v) }
    else if k = "value" then do
      return { f with value := ← Decode.once f.value (Provider.decode v) }
    else .ok f

def Fields.addRaise (f : Fields) : String × Json → Decoded Fields
  | (k, v) =>
    if k = "event" then do return { f with event := ← Decode.once f.event (Decode.string v) }
    else if k = "data" then do
      return { f with data := ← Decode.once f.data (Decode.optional Provider.decode v) }
    else .ok f

/-- The fields of each type of action in their order. -/
def fieldNames : List (String × List String) :=
  [("log", ["label", "level", "message"]), ("assign", ["key", "value"]),
    ("raise", ["event", "data"])]

/-- The action of a type with some fields; those of other names are ignored. -/
def ofMembers (type : String) (members : List (String × Json)) : Decoded Action :=
  if type = "log" then do
    let f ← members.foldlM Fields.addLog {}
    return log (f.label.getD none) (f.level.getD .info) (← Decode.required f.message)
  else if type = "assign" then do
    let f ← members.foldlM Fields.addAssign {}
    return assign (← Decode.required f.key) (← Decode.required f.value)
  else if type = "raise" then do
    let f ← members.foldlM Fields.addRaise {}
    return raise (← Decode.required f.event) (f.data.getD none)
  else
    .error .shape

/-- The name of a type, which may be given by its place among the types where numbers count. -/
def typeName (numbered : Bool) : Json → Decoded String
  | .str s => .ok s
  | .num n =>
    if numbered then Decode.required ((n.unsigned?.bind (fieldNames[·]?)).map (·.1))
    else .error .shape
  | _ => .error .shape

/-- An object with a type, or the array of the type and the fields in order. -/
def decode (numbered : Bool) : Json → Decoded Action
  | .obj members => do
    let type ← typeName numbered (← Decode.required (← Decode.field? ["type"] members))
    ofMembers type members
  | .arr (type :: items) => do
    let type ← typeName numbered type
    let names ← Decode.required (fieldNames.lookup type)
    Decode.record names (ofMembers type) (.arr items)
  | _ => .error .shape

end Action

end Statechart
