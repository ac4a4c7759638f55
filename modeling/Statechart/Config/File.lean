import Statechart.Config.Basic
import Statechart.Yaml.Node
import Statechart.Yaml.Writer

/-!
# Configuration files

A configuration is written as a YAML mapping of sections. A section that is left empty has its
defaults. What is read may refer to anchors, and scalars may have tags.
-/
namespace Statechart.Config

open Yaml

/-- The tags of absent values and of whole numbers. -/
def nullTag : List UInt8 := octetsOf "tag:yaml.org,2002:null"

def intTag : List UInt8 := octetsOf "tag:yaml.org,2002:int"

/-- The characters of a scalar, whatever they look like. -/
def characters (d : Document) (n : Node) : Decoded String :=
  match d.follow n with
  | .scalar _ _ s => .ok s
  | _ => .error .shape

/-- The members of a section. -/
def section? (d : Document) (n : Node) : Decoded (List (String × Node)) :=
  match d.follow n with
  | .map entries => entries.mapM fun (key, value) => do return (← characters d key, value)
  | .scalar .plain _ "" => .ok []
  | _ => .error .shape

/-- A plain scalar, or a literal one with the tag of whole numbers. -/
def natural (d : Document) (n : Node) : Decoded Nat :=
  let read (s : String) : Decoded Nat := Decode.required (unsigned? s)
  match d.follow n with
  | .scalar .plain _ s => read s
  | .scalar .literal (some tag) s => if tag = intTag then read s else .error .shape
  | _ => .error .shape

/-- A text, or none where a plain scalar without a tag is empty or stands for an absent value. Under
the tag of absent values nothing but a word for one may stand. -/
def optionalText (d : Document) (n : Node) : Decoded (Option String) :=
  match d.follow n with
  | .scalar .plain tag s =>
    if tag = some nullTag then if isNullWord s then .ok none else .error .shape
    else if tag.isNone && (s = "" || isNullWord s) then .ok none
    else .ok (some s)
  | node => (characters d node).map some

/-- The name in a tag that begins with its mark. -/
def nameInTag? (tag : List UInt8) : Option String :=
  if tag.take 1 = tagMark then String.fromUTF8? ⟨(tag.drop 1).toArray⟩ else none

/-- One of a list of names, alone or as the tag of an absent value. -/
def choice {α : Type} (names : List (String × α)) (d : Document) (n : Node) : Decoded α :=
  match d.follow n with
  | .scalar style tag s =>
    match tag.bind nameInTag? with
    | some name =>
      if style = .plain && (s = "" || isNullWord s) then Decode.oneOf names (.str name)
      else .error .shape
    | none => Decode.oneOf names (.str s)
  | _ => .error .shape

def settingsOf (d : Document) (n : Node) : Decoded Settings := do
  let members ← section? d n
  let guardErrors ← Decode.fieldOr "guard_errors" .skip (choice GuardErrorPolicy.names d) members
  let raisePolicy ← Decode.fieldOr "raise_policy" .queue (choice RaisePolicy.names d) members
  let maxMicrosteps ← Decode.fieldOr "max_microsteps" 1000 (natural d) members
  return { guardErrors, raisePolicy, maxMicrosteps }

def hostOf (d : Document) (n : Node) : Decoded HostLimits := do
  let members ← section? d n
  let commandCapacity ← Decode.fieldOr "command_capacity" 64 (natural d) members
  let notificationCapacity ← Decode.fieldOr "notification_capacity" 1024 (natural d) members
  let replyTimeout ← Decode.fieldOr "reply_timeout_ms" 5000 (natural d) members
  return { commandCapacity, notificationCapacity, replyTimeout }

def serviceDelayOf (d : Document) (n : Node) : Decoded Nat := do
  Decode.fieldOr "default_delay_ms" 100 (natural d) (← section? d n)

def ofDocument (d : Document) : Decoded Config := do
  let members ← section? d d.root
  let definition ← Decode.fieldOr "definition" none (optionalText d) members
  let settings ← Decode.fieldOr "interpreter" {} (settingsOf d) members
  let host ← Decode.fieldOr "host" {} (hostOf d) members
  let serviceDelay ← Decode.fieldOr "services" 100 (serviceDelayOf d) members
  return { definition, settings, host, serviceDelay }

/-- Reads the text of a configuration file. -/
def ofText (s : String) : Decoded Config :=
  match Yaml.read? s with
  | some d => ofDocument d
  | none => .error .shape

/-- The text of a configuration file. -/
def toText (c : Config) : String :=
  let number (n : Nat) : Yaml := .plain (toString n)
  writeMapping ((c.definition.map fun path => ("definition", Yaml.text path)).toList ++
    [("interpreter", .map [("guard_errors", .text c.settings.guardErrors.name),
        ("raise_policy", .text c.settings.raisePolicy.name),
        ("max_microsteps", number c.settings.maxMicrosteps)]),
      ("host", .map [("command_capacity", number c.host.commandCapacity),
        ("notification_capacity", number c.host.notificationCapacity),
        ("reply_timeout_ms", number c.host.replyTimeout)]),
      ("services", .map [("default_delay_ms", number c.serviceDelay)])])

end Statechart.Config
