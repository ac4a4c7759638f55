import Statechart.Machine.Basic

/-!
# Configuration

The settings of machines, of the host that runs them and of the services that every host has.
Every part has a default, and members of other names are ignored.
-/
namespace Statechart

/-- How a host deals with its callers and watchers. -/
structure HostLimits where
  /-- How many commands an instance accepts before it has carried them out. -/
  commandCapacity : Nat := 64
  /-- How many unread notifications a watcher keeps. -/
  notificationCapacity : Nat := 1024
  /-- How long a caller waits for an answer, in milliseconds. -/
  replyTimeout : Nat := 5000
  deriving DecidableEq

structure Config where
  /-- The path of the definition that a program runs. -/
  definition : Option String := none
  settings : Settings := {}
  host : HostLimits := {}
  /-- The waiting time of the service that waits, in milliseconds, when its input names none. -/
  serviceDelay : Nat := 100
  deriving DecidableEq

namespace HostLimits

def fieldNames : List String := ["command_capacity", "notification_capacity", "reply_timeout_ms"]

def toDocument (l : HostLimits) : Json :=
  .obj [("command_capacity", .ofNat l.commandCapacity),
    ("notification_capacity", .ofNat l.notificationCapacity),
    ("reply_timeout_ms", .ofNat l.replyTimeout)]

def decode : Json → Decoded HostLimits := Decode.record fieldNames fun members => do
  let commandCapacity ← Decode.fieldOr "command_capacity" 64 Decode.nat members
  let notificationCapacity ← Decode.fieldOr "notification_capacity" 1024 Decode.nat members
  let replyTimeout ← Decode.fieldOr "reply_timeout_ms" 5000 Decode.nat members
  return { commandCapacity, notificationCapacity, replyTimeout }

/-- The capacities from which on there is no inbox and no channel of notifications. -/
def inboxLimit : Nat := 0x2000000000000000

def channelLimit : Nat := 0x100000000000000

/-- Capacities of zero are raised to one. -/
def usable (l : HostLimits) : HostLimits :=
  { l with
    commandCapacity := max 1 l.commandCapacity
    notificationCapacity := max 1 l.notificationCapacity }

end HostLimits

/-- A value that a configuration must not have. -/
inductive ConfigFault where
  | noMicrosteps
  | noCommandCapacity
  | noNotificationCapacity
  | noReplyTime
  deriving DecidableEq

def ConfigFault.reason : ConfigFault → String
  | noMicrosteps => "interpreter.max_microsteps must be at least 1"
  | noCommandCapacity => "host.command_capacity must be at least 1"
  | noNotificationCapacity => "host.notification_capacity must be at least 1"
  | noReplyTime => "host.reply_timeout_ms must be greater than 0"

namespace Config

/-- The members in the order in which a configuration file has them. -/
def toDocument (c : Config) : Json :=
  .obj (Action.optionalMember "definition" (c.definition.map .str) ++
    [("interpreter", .obj [("guard_errors", .str c.settings.guardErrors.name),
        ("raise_policy", .str c.settings.raisePolicy.name),
        ("max_microsteps", .ofNat c.settings.maxMicrosteps)]),
      ("host", c.host.toDocument),
      ("services", .obj [("default_delay_ms", .ofNat c.serviceDelay)])])

def decodeServices : Json → Decoded Nat :=
  Decode.record ["default_delay_ms"] (Decode.fieldOr "default_delay_ms" 100 Decode.nat)

def fieldNames : List String := ["definition", "interpreter", "host", "services"]

def decode : Json → Decoded Config := Decode.record fieldNames fun members => do
  let definition ← Decode.fieldOr "definition" none (Decode.optional Decode.string) members
  let settings ← Decode.fieldOr "interpreter" {} Settings.decode members
  let host ← Decode.fieldOr "host" {} HostLimits.decode members
  let serviceDelay ← Decode.fieldOr "services" 100 decodeServices members
  return { definition, settings, host, serviceDelay }

/-- The faults of a configuration, the first one counting. -/
def fault? (c : Config) : Option ConfigFault :=
  if c.settings.maxMicrosteps = 0 then some .noMicrosteps
  else if c.host.commandCapacity = 0 then some .noCommandCapacity
  else if c.host.notificationCapacity = 0 then some .noNotificationCapacity
  else if c.host.replyTimeout = 0 then some .noReplyTime
  else none

end Config

end Statechart
