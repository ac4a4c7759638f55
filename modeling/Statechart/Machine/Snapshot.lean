import Statechart.Machine.Basic

/-!
# Snapshots

A snapshot is what is kept of a machine between two runs of a program.
-/
namespace Statechart

structure Snapshot where
  chart : String
  checksum : String
  status : Status
  /-- The innermost active state. -/
  active : Option String
  configuration : List String
  context : Json

namespace Snapshot

def toJson (s : Snapshot) : Json :=
  .obj (Action.optionalMember "active" (s.active.map .str) ++
    [("chart", .str s.chart), ("checksum", .str s.checksum),
      ("configuration", .strings s.configuration), ("context", s.context),
      ("status", .str s.status.name)])

def fieldNames : List String :=
  ["chart", "checksum", "status", "active", "configuration", "context"]

def decode : Json → Decoded Snapshot := Decode.record fieldNames fun members => do
  let required {α : Type} (name : String) (decode : Json → Decoded α) : Decoded α := do
    decode (← Decode.required (← Decode.field? [name] members))
  let chart ← required "chart" Decode.string
  let checksum ← required "checksum" Decode.string
  let status ← required "status" (Decode.oneOf Status.names)
  let active ← Decode.fieldOr "active" none (Decode.optional Decode.string) members
  let configuration ← Decode.fieldOr "configuration" [] (Decode.list Decode.string) members
  let context ← required "context" fun v => .ok v.normal
  return { chart, checksum, status, active, configuration, context }

end Snapshot

namespace Machine

def snapshot (m : Machine) : Snapshot where
  chart := m.chart.id
  checksum := m.chart.checksum
  status := m.status
  active := m.activeLeaf?
  configuration := m.configurationIds
  context := m.context.toJson

end Machine

end Statechart
