import Statechart.Definition.Basic

/-!
# Decoding definitions

A transition list may be written as a target, as one transition, or as an array of either. The
root state's members stand beside the chart's own. The actions of a definition may give their types
by number.
-/
namespace Statechart

namespace TransitionDef

structure Fields where
  target : Option (Option String) := none
  guard : Option (Option Guard) := none
  actions : Option (List Action) := none

/-- A member of any other name is refused. -/
def Fields.add (f : Fields) : String × Json → Decoded Fields
  | (k, v) =>
    if k = "target" then do
      return { f with target := ← Decode.once f.target (Decode.optional Decode.string v) }
    else if k = "guard" then do
      return { f with guard := ← Decode.once f.guard (Decode.optional Guard.decode v) }
    else if k = "actions" then do
      return { f with actions := ← Decode.once f.actions (Decode.list (Action.decode true) v) }
    else .error .shape

/-- A transition, or the target of one without guard and actions. -/
def decode : Json → Decoded TransitionDef
  | .str target => .ok { target := some target }
  | .obj members => do
    let f ← members.foldlM Fields.add {}
    return ⟨f.target.getD none, f.guard.getD none, f.actions.getD []⟩
  | _ => .error .shape

def decodeList : Json → Decoded (List TransitionDef)
  | .arr items => items.mapM decode
  | document => (decode document).map ([·])

end TransitionDef

namespace InvokeDef

structure Fields where
  id : Option (Option String) := none
  src : Option String := none
  input : Option (Option Provider) := none

/-- A member of any other name is refused. -/
def Fields.add (f : Fields) : String × Json → Decoded Fields
  | (k, v) =>
    if k = "id" then do
      return { f with id := ← Decode.once f.id (Decode.optional Decode.string v) }
    else if k = "src" then do return { f with src := ← Decode.once f.src (Decode.string v) }
    else if k = "input" then do
      return { f with input := ← Decode.once f.input (Decode.optional Provider.decode v) }
    else .error .shape

def decode : Json → Decoded InvokeDef := Decode.record ["id", "src", "input"] fun members => do
  let f ← members.foldlM Fields.add {}
  return ⟨f.id.getD none, ← Decode.required f.src, f.input.getD none⟩

end InvokeDef

namespace StateDef

structure Fields where
  initial : Option (Option String) := none
  entry : Option (List Action) := none
  exit : Option (List Action) := none
  on : Option (Keyed (List TransitionDef)) := none
  invoke : Option (Option InvokeDef) := none
  states : Option (Keyed StateDef) := none
  unknown : Keyed Json := []

/-- Adds a member other than the children. -/
def Fields.add (f : Fields) (k : String) (v : Json) : Decoded Fields :=
  if k = "initial" then do
    return { f with initial := ← Decode.once f.initial (Decode.optional Decode.string v) }
  else if k = "entry" then do
    return { f with entry := ← Decode.once f.entry (Decode.list (Action.decode true) v) }
  else if k = "exit" then do
    return { f with exit := ← Decode.once f.exit (Decode.list (Action.decode true) v) }
  else if k = "on" then do
    return { f with on := ← Decode.once f.on (Decode.table TransitionDef.decodeList v) }
  else if k = "invoke" then do
    return { f with invoke := ← Decode.once f.invoke (Decode.optional InvokeDef.decode v) }
  else .ok { f with unknown := Keyed.insert k v.normal f.unknown }

def Fields.toDef (f : Fields) : StateDef where
  initial := f.initial.getD none
  entry := f.entry.getD []
  exit := f.exit.getD []
  on := f.on.getD []
  invoke := f.invoke.getD none
  states := f.states.getD []
  unknown := f.unknown

mutual

def decode : Json → Decoded StateDef
  | .obj members => (decodeFields members {}).map Fields.toDef
  | _ => .error .shape

def decodeFields : List (String × Json) → Fields → Decoded Fields
  | [], f => .ok f
  | (k, v) :: rest, f =>
    if k = "states" then
      if f.states.isSome then .error .shape
      else
        match decodeTable v with
        | .error e => .error e
        | .ok states => decodeFields rest { f with states := some states }
    else
      match f.add k v with
      | .error e => .error e
      | .ok f => decodeFields rest f

def decodeTable : Json → Decoded (Keyed StateDef)
  | .obj members => (decodeEntries members).map Keyed.ofList
  | _ => .error .shape

def decodeEntries : List (String × Json) → Decoded (List (String × StateDef))
  | [] => .ok []
  | (id, v) :: rest =>
    match decode v with
    | .error e => .error e
    | .ok state =>
      match decodeEntries rest with
      | .error e => .error e
      | .ok states => .ok ((id, state) :: states)

end

end StateDef

namespace Definition

structure Fields where
  id : Option String := none
  context : Option (Option Json) := none
  metadata : Option (Option Json) := none
  /-- The members of the root state, in reverse. -/
  root : List (String × Json) := []

def Fields.add (f : Fields) : String × Json → Decoded Fields
  | (k, v) =>
    let value := Decode.optional (fun v => .ok v.normal) v
    if k = "id" then do return { f with id := ← Decode.once f.id (Decode.string v) }
    else if k = "context" then do return { f with context := ← Decode.once f.context value }
    else if k = "meta" then do return { f with metadata := ← Decode.once f.metadata value }
    else .ok { f with root := (k, v) :: f.root }

def decode : Json → Decoded Definition
  | .obj members => do
    let f ← members.foldlM Fields.add {}
    let id ← Decode.required f.id
    let root ← StateDef.decode (.obj f.root.reverse)
    return ⟨id, root, f.context.getD none, f.metadata.getD none⟩
  | _ => .error .shape

end Definition

end Statechart
