import Statechart.Resolution
import Statechart.Text.CharClass

/-!
# Contexts

The data of a machine is a JSON object. A path is a list of segments between points; reading
follows them through objects and arrays, writing goes through objects alone and creates those
that are missing.
-/
namespace Statechart

namespace Path

/-- The segments of a path; the empty path has one empty segment. -/
def segments (path : String) : List String := (Text.splitOn '.' path.toList).map String.ofList

/-- One step into a value. Array positions are decimal numbers of 64 bits. -/
def step? (segment : String) : Json → Option Json
  | .obj members => Keyed.get? segment members
  | .arr items => (Text.word? segment).bind fun i => items[i]?
  | _ => none

def follow? : List String → Json → Option Json
  | [], value => some value
  | segment :: rest, value => (step? segment value).bind (follow? rest)

/-- The value at a path inside a value; the empty path is the value itself. -/
def lookupIn? (path : String) (root : Json) : Option Json :=
  if path.isEmpty then some root else follow? (segments path) root

/-- Writes a value below an object. Fails with the value that stands in the way. -/
def write (value : Json) : List String → Keyed Json → Except Json (Keyed Json)
  | [], members => .ok members
  | [last], members => .ok (Keyed.insert last value members)
  | segment :: next :: rest, members =>
    match Keyed.get? segment members with
    | none => (write value (next :: rest) []).map fun inner =>
        Keyed.insert segment (.obj inner) members
    | some (.obj inner) => (write value (next :: rest) inner).map fun inner =>
        Keyed.insert segment (.obj inner) members
    | some other => .error other

end Path

structure Context where
  data : Keyed Json

namespace Context

def empty : Context := ⟨[]⟩

instance : Inhabited Context := ⟨empty⟩

/-- An object is a context, `null` the empty one; any other value is returned as the error. -/
def ofJson : Json → Except Json Context
  | .obj members => .ok ⟨members⟩
  | .null => .ok empty
  | other => .error other

def toJson (ctx : Context) : Json := .obj ctx.data

/-- Puts the members of one context over those of another. -/
def override (base top : Context) : Context :=
  ⟨top.data.foldl (fun data (k, v) => Keyed.insert k v data) base.data⟩

/-- The defaults with the overrides put over them, each being checked in that order. -/
def merged (defaults overrides : Json) : Except Json Context := do
  let base ← ofJson defaults
  let top ← ofJson overrides
  return base.override top

def get? (key : String) (ctx : Context) : Option Json := Keyed.get? key ctx.data

def contains (key : String) (ctx : Context) : Bool := Keyed.contains key ctx.data

def size (ctx : Context) : Nat := ctx.data.length

/-- Gives a key a value. Returns the one that it had. -/
def set (key : String) (value : Json) (ctx : Context) : Context × Option Json :=
  (⟨Keyed.insert key value ctx.data⟩, ctx.get? key)

/-- Takes a key out. Returns the value that it had. -/
def remove (key : String) (ctx : Context) : Context × Option Json :=
  (⟨Keyed.erase key ctx.data⟩, ctx.get? key)

def lookup (path : String) (ctx : Context) : Except ResolutionError Json :=
  match Path.follow? (Path.segments path) ctx.toJson with
  | some value => .ok value
  | none => .error (.missingPath path)

/-- Writes a value at a path. Fails, leaving everything as it was, when something other than an
object stands on the way. -/
def setPath (path : String) (value : Json) (ctx : Context) : Except ResolutionError Context :=
  match Path.write value (Path.segments path) ctx.data with
  | .ok data => .ok ⟨data⟩
  | .error found => .error (.typeMismatch path "object" found.kind)

end Context

end Statechart
