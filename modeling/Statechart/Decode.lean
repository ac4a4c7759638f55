import Statechart.Expr.Reader

/-!
# Decoding JSON

A decoder takes a document and fails with the first fault in the order in which the document is
written. A record may also be given as the array of its fields.
-/
namespace Statechart

/-- Why a document is refused: a wrong shape, or an expression that cannot be read. -/
inductive DecodeError where
  | shape
  | expression (cause : Expr.ReadError)
  deriving DecidableEq

abbrev Decoded := Except DecodeError

namespace Decode

def string : Json → Decoded String
  | .str s => .ok s
  | _ => .error .shape

def nat : Json → Decoded Nat
  | .num n => match n.unsigned? with
    | some i => .ok i
    | none => .error .shape
  | _ => .error .shape

/-- `null` stands for an absent value. -/
def optional {α : Type} (decode : Json → Decoded α) : Json → Decoded (Option α)
  | .null => .ok none
  | value => (decode value).map some

def list {α : Type} (decode : Json → Decoded α) : Json → Decoded (List α)
  | .arr items => items.mapM decode
  | _ => .error .shape

/-- Every entry is decoded; of equal keys the last one counts. -/
def table {α : Type} (decode : Json → Decoded α) : Json → Decoded (Keyed α)
  | .obj members => do
    let entries ← members.mapM fun (k, v) => do return (k, ← decode v)
    return Keyed.ofList entries
  | _ => .error .shape

/-- One of a list of names, alone or as the key of `null`. -/
def oneOf {α : Type} (names : List (String × α)) : Json → Decoded α
  | .str s | .obj [(s, .null)] => match names.lookup s with
    | some value => .ok value
    | none => .error .shape
  | _ => .error .shape

/-- A field may be given once. -/
def once {α : Type} (slot : Option α) (value : Decoded α) : Decoded (Option α) :=
  if slot.isSome then .error .shape else value.map some

/-- A field that must be given. -/
def required {α : Type} : Option α → Decoded α
  | some value => .ok value
  | none => .error .shape

/-- Decodes the members of a record, or of the array of its fields in order. An array that is too
long is refused after its fields. -/
def record {α : Type} (names : List String) (decode : List (String × Json) → Decoded α) :
    Json → Decoded α
  | .obj members => decode members
  | .arr items => do
    let value ← decode (names.zip items)
    if items.length ≤ names.length then return value else throw .shape
  | _ => .error .shape

/-- The member of a record with one of the names of a field, which may be given once. -/
def field? {α : Type} (names : List String) (members : List (String × α)) : Decoded (Option α) :=
  match members.filter fun (k, _) => names.contains k with
  | [] => .ok none
  | [(_, value)] => .ok (some value)
  | _ => .error .shape

/-- A field that has a default. -/
def fieldOr {α β : Type} (name : String) (default : α) (decode : β → Decoded α)
    (members : List (String × β)) : Decoded α := do
  match ← field? [name] members with
  | some value => decode value
  | none => return default

end Decode

end Statechart
