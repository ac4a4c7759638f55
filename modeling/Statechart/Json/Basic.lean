import Statechart.Json.Number
import Statechart.Keyed

/-!
# JSON values

A document keeps the members of its objects as they are written. A value in normal form has
them sorted by key, each key once; `normal` sorts and lets the last of equal keys win.
-/
namespace Statechart

inductive Json where
  | null
  | bool (value : Bool)
  | num (value : Number)
  | str (value : String)
  | arr (items : List Json)
  | obj (members : List (String × Json))

namespace Json

instance : Inhabited Json := ⟨.null⟩

/-- The name of a value's kind in messages. -/
def kind : Json → String
  | null => "null"
  | bool _ => "boolean"
  | num _ => "number"
  | str _ => "string"
  | arr _ => "array"
  | obj _ => "object"

def isNull : Json → Bool
  | null => true
  | _ => false

/-- A whole number; one beyond 64 bits becomes the nearest double. -/
def ofInt (i : Int) : Json :=
  match Number.ofInt? i with
  | some n => num n
  | none => num (.double ((Double.ofRatio? (i < 0) (i.natAbs * Double.one) 1).getD Double.zero))

def ofNat (n : Nat) : Json := ofInt n

def strings (xs : List String) : Json := arr (xs.map str)

mutual

/-- Structural equality, numbers of one kind being compared by value. -/
def same : Json → Json → Bool
  | null, null => true
  | bool a, bool b => a == b
  | num a, num b => a.same b
  | str a, str b => a == b
  | arr as, arr bs => sameItems as bs
  | obj as, obj bs => sameMembers as bs
  | _, _ => false

def sameItems : List Json → List Json → Bool
  | [], [] => true
  | a :: as, b :: bs => same a b && sameItems as bs
  | _, _ => false

def sameMembers : List (String × Json) → List (String × Json) → Bool
  | [], [] => true
  | (k, a) :: as, (l, b) :: bs => k == l && same a b && sameMembers as bs
  | _, _ => false

end

mutual

/-- Sorts the members of every object; of equal keys the last one counts. -/
def normal : Json → Json
  | arr items => arr (normalItems items)
  | obj members => obj (normalMembers members [])
  | value => value

def normalItems : List Json → List Json
  | [] => []
  | item :: items => normal item :: normalItems items

def normalMembers : List (String × Json) → Keyed Json → Keyed Json
  | [], sorted => sorted
  | (k, v) :: rest, sorted => normalMembers rest (Keyed.insert k (normal v) sorted)

end

/-- The member of an object; a document's last one of that key. -/
def member? (key : String) : Json → Option Json
  | obj members => members.reverse.lookup key
  | _ => none

/-- The member of an object, `null` when there is none. -/
def field (key : String) (value : Json) : Json := (value.member? key).getD null

def string? : Json → Option String
  | str s => some s
  | _ => none

def bool? : Json → Option Bool
  | bool b => some b
  | _ => none

def nat? : Json → Option Nat
  | num n => n.unsigned?
  | _ => none

def array? : Json → Option (List Json)
  | arr items => some items
  | _ => none

def members? : Json → Option (List (String × Json))
  | obj members => some members
  | _ => none

end Json

end Statechart
