/-!
# Tables sorted by key

A table is a list of keys and values in increasing order of the keys, each key once. Strings are
ordered by code point, which is the order of their UTF-8 bytes.
-/
namespace Statechart

abbrev Keyed (α : Type) := List (String × α)

namespace Keyed

variable {α β : Type}

def get? (key : String) : Keyed α → Option α
  | [] => none
  | (k, v) :: rest => if k = key then some v else get? key rest

def contains (key : String) (table : Keyed α) : Bool := (get? key table).isSome

/-- Adds an entry at its place, replacing the value of a key that is present. -/
def insert (key : String) (value : α) : Keyed α → Keyed α
  | [] => [(key, value)]
  | (k, v) :: rest =>
    if key < k then (key, value) :: (k, v) :: rest
    else if k = key then (key, value) :: rest
    else (k, v) :: insert key value rest

def erase (key : String) : Keyed α → Keyed α
  | [] => []
  | (k, v) :: rest => if k = key then rest else (k, v) :: erase key rest

/-- Collects entries in any order; of equal keys the last one counts. -/
def ofList (entries : List (String × α)) : Keyed α :=
  entries.foldl (fun table (k, v) => insert k v table) []

def keys (table : Keyed α) : List String := table.map (·.1)

/-- The keys in increasing order, each once. -/
def sortedKeys (names : List String) : List String :=
  keys (ofList (names.map fun name => (name, ())))

/-- Every key comes strictly before the next. -/
def Sorted (table : Keyed α) : Prop := table.Pairwise fun a b => a.1 < b.1

@[simp] theorem get?_insert_self (key : String) (value : α) (table : Keyed α) :
    get? key (insert key value table) = some value := by
  induction table with
  | nil => simp [insert, get?]
  | cons entry rest ih =>
    unfold insert
    split
    · simp [get?]
    · split
      · simp [get?]
      · next h => simp [get?, h, ih]

theorem get?_insert_of_ne {key other : String} (h : other ≠ key) (value : α) (table : Keyed α) :
    get? other (insert key value table) = get? other table := by
  induction table with
  | nil => simp [insert, get?, Ne.symm h]
  | cons entry rest ih =>
    unfold insert
    split
    · simp [get?, Ne.symm h]
    · split
      · next hk => simp [get?, hk, Ne.symm h]
      · simp [get?, ih]

end Keyed

end Statechart
