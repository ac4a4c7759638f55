/-!
# Observers

Observers are told of everything in the order of their subscription. A subscription has an id,
counted from one, which is not used again.
-/
namespace Statechart

structure Observers (α : Type) where
  entries : List (Nat × α) := []
  nextId : Nat := 1

namespace Observers

variable {α : Type}

/-- Adds an observer. Returns the id of its subscription. -/
def subscribe (observer : α) (o : Observers α) : Observers α × Nat :=
  ({ entries := o.entries ++ [(o.nextId, observer)], nextId := o.nextId + 1 }, o.nextId)

/-- Ends a subscription. Tells whether there was one. -/
def unsubscribe (id : Nat) (o : Observers α) : Observers α × Bool :=
  ({ o with entries := o.entries.filter fun (i, _) => i ≠ id }, o.entries.any fun (i, _) => i = id)

def toList (o : Observers α) : List α := o.entries.map (·.2)

end Observers

end Statechart
