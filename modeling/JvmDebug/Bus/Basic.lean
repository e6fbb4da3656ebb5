/-!
# Buses

A bus knows its listeners in the order in which they subscribed. Each subscription has a number of its own, by which
it is ended. To publish is to call the listeners that the bus has at that moment; since a bus is a value, listeners
that come or go meanwhile make no difference to a delivery that has begun.
-/

namespace JvmDebug
set_option autoImplicit false

structure Bus (L : Type) where
  next : Nat := 1
  entries : List (Nat × L) := []

namespace Bus

variable {L : Type}

def subscribe (b : Bus L) (listener : L) : Nat × Bus L :=
  (b.next, { next := b.next + 1, entries := b.entries ++ [(b.next, listener)] })

def unsubscribe (b : Bus L) (id : Nat) : Bus L := { b with entries := b.entries.filter (·.1 != id) }

def listeners (b : Bus L) : List L := b.entries.map (·.2)

def count (b : Bus L) : Nat := b.entries.length

end Bus
end JvmDebug
