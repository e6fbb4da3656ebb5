import JvmDebug.Bus.Basic

/-!
# Delivery

What happens on a bus whose listeners act on it while they are called: they may subscribe further listeners, drop
subscriptions and publish events of their own. `Hub.step` does one task and puts what follows from it in front of the
tasks that wait, so that a nested delivery is complete before the outer one goes on.
-/

namespace JvmDebug
set_option autoImplicit false

variable {ν ε : Type}

/-- Something done to a bus. Subscriptions are held under names, and may be moved into a bag that is emptied as a
whole. -/
inductive Act (ν ε : Type) where
  | subscribe (name : ν) (reaction : ε → List (Act ν ε))
  | drop (name : ν)
  | keep (name : ν)
  | emptyBag
  | publish (event : ε)

instance : Inhabited (Act ν ε) := ⟨.emptyBag⟩

/-- A listener, and what it does when it hears an event. -/
structure Listener (ν ε : Type) where
  name : ν
  reaction : ε → List (Act ν ε)

/-- A bus with the subscriptions that are held to it. -/
structure Hub (ν ε : Type) where
  bus : Bus (Listener ν ε) := {}
  held : List (ν × Nat) := []
  bag : List Nat := []

inductive Task (ν ε : Type) where
  | act (a : Act ν ε)
  | call (listener : Listener ν ε) (event : ε)

namespace Hub

variable [DecidableEq ν]

def release (h : Hub ν ε) (name : ν) : Hub ν ε :=
  match h.held.find? (·.1 = name) with
  | some (_, id) => { h with bus := h.bus.unsubscribe id, held := h.held.filter (·.1 ≠ name) }
  | none => h

/-- Registers a listener; one that was held under its name is dropped afterwards. -/
def add (h : Hub ν ε) (listener : Listener ν ε) : Hub ν ε :=
  let (id, bus) := h.bus.subscribe listener
  let h := release { h with bus } listener.name
  { h with held := h.held ++ [(listener.name, id)] }

/-- Does one task. Yields the call that was made, the tasks that follow from it, and the hub afterwards. -/
def step (h : Hub ν ε) : Task ν ε → Option (ν × ε) × List (Task ν ε) × Hub ν ε
  | .call listener event => (some (listener.name, event), (listener.reaction event).map .act, h)
  | .act (.subscribe name reaction) => (none, [], h.add ⟨name, reaction⟩)
  | .act (.drop name) => (none, [], h.release name)
  | .act (.keep name) =>
    match h.held.find? (·.1 = name) with
    | some (_, id) => (none, [], { h with held := h.held.filter (·.1 ≠ name), bag := h.bag ++ [id] })
    | none => (none, [], h)
  | .act .emptyBag => (none, [], { h with bus := h.bag.foldl Bus.unsubscribe h.bus, bag := [] })
  | .act (.publish event) => (none, h.bus.listeners.map (.call · event), h)

/-- Does tasks, the first one first, until none is left or the fuel is used up. Yields the calls in their order. -/
def run : (fuel : Nat) → List (Task ν ε) → Hub ν ε → List (ν × ε) × Hub ν ε
  | _, [], h => ([], h)
  | 0, _, h => ([], h)
  | fuel + 1, task :: tasks, h =>
    let (called, next, h) := h.step task
    let (calls, h) := run fuel (next ++ tasks) h
    (called.toList ++ calls, h)

end Hub
end JvmDebug
