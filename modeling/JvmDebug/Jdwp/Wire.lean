import JvmDebug.Jdwp.Query
import JvmDebug.Routine.Basic

/-!
# Asking the machine

A program that talks to a machine calls on it with commands, and gets replies. Here queries are put as such calls.
-/

namespace JvmDebug.Jdwp
set_option autoImplicit false

/-- Commands go out and replies come in, unless the connection fails. -/
def Wire : Interface := ⟨Command, fun _ => Except Error Reply⟩

variable {S : Type} {α : Type}

def ask (q : Query α) : Routine S Wire (Except Error α) := do
  let reply : Except Error Reply ← Routine.ask (I := Wire) q.command
  return reply >>= q.answer

/-- Asks for events; yields the number that the machine gave to the request. -/
def place (r : EventRequest) : Routine S Wire (Except Error RequestId) := do
  match ← ask (Query.setRequest r) with
  | .ok id =>
    Routine.debug .eventRequest s!"Installed event request kind={r.kind} id={id}"
    return .ok id
  | .error e => return .error e

def withdraw (kind : EventKind) (request : RequestId) : Routine S Wire (Except Error Unit) :=
  ask (Query.clearRequest kind.toByte request)

end JvmDebug.Jdwp
