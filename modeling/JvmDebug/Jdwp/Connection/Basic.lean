import JvmDebug.Jdwp.Event
import JvmDebug.Jdwp.Packet

/-!
# Connections

What those who work on one connection share. A caller puts its command into a queue under a ticket, and waits for the
outcome of that ticket. The writer takes commands from the queue; it notes that a reply is owed under the id of a
command before it writes the command, since the reply may come at once. The reader gives each reply to the ticket that
is noted under its id, and collects event sets. When the stream ends, the connection is closed: every reply that is
still owed becomes an error, and no reply is owed from then on.
-/

namespace JvmDebug.Jdwp
set_option autoImplicit false

/-- Under a ticket a caller waits for the outcome of its command. -/
abbrev Ticket := Nat

/-- A command that waits to be written. -/
structure Queued where
  id : UInt32
  command : Command
  ticket : Ticket
  deriving DecidableEq, Repr

structure Connection where
  nextId : UInt32 := 1
  nextTicket : Ticket := 0
  queue : List Queued := []
  /-- The ids under which replies are owed, and to whom. -/
  owed : List (UInt32 × Ticket) := []
  closed : Bool := false
  /-- What became of commands, until their callers take it. -/
  outcomes : List (Ticket × Except Error Reply) := []
  /-- The bytes that have come and are not read yet. -/
  incoming : Bytes := []
  /-- How the stream ended, if it has. -/
  ended : Option OsError := none
  /-- Whether packets are read; before that the stream belongs to the handshake. -/
  reading : Bool := false
  /-- The event sets that have come and are not taken yet. -/
  events : List EventSet := []
  eventsEnded : Bool := false
  /-- Whether somebody has taken it on to handle the events, and whether nobody will any more. -/
  eventsTaken : Bool := false
  eventsDropped : Bool := false

namespace Connection

/-- How many commands may wait to be written. -/
def queueLimit : Nat := 32

def freshId (c : Connection) : UInt32 × Connection := (c.nextId, { c with nextId := c.nextId + 1 })

def freshTicket (c : Connection) : Ticket × Connection := (c.nextTicket, { c with nextTicket := c.nextTicket + 1 })

def hasRoom (c : Connection) : Bool := c.queue.length < queueLimit

def enqueue (q : Queued) (c : Connection) : Connection := { c with queue := c.queue ++ [q] }

def dequeue? (c : Connection) : Option (Queued × Connection) :=
  match c.queue with
  | [] => none
  | q :: rest => some (q, { c with queue := rest })

/-- The outcome of a ticket, if there is one yet. -/
def outcome? (ticket : Ticket) (c : Connection) : Option (Except Error Reply) :=
  (c.outcomes.find? (·.1 = ticket)).map (·.2)

def settle (ticket : Ticket) (outcome : Except Error Reply) (c : Connection) : Connection :=
  { c with outcomes := c.outcomes ++ [(ticket, outcome)] }

def takeOutcome (ticket : Ticket) (c : Connection) : Except Error Reply × Connection :=
  ((c.outcome? ticket).getD (.error .closed), { c with outcomes := c.outcomes.filter (·.1 ≠ ticket) })

/-- Notes that a reply is owed to a command; whoever was owed one under the same id gets none any more. On a connection
that is closed the command fails. Says whether the command is to be written. -/
def owe (q : Queued) (c : Connection) : Bool × Connection :=
  if c.closed then (false, c.settle q.ticket (.error .closed))
  else
    let replaced := c.owed.filter (·.1 = q.id)
    (true,
      { c with
        owed := c.owed.filter (·.1 ≠ q.id) ++ [(q.id, q.ticket)]
        outcomes := c.outcomes ++ replaced.map fun r => (r.2, .error .closed) })

/-- Takes back that a reply is owed under an id; yields who it was owed to. -/
def redeem (id : UInt32) (c : Connection) : Option Ticket × Connection :=
  ((c.owed.find? (·.1 = id)).map (·.2), { c with owed := c.owed.filter (·.1 ≠ id) })

/-- Nothing will come any more: all that is owed fails. -/
def close (c : Connection) : Connection :=
  { c with
    closed := true
    owed := []
    outcomes := c.outcomes ++ c.owed.map fun r => (r.2, .error .closed) }

def endEvents (c : Connection) : Connection := { c with eventsEnded := true }

/-- Adds an event set, unless nobody wants it any more. -/
def addEvents (s : EventSet) (c : Connection) : Bool × Connection :=
  if c.eventsDropped then (false, c) else (true, { c with events := c.events ++ [s] })

/-- Takes it on to handle the events; only the first to ask does. -/
def takeEvents (c : Connection) : Bool × Connection := (!c.eventsTaken, { c with eventsTaken := true })

/-- Whether the next event set, or the end of them, is there. -/
def hasEvents (c : Connection) : Bool := !c.events.isEmpty || c.eventsEnded

def nextEvents (c : Connection) : Option EventSet × Connection := (c.events.head?, { c with events := c.events.tail })

/-- Gives up the events; those that nobody has looked at are lost. -/
def dropEvents (c : Connection) : Connection := { c with events := [], eventsDropped := true }

/-- Adds bytes that have come. -/
def receive (bytes : Bytes) (c : Connection) : Connection := { c with incoming := c.incoming ++ bytes }

/-- The other side ends the stream. -/
def hangUp (c : Connection) : Connection := { c with ended := some OsError.shortRead }

end Connection
end JvmDebug.Jdwp
