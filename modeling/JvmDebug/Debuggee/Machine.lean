import JvmDebug.Debuggee.Pump
import JvmDebug.Jdwp.Connection.Traffic

/-!
# Machines

A machine is a connection together with what is known about the debuggee behind it. Four workers serve it: the writer
and the reader of the connection, the pump and the rehook.
-/

namespace JvmDebug
set_option autoImplicit false

open Jdwp (Connection Link)

structure Machine where
  debuggee : Debuggee
  connection : Connection := {}
  /-- Whether the pump handles its events. -/
  followed : Bool := false

namespace Machine

/-- What a machine needs of the world. -/
inductive Call where
  | write (bytes : Bytes)
  | publish (e : DebugEvent)
  | exitCode
  | kill

abbrev Answer : Call → Type
  | .write _ => Except OsError Unit
  | .publish _ => Unit
  | .exitCode => Option Int32
  | .kill => Except OsError Unit

def World : Interface := ⟨Call, Answer⟩

abbrev Activity := Routine Machine World

variable {α : Type}

def onConnection (r : Routine Connection Link α) : Activity α :=
  (r.zoom Machine.connection fun c m => { m with connection := c }).interpret fun bytes =>
    Routine.ask (I := World) (.write bytes)

/-- The calls of a debuggee; its commands are sent on the connection. -/
def answer : (c : Debuggee.Call) → Activity (Debuggee.Answer c)
  | .command c => onConnection (Connection.request c)
  | .publish e => Routine.ask (I := World) (.publish e)
  | .exitCode => Routine.ask (I := World) .exitCode
  | .kill => Routine.ask (I := World) .kill

def onDebuggee (r : Debuggee.Activity α) : Activity α :=
  (r.zoom Machine.debuggee fun d m => { m with debuggee := d }).interpret answer

/-- Takes over the machine at the other end of a connection that has been established, and begins to follow it. -/
def start : Activity (Except Error Unit) := do
  let free ← Routine.modifyGet fun m =>
    let (free, connection) := m.connection.takeEvents
    (free, { m with connection })
  if !free then return .error (.connectFailed "VM events are already being consumed")
  match ← onDebuggee Debuggee.start.run with
  | .error e => return .error e
  | .ok _ =>
    Routine.modify fun m => { m with followed := true }
    return .ok ()

/-- The machine is gone: publishes that, and handles no more events. -/
def endPump : Activity Unit := do
  Routine.modify fun m => { m with followed := false }
  onDebuggee Debuggee.finish
  Routine.modify fun m => { m with connection := m.connection.dropEvents }

def pump (s : Jdwp.EventSet) : Activity Unit := do
  if ← onDebuggee (Debuggee.pump s) then endPump

inductive Worker where
  | writer
  | reader
  | pump
  | rehook
  deriving DecidableEq, Repr

namespace Worker

def all : List Worker := [writer, reader, pump, rehook]

/-- What the pump takes up: the next event set, or the end of the events. -/
def takePump (m : Machine) : Option (Activity Unit × Machine) :=
  if m.followed && m.connection.hasEvents then
    let (next, connection) := m.connection.nextEvents
    match next with
    | some s => some (Machine.pump s, { m with connection })
    | none => some (endPump, m)
  else none

/-- What a free worker takes up. The rehook ends, whatever it is at, when breakpoints are no longer followed. -/
def take (m : Machine) : Worker → Option (Activity Unit × Machine)
  | writer => (Connection.write? m.connection).map fun (job, connection) => (onConnection job, { m with connection })
  | reader => (Connection.read? m.connection).map fun (job, connection) => (onConnection job, { m with connection })
  | pump => takePump m
  | rehook => (Debuggee.rehook? m.debuggee).map fun job => ((onDebuggee job).whilst (·.debuggee.rehooking), m)

end Worker
end Machine
end JvmDebug
