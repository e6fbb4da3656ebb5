import JvmDebug.Debuggee.Basic
import JvmDebug.Placement.Placer

/-!
# The state of a debuggee

What is known about a machine that is being debugged, and shared by those who work on it: the session that asks, the
pump that handles events of the machine, and the rehook that brings breakpoints up to date. The book of breakpoints is
shared with the session. Only one of pump and rehook places breakpoints at a time.
-/

namespace JvmDebug
set_option autoImplicit false

open Jdwp (ClassId FieldId ThreadId RequestId)

/-- How the machine came to be debugged; decides what becomes of it in the end. -/
inductive Origin where
  | launched
  | attached
  deriving DecidableEq, Repr

/-- What has been learnt about classes. It does not change while the machine runs. -/
structure TypeCache where
  signatures : List (ClassId × String) := []
  methods : List (ClassId × List Jdwp.Method) := []
  fields : List (ClassId × List Jdwp.Field) := []

inductive PlacerUser where
  | pump
  | rehook
  deriving DecidableEq, Repr

structure Debuggee where
  origin : Origin
  book : BreakpointBook
  placer : Placer
  placerUser : Option PlacerUser := none
  types : TypeCache := {}
  /-- The field that holds the message of an exception, once it has been found. -/
  detailField : Option FieldId := none
  /-- The step request that is out for each thread. -/
  pendingSteps : List (ThreadId × RequestId) := []
  exited : Bool := false
  disconnected : Bool := false
  /-- Whether breakpoints are still brought up to date, and which versions of the book have been seen. -/
  rehooking : Bool := false
  seenBreakpoints : Nat := 0
  seenFilters : Nat := 0

namespace Debuggee

/-- What a debuggee needs of the world. -/
inductive Call where
  | command (c : Jdwp.Command)
  | publish (e : DebugEvent)
  /-- How the process ended, if it ends in time. -/
  | exitCode
  | kill

abbrev Answer : Call → Type
  | .command _ => Except Jdwp.Error Jdwp.Reply
  | .publish _ => Unit
  | .exitCode => Option Int32
  | .kill => Except OsError Unit

def World : Interface := ⟨Call, Answer⟩

abbrev Activity := Routine Debuggee World

/-- Work that fails with an error of the connection. -/
abbrev Exchange := Attempt Jdwp.Error Debuggee World

/-- Work that fails as a request of the client does. -/
abbrev Work := Attempt Error Debuggee World

def command (c : Jdwp.Command) : Activity (Except Jdwp.Error Jdwp.Reply) := Routine.ask (I := World) (.command c)

def publish (e : DebugEvent) : Activity Unit := Routine.ask (I := World) (.publish e)
def exitCode : Activity (Option Int32) := Routine.ask (I := World) .exitCode
def kill : Activity (Except OsError Unit) := Routine.ask (I := World) .kill

/-- Puts the commands of a routine to the machine. -/
def onWire {α : Type} (r : Routine Debuggee Jdwp.Wire α) : Activity α := r.interpret command

def query {α : Type} (q : Jdwp.Query α) : Exchange α := ExceptT.mk (onWire (Jdwp.ask q))

/-- Errors of the connection as errors of requests. -/
def exchange {α : Type} (x : Exchange α) : Work α := x.mapError Error.ofJdwp

def ask {α : Type} (q : Jdwp.Query α) : Work α := exchange (query q)

def placeRequest (r : Jdwp.EventRequest) : Exchange RequestId := ExceptT.mk (onWire (Jdwp.place r))

def withdrawRequest (kind : Jdwp.EventKind) (request : RequestId) : Exchange Unit :=
  ExceptT.mk (onWire (Jdwp.withdraw kind request))

/-- Work of the placer, on the machine itself. -/
def onPlacer {α : Type} (w : Placer.Work α) : Activity (Except Error α) :=
  (w.run.zoom Debuggee.placer fun p d => { d with placer := p }).interpret fun c => onWire (Backend.serve c)

def takePlacer (user : PlacerUser) : Activity Unit :=
  Routine.waitAndChange (·.placerUser.isNone) fun d => { d with placerUser := some user }

def leavePlacer : Activity Unit := Routine.modify fun d => { d with placerUser := none }

/-- Ends the rehook, whatever it is doing. -/
def stopRehook (d : Debuggee) : Debuggee :=
  { d with
    rehooking := false
    placerUser := if d.placerUser = some .rehook then none else d.placerUser }

end Debuggee
end JvmDebug
