import JvmDebug.Breakpoint.Basic
import JvmDebug.Dap.Arguments
import JvmDebug.Dap.Body
import JvmDebug.Debuggee.Basic
import JvmDebug.Handles

/-!
# The client's view

The client may count lines and columns from 0 or from 1, knows threads by signed numbers, and frames and variables by
handles. The handles of a thread mean something only until it runs again.
-/

namespace JvmDebug
set_option autoImplicit false

open Jdwp (ThreadId)

/-- Whether the client counts lines and columns from 1. -/
structure Numbering where
  linesStartAt1 : Bool := true
  columnsStartAt1 : Bool := true
  deriving DecidableEq, Repr

namespace Numbering

/-- A number that counts from 1 and fits 32 bits. -/
def counted? (n : Int) : Option UInt32 := if 1 ≤ n ∧ n < 0x100000000 then some n.toNat.toUInt32 else none

def lineFromClient (n : Numbering) (line : Int) : Except Error UInt32 :=
  match counted? (if n.linesStartAt1 then line else line + 1) with
  | some l => .ok l
  | none => .error (.badArguments s!"invalid line {line}")

def lineToClient (n : Numbering) (line : UInt32) : Int :=
  if n.linesStartAt1 then line.toNat else (line.toNat : Int) - 1

def columnFromClient? (n : Numbering) (column : Int) : Option UInt32 :=
  counted? (if n.columnsStartAt1 then column else column + 1)

def columnToClient (n : Numbering) (column : Option UInt32) : Int :=
  let column : Int := (column.getD 1).toNat
  if n.columnsStartAt1 then column else column - 1

end Numbering

/-- The number of a thread as the client sees it: the same 64 bits with a sign. -/
def threadToClient (thread : ThreadId) : Int := thread.toInt64.toInt

def threadFromClient (n : Int) : ThreadId := (Int64.ofInt n).toUInt64

structure ClientView where
  numbering : Numbering := {}
  frames : Handles ThreadId FrameRef := { kind := "frame" }
  references : Handles ThreadId VariableRef := { kind := "variable reference" }

namespace ClientView

def sourceFromClient (s : Dap.SourceArgument) : Except Error Source :=
  match s.path with
  | some path => .ok (.ofPath ⟨path⟩)
  | none => .error (.badArguments "source has no path")

def sourceView (s : Source) : Dap.SourceView := ⟨s.name, s.path.text⟩

def breakpointView (n : Numbering) (b : Breakpoint) (verified : Bool) : Dap.BreakpointView where
  id := b.id
  verified := verified
  line := n.lineToClient b.line
  source := sourceView b.position.source
  message := if verified then none else some "Waiting for the class to load"

def threadView (t : ThreadInfo) : Dap.ThreadView := ⟨threadToClient t.id, t.name⟩

def completionView (c : Completion) : Dap.CompletionView :=
  ⟨c.label, match c.kind with
    | .variable => "variable"
    | .property => "property"⟩

/-- A frame under a new handle. -/
def addFrame (v : ClientView) (f : StackFrame) : Dap.FrameView × ClientView :=
  let (id, frames) := v.frames.store f.frame.thread f.frame
  let view : Dap.FrameView :=
    match f.position with
    | some p =>
      ⟨id, f.name, some (sourceView p.source), v.numbering.lineToClient p.line, v.numbering.columnToClient p.column⟩
    | none => ⟨id, f.name, none, 0, 0⟩
  (view, { v with frames })

def addReference (v : ClientView) (r : VariableRef) : Int × ClientView :=
  let (handle, references) := v.references.store r.thread r
  (handle, { v with references })

def addScope (v : ClientView) (s : Scope) : Dap.ScopeView × ClientView :=
  let (handle, v) := v.addReference s.contents
  (⟨s.name, handle⟩, v)

/-- A variable, under a new handle if it has children. -/
def addVariable (v : ClientView) (x : Variable) : Dap.VariableView × ClientView :=
  match x.children with
  | some children =>
    let (handle, v) := v.addReference children
    (⟨x.name, x.value, x.type, handle⟩, v)
  | none => (⟨x.name, x.value, x.type, 0⟩, v)

/-- Adds several things, the first one first. -/
def addAll {α β : Type} (add : ClientView → α → β × ClientView) : ClientView → List α → List β × ClientView
  | v, [] => ([], v)
  | v, a :: rest =>
    let (b, v) := add v a
    let (bs, v) := addAll add v rest
    (b :: bs, v)

def frame (v : ClientView) (handle : Int) : Except Error FrameRef := v.frames.get handle

def reference (v : ClientView) (handle : Int) : Except Error VariableRef := v.references.get handle

/-- Forgets the frames of a thread. -/
def releaseFrames (v : ClientView) (thread : ThreadId) : ClientView := { v with frames := v.frames.release thread }

def releaseVariables (v : ClientView) (thread : ThreadId) : ClientView :=
  { v with references := v.references.release thread }

/-- Forgets all handles of a thread that runs on. -/
def release (v : ClientView) (thread : ThreadId) : ClientView := (v.releaseFrames thread).releaseVariables thread

def releaseAll (v : ClientView) : ClientView :=
  { v with frames := v.frames.releaseAll, references := v.references.releaseAll }

end ClientView
end JvmDebug
