import JvmDebug.Source

/-!
# Breakpoints

What the client asks for: stops at lines of sources, and stops where exceptions are thrown.
-/

namespace JvmDebug
set_option autoImplicit false

/-- A breakpoint as the client asks for it. A condition is kept but never evaluated. -/
structure RequestedBreakpoint where
  position : Position
  condition : Option String

/-- A breakpoint with the number by which the client knows it. -/
structure Breakpoint where
  id : Int
  position : Position
  condition : Option String

def Breakpoint.line (b : Breakpoint) : UInt32 := b.position.line

inductive ExceptionFilter where
  | caught
  | uncaught
  deriving DecidableEq, Repr

namespace ExceptionFilter

def all : List ExceptionFilter := [caught, uncaught]

def id : ExceptionFilter → String
  | caught => "caught"
  | uncaught => "uncaught"

def label : ExceptionFilter → String
  | caught => "Caught Exceptions"
  | uncaught => "Uncaught Exceptions"

def ofId? (text : String) : Option ExceptionFilter := all.find? (·.id == text)

end ExceptionFilter

/-- Which thrown exceptions stop a thread. -/
structure ExceptionFilters where
  caught : Bool := false
  uncaught : Bool := false
  deriving DecidableEq, Repr

namespace ExceptionFilters

def isEmpty (f : ExceptionFilters) : Bool := !f.caught && !f.uncaught

def insert (f : ExceptionFilters) : ExceptionFilter → ExceptionFilters
  | .caught => { f with caught := true }
  | .uncaught => { f with uncaught := true }

def ofList (filters : List ExceptionFilter) : ExceptionFilters := filters.foldl insert {}

def toList (f : ExceptionFilters) : List ExceptionFilter :=
  (if f.caught then [.caught] else []) ++ if f.uncaught then [.uncaught] else []

end ExceptionFilters
end JvmDebug
