import JvmDebug.Dap.Message

/-!
# Bodies of responses and events

What the client is told, in its own numbering and with its own numbers for threads, frames and variables.
-/

namespace JvmDebug.Dap
set_option autoImplicit false

structure SourceView where
  name : String
  path : String

def SourceView.json (s : SourceView) : Json := Json.object [("name", .str s.name), ("path", .str s.path)]

structure BreakpointView where
  id : Int
  verified : Bool
  line : Int
  source : SourceView
  message : Option String

def BreakpointView.json (b : BreakpointView) : Json :=
  Json.object
    ([("id", .int b.id), ("verified", .bool b.verified), ("line", .int b.line), ("source", b.source.json)] ++
      Json.optional "message" (b.message.map .str))

structure ThreadView where
  id : Int
  name : String

def ThreadView.json (t : ThreadView) : Json := Json.object [("id", .int t.id), ("name", .str t.name)]

structure FrameView where
  id : Int
  name : String
  source : Option SourceView
  line : Int
  column : Int

def FrameView.json (f : FrameView) : Json :=
  Json.object
    ([("id", .int f.id), ("name", .str f.name), ("line", .int f.line), ("column", .int f.column)] ++
      Json.optional "source" (f.source.map (·.json)))

/-- A scope; children are asked for under its number. -/
structure ScopeView where
  name : String
  reference : Int

def ScopeView.json (s : ScopeView) : Json :=
  Json.object [("name", .str s.name), ("variablesReference", .int s.reference), ("expensive", .bool false)]

/-- A variable; its number is 0 if it has no children. -/
structure VariableView where
  name : String
  value : String
  type : Option String
  reference : Int

def VariableView.json (v : VariableView) : Json :=
  Json.object
    ([("name", .str v.name), ("value", .str v.value), ("variablesReference", .int v.reference)] ++
      Json.optional "type" (v.type.map .str))

structure CompletionView where
  label : String
  kind : String

def CompletionView.json (c : CompletionView) : Json := Json.object [("label", .str c.label), ("type", .str c.kind)]

/-- An exception that stopped a thread, with what is known of it. -/
structure ExceptionView where
  id : String
  description : String
  message : Option String
  typeName : String
  fullTypeName : String

namespace ExceptionView

def detailsJson (e : ExceptionView) : Json :=
  Json.object
    (Json.optional "message" (e.message.map .str) ++
      [("typeName", .str e.typeName), ("fullTypeName", .str e.fullTypeName)])

def json (e : ExceptionView) : Json :=
  Json.object
    [("exceptionId", .str e.id), ("description", .str e.description), ("breakMode", .str "always"),
      ("details", e.detailsJson)]

/-- What is said of a thread that no exception stopped. -/
def unknown : Json :=
  Json.object
    [("exceptionId", .str "unknown"), ("description", .str "Unknown exception"), ("breakMode", .str "always")]

end ExceptionView

/-- What the adapter can do; filters for exceptions are given by name and label. -/
def capabilities (filters : List (String × String)) : Json :=
  let filter (name label : String) : Json :=
    Json.object [("filter", .str name), ("label", .str label), ("default", .bool false)]
  Json.object
    [("supportsConfigurationDoneRequest", .bool true), ("supportsCompletionsRequest", .bool true),
      ("supportsExceptionInfoRequest", .bool true), ("supportsEvaluateForHovers", .bool true),
      ("exceptionBreakpointFilters", .arr (filters.map fun f => filter f.1 f.2))]

/-- A body with one list. -/
def listBody (name : String) (items : List Json) : Json := Json.object [(name, .arr items)]

def evaluated (v : VariableView) : Json :=
  Json.object
    [("result", .str v.value), ("type", (v.type.map Json.str).getD .null), ("variablesReference", .int v.reference)]

namespace Outgoing

def stopped (reason : String) (thread : Int) : Outgoing :=
  .event (.of "stopped"
    (Json.object [("reason", .str reason), ("threadId", .int thread), ("allThreadsStopped", .bool false)]))

def thread (reason : String) (thread : Int) : Outgoing :=
  .event (.of "thread" (Json.object [("reason", .str reason), ("threadId", .int thread)]))

def breakpointChanged (b : BreakpointView) : Outgoing :=
  .event (.of "breakpoint" (Json.object [("reason", .str "changed"), ("breakpoint", b.json)]))

def exited (code : Int) : Outgoing := .event (.of "exited" (Json.object [("exitCode", .int code)]))
def terminated : Outgoing := .event (.of "terminated" .null)
def initialized : Outgoing := .event (.of "initialized" .null)

end Outgoing
end JvmDebug.Dap
