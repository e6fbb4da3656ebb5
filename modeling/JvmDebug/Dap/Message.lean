import JvmDebug.Error
import JvmDebug.Json.Printer
import JvmDebug.Json.Record

/-!
# Messages of the debug adapter protocol

Requests come from the client; responses and events go to it. A message on its way to the client has no number yet:
`Outgoing.text` gives it the one under which it is written.
-/

namespace JvmDebug.Dap
set_option autoImplicit false

open Json (Reading Mismatch Slot Found)

structure Request where
  seq : Int
  command : String
  arguments : Option Json

structure Response where
  requestSeq : Int
  success : Bool
  command : String
  message : Option String
  body : Option Json

structure Event where
  event : String
  body : Option Json

inductive Outgoing where
  | response (r : Response)
  | event (e : Event)

namespace Request

def read : Reading Request :=
  Json.record
    [.of "seq" Reading.int64, .of "command" Reading.text, .of "arguments" Reading.any]
    fun found => do
      return {
        seq := ← found.required "seq" Reading.int64
        command := ← found.required "command" Reading.text
        arguments := ← found.orElse "arguments" (Reading.option Reading.any) none }

/-- Reads the arguments; a request without arguments has those of the empty object. -/
def argumentsAs {α : Type} (r : Request) (read : Reading α) : Except Error α :=
  match read (r.arguments.getD (.obj [])) with
  | .ok a => .ok a
  | .error why =>
    let text := match why with
      | .missing field => "missing field " ++ "\x60" ++ field ++ "\x60"
      | .repeated field => "duplicate field " ++ "\x60" ++ field ++ "\x60"
      | .unfit => "invalid arguments"
    .error (.badArguments (r.command ++ ": " ++ text))

end Request

namespace Response

def read : Reading Response :=
  Json.record
    [.of "request_seq" Reading.int64, .of "success" Reading.flag, .of "command" Reading.text,
      .of "message" (Reading.option Reading.text), .of "body" Reading.any]
    fun found => do
      return {
        requestSeq := ← found.required "request_seq" Reading.int64
        success := ← found.required "success" Reading.flag
        command := ← found.required "command" Reading.text
        message := ← found.optional "message" Reading.text
        body := ← found.optional "body" Reading.any }

/-- The answer to a request, with the body of its success or the text of its failure. -/
def of (r : Request) (result : Except Error (Option Json)) : Response :=
  match result with
  | .ok body => ⟨r.seq, true, r.command, none, body⟩
  | .error e => ⟨r.seq, false, r.command, some e.message, none⟩

def fields (r : Response) : List (String × Json) :=
  [("request_seq", .int r.requestSeq), ("success", .bool r.success), ("command", .str r.command)] ++
    Json.optional "message" (r.message.map .str) ++ Json.optional "body" r.body

end Response

namespace Event

def read : Reading Event :=
  Json.record
    [.of "event" Reading.text, .of "body" Reading.any]
    fun found => do
      return { event := ← found.required "event" Reading.text, body := ← found.optional "body" Reading.any }

/-- An event; a body of null is none. -/
def of (event : String) (body : Json) : Event :=
  match body with
  | .null => ⟨event, none⟩
  | body => ⟨event, some body⟩

def fields (e : Event) : List (String × Json) := ("event", .str e.event) :: Json.optional "body" e.body

end Event

namespace Outgoing

def kind : Outgoing → String
  | response _ => "response"
  | event _ => "event"

def fields : Outgoing → List (String × Json)
  | response r => r.fields
  | event e => e.fields

/-- The message with its kind, without a number. -/
def unnumbered (m : Outgoing) : Json := Json.object (m.fields ++ [("type", .str m.kind)])

def json (m : Outgoing) (seq : Int) : Json := Json.object (m.fields ++ [("seq", .int seq), ("type", .str m.kind)])

def text (m : Outgoing) (seq : Int) : String := (m.json seq).render

/-- A line that a debuggee or the adapter has written. -/
def output (category text : String) : Outgoing :=
  .event (.of "output" (Json.object [("category", .str category), ("output", .str text)]))

end Outgoing
end JvmDebug.Dap
