import JvmDebug.Error
import JvmDebug.Text.Quoted

/-!
# Log records

Parts of the program note what they do. A level is chosen below which records are dropped; what is left goes to the log
file, and the more important of it to the console of the client.
-/

namespace JvmDebug
set_option autoImplicit false

namespace Log

inductive Level where
  | error
  | warn
  | info
  | debug
  | trace
  deriving DecidableEq, Repr

namespace Level

def rank : Level → Nat
  | error => 0
  | warn => 1
  | info => 2
  | debug => 3
  | trace => 4

def name : Level → String
  | error => "ERROR"
  | warn => "WARN"
  | info => "INFO"
  | debug => "DEBUG"
  | trace => "TRACE"

end Level

/-- The parts of the program that write records. -/
inductive Part where
  | server
  | client
  | session
  | lanes
  | breakpoints
  | builder
  | classpath
  | launcher
  | debuggee
  | placement
  | inspect
  | connection
  | eventLoop
  | eventRequest
  deriving DecidableEq, Repr

def Part.name : Part → String
  | server => "kotlin_debug_adapter::server"
  | client => "kotlin_debug_adapter::client"
  | session => "kotlin_debug_adapter::session"
  | lanes => "kotlin_debug_adapter::lanes"
  | breakpoints => "kotlin_debug_adapter::breakpoints"
  | builder => "kotlin_debug_adapter::builder"
  | classpath => "kotlin_debug_adapter::classpath"
  | launcher => "kotlin_debug_adapter::launcher"
  | debuggee => "kotlin_debug_adapter::debuggee"
  | placement => "kotlin_debug_adapter::debuggee::placement"
  | inspect => "kotlin_debug_adapter::debuggee::inspect"
  | connection => "jdwp_wire::connection"
  | eventLoop => "jdwp_wire::eventloop"
  | eventRequest => "jdwp_wire::eventrequest"

structure Record where
  level : Level
  part : Part
  text : String
  deriving DecidableEq, Repr

/-- The levels that a client can choose. -/
inductive Choice where
  | none
  | error
  | warn
  | info
  | debug
  | trace
  | deepTrace
  | all
  deriving DecidableEq, Repr

namespace Choice

def name : Choice → String
  | none => "NONE"
  | error => "ERROR"
  | warn => "WARN"
  | info => "INFO"
  | debug => "DEBUG"
  | trace => "TRACE"
  | deepTrace => "DEEP_TRACE"
  | all => "ALL"

def every : List Choice := [none, error, warn, info, debug, trace, deepTrace, all]

def asciiUpper (c : Char) : Char := if 'a' ≤ c ∧ c ≤ 'z' then Char.ofNat (c.toNat - 32) else c

/-- The choice of a name, written in letters of either case. -/
def parse (text : String) : Except Error Choice :=
  let name := String.ofList (text.toList.map asciiUpper)
  match every.find? (·.name == name) with
  | some choice => .ok choice
  | .none => .error (.badArguments s!"unknown log level {text}")

/-- The least important level that is let through; none lets nothing through. -/
def limit? : Choice → Option Level
  | none => .none
  | error => some .error
  | warn => some .warn
  | info => some .info
  | debug => some .debug
  | trace | deepTrace | all => some .trace

def admits (c : Choice) (level : Level) : Bool := c.limit?.any (level.rank ≤ ·.rank)

end Choice

/-- What is noted while a message goes to the client must not go to the client. -/
def Record.isForConsole (r : Record) : Bool :=
  r.level.rank ≤ Level.info.rank && r.part ≠ .server && r.part ≠ .client

/-- A character as the console shows it: what a terminal could take for a command is written as an escape. -/
def consoleChar (c : Char) : List Char :=
  match c with
  | '\x1b' => "\\x1b".toList
  | '\x07' => "\\x07".toList
  | '\x08' => "\\x08".toList
  | '\x0c' => "\\x0c".toList
  | '\x7f' => "\\x7f".toList
  | c => if 0x80 ≤ c.toNat ∧ c.toNat ≤ 0x9f then numbered c else [c]

def consoleText (text : String) : String := String.ofList (text.toList.flatMap consoleChar)

/-- A record as a line of the console. -/
def Record.line (r : Record) : String :=
  String.ofList (List.replicate (5 - r.level.name.length) ' ') ++ r.level.name ++ " " ++ consoleText r.text ++ "\n"

end Log
end JvmDebug
