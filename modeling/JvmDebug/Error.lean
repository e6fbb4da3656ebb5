import JvmDebug.Jdwp.Error

/-!
# Why a request fails

The causes, and the text of each as the client sees it. An error of the machine that means that it is gone becomes
`disconnected`; `ofJdwp` is the only way by which such errors come in from the connection.
-/

namespace JvmDebug
set_option autoImplicit false

inductive Error where
  | badArguments (text : String)
  | buildFailed (text : String)
  | connectFailed (text : String)
  | notFound (what : String)
  | disconnected
  | notImplemented (command : String)
  | unrecognized (command : String)
  | noDebuggee
  | jdwp (e : Jdwp.Error)
  | os (e : OsError)
  deriving DecidableEq, Repr

namespace Error

def message : Error → String
  | badArguments text => s!"Invalid request arguments: {text}"
  | buildFailed text => s!"Build failed: {text}"
  | connectFailed text => s!"Could not connect to the debuggee: {text}"
  | notFound what => s!"Not found: {what}"
  | disconnected => "The debuggee disconnected"
  | notImplemented command => s!"{command} is not implemented"
  | unrecognized command => s!"unrecognized request: {command}"
  | noDebuggee => "No debuggee is running"
  | jdwp e => s!"JDWP: {e.message}"
  | os e => s!"IO error: {e.text}"

def isDisconnect : Error → Bool
  | disconnected => true
  | jdwp e => e.isDisconnect
  | _ => false

/-- The code with which the machine rejected a command. -/
def code? : Error → Option UInt16
  | jdwp e => e.code?
  | _ => none

def ofJdwp (e : Jdwp.Error) : Error := if e.isDisconnect then disconnected else jdwp e

theorem isDisconnect_ofJdwp (e : Jdwp.Error) : (ofJdwp e).isDisconnect = e.isDisconnect := by
  by_cases h : e.isDisconnect <;> simp [ofJdwp, h, isDisconnect]

end Error
end JvmDebug
