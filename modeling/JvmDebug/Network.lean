import JvmDebug.OsError
import JvmDebug.Text.Blank

/-!
# The network

What a host is called by: an address, or a name that has to be looked up; and what comes of it where there is no
network.
-/

namespace JvmDebug
set_option autoImplicit false

namespace Network

def number? (digits : List Char) : Option Nat :=
  if digits ≠ [] ∧ digits.all Char.isDigit then some (digits.foldl (fun n c => n * 10 + (c.toNat - 48)) 0) else none

/-- Whether a text is an address of four numbers; the last of fewer numbers stands for all that are missing. -/
def isNumbered (cs : List Char) : Bool :=
  let numbers := (splitBy (· = '.') cs).map number?
  let last := numbers.getLast?.getD none
  numbers.length ≤ 4 && numbers.dropLast.all (·.any (· < 256)) && last.any (· < Nat.pow 256 (5 - numbers.length))

def isHexDigit (c : Char) : Bool := c.isDigit || ('a' ≤ c && c ≤ 'f') || ('A' ≤ c && c ≤ 'F')

/-- Whether a text looks like an address of groups between colons. -/
def isGrouped (cs : List Char) : Bool := cs.contains ':' && cs.all fun c => c = ':' || c = '.' || isHexDigit c

/-- What need not be looked up anywhere else. -/
def isKnown (host : String) : Bool :=
  isNumbered host.toList || isGrouped host.toList || host.toLower == "localhost"

def isLabel (cs : List Char) : Bool :=
  cs ≠ [] && cs.length ≤ 63 && cs.all fun c => c.isAlphanum || c = '-' || c = '_'

/-- Whether a text can be the name of a host; a dot may stand at its end. -/
def isName (host : String) : Bool :=
  let labels := splitBy (· = '.') host.toList
  let labels := if labels.getLast? = some [] then labels.dropLast else labels
  labels ≠ [] && labels.all isLabel && host.toList.head? ≠ some '-'

/-- Why no host can be connected to where there is no network. -/
def unreachable (host : String) : OsError :=
  if host.contains '\x00' then .zeroInPath
  else if isKnown host then ⟨.networkUnreachable, "Network is unreachable (os error 101)"⟩
  else
    let why := if isName host then "Temporary failure in name resolution" else "Name or service not known"
    ⟨.other, "failed to lookup address information: " ++ why⟩

end Network
end JvmDebug
