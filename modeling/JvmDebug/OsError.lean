/-!
# Errors of the operating system

An error of a stream or a file: its kind, by which callers tell errors apart, and its text.
-/

namespace JvmDebug
set_option autoImplicit false

namespace OsError

/-- What went wrong, as far as anything depends on it. -/
inductive Kind where
  | unexpectedEnd
  | connectionReset
  | brokenPipe
  | connectionRefused
  | networkUnreachable
  | timedOut
  | notFound
  | invalidData
  | other
  deriving DecidableEq, Repr

end OsError

structure OsError where
  kind : OsError.Kind
  text : String
  deriving DecidableEq, Repr

namespace OsError

/-- The stream ended before all the bytes asked for had come. -/
def shortRead : OsError := ⟨.unexpectedEnd, "early eof"⟩

def noSuchFile : OsError := ⟨.notFound, "No such file or directory (os error 2)"⟩
def listTooLong : OsError := ⟨.other, "Argument list too long (os error 7)"⟩
def notAllowed : OsError := ⟨.other, "Permission denied (os error 13)"⟩
def notAFolder : OsError := ⟨.other, "Not a directory (os error 20)"⟩
def isAFolder : OsError := ⟨.other, "Is a directory (os error 21)"⟩
def nameTooLong : OsError := ⟨.other, "File name too long (os error 36)"⟩
def tooManyLinks : OsError := ⟨.other, "Too many levels of symbolic links (os error 40)"⟩

/-- No text that is handed to the operating system can hold a zero character. -/
def zeroInPath : OsError := ⟨.other, "file name contained an unexpected NUL byte"⟩
def zeroInCall : OsError := ⟨.other, "nul byte found in provided data"⟩

end OsError
end JvmDebug
