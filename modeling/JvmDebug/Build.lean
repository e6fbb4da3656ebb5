import JvmDebug.FileTree
import JvmDebug.Routine.Basic
import JvmDebug.Text.Line

/-!
# Building

A build service builds targets and tells the classpath with which a target runs. `Bazel` does both with the build
tool: the classpath is asked for by a query that prints one jar per line.
-/

namespace JvmDebug
set_option autoImplicit false

/-- How a program ended. -/
inductive ExitStatus where
  | code (n : Int)
  | signal (n : Int)
  deriving DecidableEq, Repr

namespace ExitStatus

/-- The status of a program that ends with a number; one byte is kept of it. -/
def ofExit (n : Int) : ExitStatus := code (n % 256)

/-- The number with which a program ended, if no signal did it. -/
def code? : ExitStatus → Option Int32
  | code n => some (Int32.ofInt n)
  | signal _ => none

def isSuccess (s : ExitStatus) : Bool := s = .code 0

def text : ExitStatus → String
  | code n => s!"exit status: {n}"
  | signal n => s!"signal: {n}"

end ExitStatus

/-- What a program wrote, and how it ended. -/
structure ToolRun where
  stdout : Bytes
  stderr : Bytes
  status : ExitStatus

/-- A program to be run in a folder. -/
structure ToolCall where
  program : String
  arguments : List String
  folder : Path

namespace ToolCall

variable {S : Type} {I : Interface} {α : Type}

def hasZero (c : ToolCall) : Bool := (c.program :: c.folder.text :: c.arguments).any (·.contains '\x00')

/-- The most bytes of an argument. -/
def argumentLimit : Nat := 0x1FFFF

/-- Runs a program, if all texts of the call can be handed to the operating system. -/
def run (c : ToolCall) (how : ToolCall → Routine S I (Except OsError α)) : Routine S I (Except OsError α) :=
  if c.hasZero then return .error .zeroInCall
  else if c.arguments.any (argumentLimit < ·.utf8ByteSize) then return .error .listTooLong
  else how c

/-- Why there is no such program, as far as the files of the host tell. The name of a program is looked for in the usual
folders, a path to it is one seen from the folder in which it is run. -/
def missing (c : ToolCall) (tree : FileTree) : OsError :=
  if c.program.contains '/' || c.program == "." || c.program == ".." then
    match tree.find (c.folder.join ⟨c.program⟩) with
    | .ok _ => .notAllowed
    | .error e => e
  else if FileTree.nameLimit < c.program.utf8ByteSize then .nameTooLong
  else .noSuchFile

end ToolCall

inductive BuildCall where
  | build (root : Path) (targets flags : List String)
  | classpath (root : Path) (target : String) (flags : List String)

namespace BuildCall

abbrev Answer : BuildCall → Type
  | build .. => Except Error Unit
  | classpath .. => Except Error (List Path)

/-- The answer that a call has failed. -/
def failed (why : Error) : (c : BuildCall) → c.Answer
  | build .. | classpath .. => .error why

end BuildCall

namespace Bazel

/-- The expression that prints the jars of a target, one per line. -/
def jarsExpression : String :=
  "\"\\n\".join([f.path for f in providers(target)[\"JavaInfo\"].transitive_runtime_jars.to_list()])"

def buildArguments (targets flags : List String) : List String := "build" :: (targets ++ flags)

def queryArguments (target : String) (flags : List String) : List String :=
  "cquery" :: target :: (flags ++ ["--output=starlark", "--starlark:expr=" ++ jarsExpression])

/-- Where jars from outside the workspace lie. -/
def externalRoot (root : Path) : Path :=
  match root.fileName? with
  | some name => root.join ⟨"bazel-" ++ name⟩
  | none => root

def jarPath (root : Path) (line : String) : Path :=
  if line.startsWith "external/" then (externalRoot root).join ⟨line⟩ else root.join ⟨line⟩

/-- The jars that the query printed, each once, as paths below the workspace. -/
def parseClasspath (root : Path) (output : String) : List Path :=
  let jars := ((splitBy (· = '\n') output.toList).map fun line => trim (String.ofList line)).filter (!·.isEmpty)
  (jars.map (jarPath root)).foldl (fun paths p => if paths.any (· == p) then paths else paths ++ [p]) []

variable {S : Type} {I : Interface}

def notRun {α : Type} (program : String) (e : OsError) : Except Error α :=
  .error (.buildFailed s!"could not run {program}: {e.text}")

/-- Notes the lines that a program wrote. -/
def noteLines (level : Log.Level) (bytes : Bytes) : Routine S I Unit := do
  let (lines, bad) := Line.ofStream bytes
  Routine.each lines (Routine.log level .builder)
  match bad with
  | some why => Routine.warn .builder s!"Error streaming build output: {why.message}"
  | none => return

def build (program : String) (run : ToolCall → Routine S I (Except OsError ToolRun)) (root : Path)
    (targets flags : List String) : Routine S I (Except Error Unit) := do
  Routine.info .builder (" ".intercalate ["Running", program, "build", " ".intercalate targets, " ".intercalate flags])
  match ← (ToolCall.mk program (buildArguments targets flags) root).run run with
  | .error e => return notRun program e
  | .ok out =>
    noteLines .info out.stdout
    noteLines .error out.stderr
    if out.status.isSuccess then
      Routine.info .builder "Build finished"
      return .ok ()
    else return .error (.buildFailed s!"{program} build exited with {out.status.text}")

def classpath (program : String) (run : ToolCall → Routine S I (Except OsError ToolRun)) (root : Path)
    (target : String) (flags : List String) : Routine S I (Except Error (List Path)) := do
  Routine.debug .builder s!"Resolving runtime classpath of {target}"
  match ← (ToolCall.mk program (queryArguments target flags) root).run run with
  | .error e => return notRun program e
  | .ok out =>
    if out.status.isSuccess then
      let paths := parseClasspath root (Utf8.decodeLossy out.stdout)
      if paths.isEmpty then Routine.warn .builder s!"Target {target} has an empty runtime classpath"
      return .ok paths
    else
      let why := trim (Utf8.decodeLossy out.stderr)
      return .error (.buildFailed s!"classpath query for {target} failed: {why}")

/-- The build service on top of the build tool. -/
def serve (program : String) (run : ToolCall → Routine S I (Except OsError ToolRun)) :
    (c : BuildCall) → Routine S I c.Answer
  | .build root targets flags => build program run root targets flags
  | .classpath root target flags => classpath program run root target flags

end Bazel
end JvmDebug
