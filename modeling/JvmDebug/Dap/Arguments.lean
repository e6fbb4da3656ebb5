import JvmDebug.Dap.Message

/-!
# Arguments of requests

What each request takes, and how it is read. Fields that a request does not know are passed over. The requests that
start a debuggee take options for logging from the same object.
-/

namespace JvmDebug.Dap
set_option autoImplicit false

open Json (Reading Slot Found)

structure InitializeArguments where
  clientId : Option String
  adapterId : Option String
  linesStartAt1 : Bool
  columnsStartAt1 : Bool

def InitializeArguments.read : Reading InitializeArguments :=
  Json.record
    [.of "clientId" (Reading.option Reading.text), .of "adapterID" (Reading.option Reading.text),
      .of "linesStartAt1" Reading.flag, .of "columnsStartAt1" Reading.flag]
    fun found => do
      return {
        clientId := ← found.orElse "clientId" (Reading.option Reading.text) none
        adapterId := ← found.orElse "adapterID" (Reading.option Reading.text) none
        linesStartAt1 := ← found.orElse "linesStartAt1" Reading.flag true
        columnsStartAt1 := ← found.orElse "columnsStartAt1" Reading.flag true }

structure LoggingArguments where
  level : Option String
  toFile : Bool
  file : Option String

/-- The options for logging among the fields that the request itself does not know. -/
def LoggingArguments.read (fields : List (String × Json)) : Except Json.Mismatch LoggingArguments :=
  Json.record
    [.of "logLevel" (Reading.option Reading.text), .of "enableJsonLogging" Reading.flag,
      .of "jsonLogFile" (Reading.option Reading.text)]
    (fun found => do
      return {
        level := ← found.orElse "logLevel" (Reading.option Reading.text) none
        toFile := ← found.orElse "enableJsonLogging" Reading.flag false
        file := ← found.orElse "jsonLogFile" (Reading.option Reading.text) none })
    (.obj fields)

structure LaunchArguments where
  workspaceRoot : String
  target : String
  mainClass : String
  buildFlags : List String
  vmArguments : Option String
  programArguments : List String
  logging : LoggingArguments

def LaunchArguments.read : Reading LaunchArguments :=
  Json.sharedRecord
    [.of "workspaceRoot" Reading.text, (Slot.of "bazelTarget" Reading.text).orNamed "targetSpec",
      .of "mainClass" Reading.text, (Slot.of "buildFlags" (Reading.list Reading.text)).orNamed "buildArgs",
      .of "vmArguments" (Reading.option Reading.text), .of "additionalArgs" (Reading.list Reading.text)]
    fun found => do
      return {
        workspaceRoot := ← found.required "workspaceRoot" Reading.text
        target := ← found.required "bazelTarget" Reading.text
        mainClass := ← found.required "mainClass" Reading.text
        buildFlags := ← found.required "buildFlags" (Reading.list Reading.text)
        vmArguments := ← found.orElse "vmArguments" (Reading.option Reading.text) none
        programArguments := ← found.orElse "additionalArgs" (Reading.list Reading.text) []
        logging := ← LoggingArguments.read found.unknown }

structure AttachArguments where
  workspaceRoot : String
  host : String
  port : Nat
  /-- In milliseconds. -/
  timeout : Nat
  logging : LoggingArguments

def AttachArguments.read : Reading AttachArguments :=
  Json.sharedRecord
    [.of "workspaceRoot" Reading.text, (Slot.of "hostName" Reading.text).orNamed "host", .of "port" Reading.uint16,
      .of "timeout" Reading.uint64]
    fun found => do
      return {
        workspaceRoot := ← found.required "workspaceRoot" Reading.text
        host := ← found.required "hostName" Reading.text
        port := (← found.required "port" Reading.uint16).toNat
        timeout := (← found.required "timeout" Reading.uint64).toNat
        logging := ← LoggingArguments.read found.unknown }

/-- A source as the client names it. -/
structure SourceArgument where
  name : Option String
  path : Option String

def SourceArgument.read : Reading SourceArgument :=
  Json.record
    [.of "name" (Reading.option Reading.text), .of "path" (Reading.option Reading.text)]
    fun found => do
      return {
        name := ← found.orElse "name" (Reading.option Reading.text) none
        path := ← found.orElse "path" (Reading.option Reading.text) none }

structure BreakpointArgument where
  line : Int
  column : Option Int
  condition : Option String

def BreakpointArgument.read : Reading BreakpointArgument :=
  Json.record
    [.of "line" Reading.int64, .of "column" (Reading.option Reading.int64),
      .of "condition" (Reading.option Reading.text)]
    fun found => do
      return {
        line := ← found.required "line" Reading.int64
        column := ← found.orElse "column" (Reading.option Reading.int64) none
        condition := ← found.orElse "condition" (Reading.option Reading.text) none }

structure SetBreakpointsArguments where
  source : SourceArgument
  breakpoints : List BreakpointArgument

def SetBreakpointsArguments.read : Reading SetBreakpointsArguments :=
  Json.record
    [.of "source" SourceArgument.read, .of "breakpoints" (Reading.list BreakpointArgument.read)]
    fun found => do
      return {
        source := ← found.required "source" SourceArgument.read
        breakpoints := ← found.orElse "breakpoints" (Reading.list BreakpointArgument.read) [] }

/-- The arguments of `setExceptionBreakpoints`: names of filters. -/
def filtersArgument : Reading (List String) :=
  Json.record
    [.of "filters" (Reading.list Reading.text)]
    fun found => found.orElse "filters" (Reading.list Reading.text) []

/-- The arguments of requests about one thread. -/
def threadArgument : Reading Int :=
  Json.record [.of "threadId" Reading.int64] fun found => found.required "threadId" Reading.int64

structure StackTraceArguments where
  thread : Int
  start : Option Int
  levels : Option Int

def StackTraceArguments.read : Reading StackTraceArguments :=
  Json.record
    [.of "threadId" Reading.int64, .of "startFrame" (Reading.option Reading.int64),
      .of "levels" (Reading.option Reading.int64)]
    fun found => do
      return {
        thread := ← found.required "threadId" Reading.int64
        start := ← found.orElse "startFrame" (Reading.option Reading.int64) none
        levels := ← found.orElse "levels" (Reading.option Reading.int64) none }

def frameArgument : Reading Int :=
  Json.record [.of "frameId" Reading.int64] fun found => found.required "frameId" Reading.int64

def variablesArgument : Reading Int :=
  Json.record
    [.of "variablesReference" Reading.int64]
    fun found => found.required "variablesReference" Reading.int64

structure EvaluateArguments where
  expression : String
  frame : Option Int

def EvaluateArguments.read : Reading EvaluateArguments :=
  Json.record
    [.of "expression" Reading.text, .of "frameId" (Reading.option Reading.int64)]
    fun found => do
      return {
        expression := ← found.required "expression" Reading.text
        frame := ← found.orElse "frameId" (Reading.option Reading.int64) none }

structure CompletionsArguments where
  frame : Option Int
  text : String
  column : Int

def CompletionsArguments.read : Reading CompletionsArguments :=
  Json.record
    [.of "frameId" (Reading.option Reading.int64), .of "text" Reading.text, .of "column" Reading.int64]
    fun found => do
      return {
        frame := ← found.orElse "frameId" (Reading.option Reading.int64) none
        text := ← found.required "text" Reading.text
        column := ← found.required "column" Reading.int64 }

end JvmDebug.Dap
