import JvmDebug.Debuggee.State

/-!
# Looking at stopped threads

Frames, variables and their children. What is asked about classes is asked once: the answers are kept. A path such as
`a.b.c` is evaluated by looking up its names one after the other.
-/

namespace JvmDebug.Debuggee
set_option autoImplicit false

open Jdwp (ClassId MethodId FieldId ObjectId ThreadId FrameId Location Query)

/-- At most so many elements of an array are shown. -/
def maxElements : Int32 := 100

/-- What stands behind the last dot of a name. -/
def simpleName (name : String) : String := String.ofList ((splitBy (· = '.') name.toList).getLast?.getD [])

/-- The value shown for an array: `int[]` with three elements is `int[3]`. -/
def arrayText (typeName : String) (length : Int32) : String :=
  let cs := typeName.toList
  let element := if cs.reverse.take 2 = [']', '['] then String.ofList (cs.take (cs.length - 2)) else typeName
  s!"{element}[{length}]"

/-! Classes -/

def lookup {κ α : Type} [DecidableEq κ] (key : κ) (known : List (κ × α)) : Option α :=
  (known.find? (·.1 = key)).map (·.2)

theorem mem_of_lookup {κ α : Type} [DecidableEq κ] {key : κ} {known : List (κ × α)} {a : α}
    (h : lookup key known = some a) : (key, a) ∈ known := by
  obtain ⟨⟨key', a'⟩, hFind, rfl⟩ := Option.map_eq_some_iff.mp h
  have hKey : key' = key := by simpa using List.find?_some hFind
  exact hKey ▸ List.mem_of_find?_eq_some hFind

/-- Answers from what is known, else asks and keeps the answer. -/
def cached {α : Type} (known : TypeCache → List (ClassId × α)) (keep : List (ClassId × α) → TypeCache → TypeCache)
    (c : ClassId) (q : Query α) : Exchange α := do
  match lookup c (known (← ExceptT.lift Routine.get).types) with
  | some a => return a
  | none => do
    let a ← query q
    ExceptT.lift (Routine.modify fun d => { d with types := keep ((c, a) :: known d.types) d.types })
    return a

def signature (c : ClassId) : Exchange String :=
  cached TypeCache.signatures (fun known t => { t with signatures := known }) c (Query.signature c)

def methods (c : ClassId) : Exchange (List Jdwp.Method) :=
  cached TypeCache.methods (fun known t => { t with methods := known }) c (Query.methods c)

def fields (c : ClassId) : Exchange (List Jdwp.Field) :=
  cached TypeCache.fields (fun known t => { t with fields := known }) c (Query.fields c)

def binaryName (c : ClassId) : Exchange String := do return Jdwp.Signature.binaryName (← signature c)

/-! Frames -/

/-- The name of a method with its class, as far as the machine tells them. -/
def methodName (l : Location) : Activity String := do
  let className ← (binaryName l.classId).run
  let known ← (methods l.classId).run
  let method := (known.toOption.getD []).find? (·.id = l.methodId)
  return simpleName (className.toOption.getD "<unknown>") ++ "." ++
    (method.map (·.name)).getD s!"<method {l.methodId}>"

/-- Where a class that is not in the index is said to come from: its file in the folder of its package. -/
def unmappedPath (name file : String) : Path :=
  let packages := (splitBy (· = '.') name.toList).dropLast
  (Path.ofPieces (packages.map String.ofList)).join ⟨file⟩

def sourcePath (c : ClassId) (name : String) : Exchange Path := do
  let d ← ExceptT.lift Routine.get
  match d.placer.index.source? name with
  | some relative => return d.placer.root.join relative
  | none => do
    let file ← query (Query.sourceFile c)
    ExceptT.lift (Routine.debug .inspect s!"No source mapping for {name}, using {file}")
    return unmappedPath name file

/-- A line of source as it is counted, if it is one. -/
def lineNumber? (line : Int32) : Option UInt32 := if 0 ≤ line then some line.toUInt32 else none

def positionOf (l : Location) : Activity (Option Position) := do
  match ← (query (Query.lineTable l.classId l.methodId)).run with
  | .error _ => return none
  | .ok table =>
    match (table.lineAt? l.index).bind lineNumber? with
    | none => return none
    | some line =>
      match ← (do sourcePath l.classId (← binaryName l.classId) : Exchange Path).run with
      | .error _ => return none
      | .ok path => return some ⟨.ofPath path, line, none⟩

def frameViews (thread : ThreadId) : List Jdwp.Frame → Activity (List StackFrame)
  | [] => return []
  | f :: rest => do
    let name ← methodName f.location
    let position ← positionOf f.location
    return ⟨name, position, ⟨thread, f.id, f.location⟩⟩ :: (← frameViews thread rest)

def stackTrace (thread : ThreadId) : Work (List StackFrame) := do
  ExceptT.lift (frameViews thread (← ask (Query.frames thread 0 (-1))))

def scopes (frame : FrameRef) : List Scope := [⟨"Locals", .locals frame⟩]

/-! Variables -/

/-- An object as it is shown, with its own type and its children. -/
def renderObject (thread : ThreadId) (name : String) (kind : Jdwp.ReferenceKind) (object : ObjectId) :
    Work Variable := do
  match kind with
  | .string =>
    let text ← ask (Query.stringValue object)
    return ⟨name, "\"" ++ text ++ "\"", some "java.lang.String", none⟩
  | kind =>
    let c ← ask (Query.classOf object)
    let typeName := Jdwp.Signature.typeName (← exchange (signature c))
    match kind with
    | .array =>
      let length ← ask (Query.arrayLength object)
      let children := if 0 < length then some (VariableRef.array thread object length) else none
      return ⟨name, arrayText typeName length, some typeName, children⟩
    | _ => return ⟨name, s!"{simpleName typeName} (id={object})", some typeName, some (.object thread object)⟩

/-- A value under a name. A primitive has the type of its tag, null the declared one. -/
def renderValue (thread : ThreadId) (name : String) (declared : Option String) (v : Jdwp.Value) : Work Variable :=
  match v with
  | .reference kind id =>
    if id = 0 then return ⟨name, v.text, declared.map Jdwp.Signature.typeName, none⟩
    else renderObject thread name kind id
  | .void => return ⟨name, v.text, declared.map Jdwp.Signature.typeName, none⟩
  | v => return ⟨name, v.text, some (Jdwp.Signature.typeName (String.ofList [v.tag.letter])), none⟩

/-- Names, declared types and values, rendered in their order. -/
def renderAll (thread : ThreadId) : List (String × Option String × Jdwp.Value) → Work (List Variable)
  | [] => return []
  | (name, declared, v) :: rest => do
    let x ← renderValue thread name declared v
    return x :: (← renderAll thread rest)

def insertBySlot (v : Jdwp.VariableEntry) : List Jdwp.VariableEntry → List Jdwp.VariableEntry
  | [] => [v]
  | w :: rest => if v.slot < w.slot then v :: w :: rest else w :: insertBySlot v rest

/-- The entries that are in scope at a place in the code, by increasing slot. -/
def liveEntries (table : List Jdwp.VariableEntry) (index : UInt64) : List Jdwp.VariableEntry :=
  (table.filter (·.isLiveAt index)).foldl (fun sorted v => insertBySlot v sorted) []

def thisVariable (frame : FrameRef) : Work (List Variable) := do
  match ← ask (Query.thisObject frame.thread frame.id) with
  | none => return []
  | some this => return [← renderValue frame.thread "this" none (.reference .object this)]

/-- The variable table of a method, if the class was compiled with one. -/
def variableTable? (l : Location) : Work (Option (List Jdwp.VariableEntry)) := do
  match ← ExceptT.lift (query (Query.variableTable l.classId l.methodId)).run with
  | .ok table => return some table
  | .error e => do
    if e.code? = some Jdwp.ErrorCode.absentInformation then
      ExceptT.lift (Routine.debug .inspect s!"No variable information for method {l.methodId}")
      return none
    else throw (Error.ofJdwp e)

/-- `this`, if there is one, and the local variables of a frame. -/
def locals (frame : FrameRef) : Work (List Variable) := do
  let this ← thisVariable frame
  match ← variableTable? frame.location with
  | none => return this
  | some table => do
    let live := liveEntries table frame.location.index
    if live.isEmpty then return this
    let slots := live.map fun v => Query.Slot.of v.slot v.signature
    let values ← ask (Query.frameValues frame.thread frame.id slots)
    let named := (live.zip values).map fun (v, value) => (v.name, some v.signature, value)
    return this ++ (← renderAll frame.thread named)

/-- The fields of an object that are not static. -/
def objectFields (thread : ThreadId) (object : ObjectId) : Work (List Variable) := do
  let c ← ask (Query.classOf object)
  let own := (← exchange (fields c)).filter (!·.isStatic)
  if own.isEmpty then return []
  let values ← ask (Query.objectValues object (own.map (·.id)))
  renderAll thread ((own.zip values).map fun (f, value) => (f.name, some f.signature, value))

/-- The first elements of an array. -/
def arrayElements (thread : ThreadId) (array : ObjectId) (length : Int32) : Work (List Variable) := do
  let shown := if length < maxElements then length else maxElements
  if shown ≤ 0 then return []
  let values ← ask (Query.arrayValues array 0 shown)
  renderAll thread (values.mapIdx fun i value => (s!"[{i}]", none, value))

def expand : VariableRef → Work (List Variable)
  | .locals frame => locals frame
  | .object thread object => objectFields thread object
  | .array thread array length => arrayElements thread array length

/-! Expressions -/

/-- Looks names up, each among the children of what the one before stands for. -/
def follow (x : Variable) : List String → Work (Option Variable)
  | [] => return some x
  | name :: rest => do
    match x.children with
    | none => return none
    | some children =>
      match (← expand children).find? (·.name = name) with
      | some next => follow next rest
      | none => return none

/-- The names of a path, without the blanks around them. -/
def pathNames (expression : String) : List String :=
  (splitBy (· = '.') (trimmed expression.toList)).map fun name => trim (String.ofList name)

/-- The value of a path, under the name of the whole path. -/
def evaluate (frame : FrameRef) (expression : String) : Work (Option Variable) := do
  match pathNames expression with
  | [] => return none
  | first :: rest => do
    if first.isEmpty then return none
    match (← locals frame).find? (·.name = first) with
    | none => return none
    | some x => return (← follow x rest).map fun found => { found with name := trim expression }

/-- What stands before and behind the last dot. -/
def splitLastDot? (text : String) : Option (String × String) :=
  let behind := (text.toList.reverse.takeWhile (· ≠ '.')).reverse
  let before := text.toList.take (text.length - behind.length)
  if before.isEmpty then none else some (String.ofList before.dropLast, String.ofList behind)

def startsWith (start name : String) : Bool := start.toList.isPrefixOf name.toList

/-- The fields of `this` among some variables, or none. -/
def thisFields (known : List Variable) : Work (List Variable) := do
  match (known.find? (·.name = "this")).bind (·.children) with
  | some children => expand children
  | none => return []

/-- Adds fields whose labels are not there yet. -/
def addFields (start : String) : (items : List Completion) → List Variable → List Completion
  | items, [] => items
  | items, f :: rest =>
    if startsWith start f.name && !items.any (·.label = f.name) then
      addFields start (items ++ [⟨f.name, .property⟩]) rest
    else addFields start items rest

/-- The names that could stand where a text ends: local variables and fields of `this`, or, behind a dot, the children
of what stands before it. -/
def completions (frame : FrameRef) (text : String) : Work (List Completion) := do
  match splitLastDot? text with
  | some (before, start) => do
    let children ← match (← evaluate frame before).bind (·.children) with
      | some children => expand children
      | none => pure []
    return (children.filter fun x => startsWith start x.name).map fun x => ⟨x.name, .property⟩
  | none => do
    let known ← locals frame
    let items := (known.filter fun x => startsWith text x.name).map fun x => ⟨x.name, .variable⟩
    return addFields text items (← thisFields known)

/-! Exceptions -/

def throwableSignature : String := "Ljava/lang/Throwable;"
def detailName : String := "detailMessage"

/-- The field that holds the message of an exception; asked for until it is found. -/
def detailField? : Work (Option FieldId) := do
  match (← ExceptT.lift Routine.get).detailField with
  | some field => return some field
  | none => do
    match ← ask (Query.classesBySignature throwableSignature) with
    | [] => return none
    | c :: _ => do
      let field := ((← exchange (fields c.id)).find? (·.name = detailName)).map (·.id)
      if field.isSome then ExceptT.lift (Routine.modify fun d => { d with detailField := field })
      return field

def exceptionMessage (exception : ObjectId) : Work (Option String) := do
  match ← detailField? with
  | none => return none
  | some field => do
    match ((← ask (Query.objectValues exception [field])).head?).bind (·.objectId?) with
    | none => return none
    | some text => return some (← ask (Query.stringValue text))

/-- An exception with its message, as far as the machine tells it. -/
def describeException (exception : ObjectId) (caught : Bool) : Work Thrown := do
  let c ← ask (Query.classOf exception)
  let name ← exchange (binaryName c)
  match ← ExceptT.lift (exceptionMessage exception).run with
  | .ok message => return .of name message caught
  | .error e => do
    if e.isDisconnect then throw e
    ExceptT.lift (Routine.debug .debuggee s!"No message for {name}: {e.message}")
    return .of name none caught

/-- Whether an error only means that a frame, an object or a thread is gone. -/
def isStale (e : Error) : Bool :=
  e.code? = some Jdwp.ErrorCode.invalidFrame || e.code? = some Jdwp.ErrorCode.invalidObject ||
    e.code? = some Jdwp.ErrorCode.invalidThread

def staleAsNotFound (e : Error) : Error := if isStale e then .notFound e.message else e

end JvmDebug.Debuggee
