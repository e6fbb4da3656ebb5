import JvmDebug.Adapter.Basic
import JvmDebug.Proofs.Debuggee.Inspecting
import JvmDebug.Proofs.Routine.Replay
import JvmDebug.Proofs.Session.Sparing

/-!
# What an adapter does to what its session has in mind

Machines share the book of breakpoints with the session. What is asked of them for a session does not write into it, and
neither do those who connect to a machine, whether that works or not. A machine that is taken over has the book written
to in the end; then the debuggee has been started.

A request is served step by step, while others may be at work on the same adapter. If it fails, none of its steps has
changed what the session has in mind, wherever it came to: at its arguments, at a handle, at the debuggee, at the build
or at a machine that could not be connected to or taken over.
-/

namespace JvmDebug
set_option autoImplicit false

open Jdwp (Connection Link)

variable {α : Type}

/-! ## Machines -/

namespace Machine

def isPublish : Call → Prop
  | .publish _ => True
  | _ => False

/-- What leaves the book alone, and publishes nothing. -/
def bookless : Bounds Machine World :=
  ⟨fun m m' => m'.debuggee.book = m.debuggee.book, fun c => ¬isPublish c, fun _ m => m⟩

theorem bookless_onConnection (r : Routine Connection Link α) : (onConnection r).Within bookless fun _ => True := by
  have hZoomed : (r.zoom Machine.connection fun c m => { m with connection := c }).Within
      (⟨bookless.changes, fun _ => True, fun _ m => m⟩ : Bounds Machine Link) fun _ => True :=
    (Routine.within_anything fun _ c => c).zoom (fun _ _ _ => rfl) (fun _ => id) (fun _ => rfl) fun _ _ => rfl
  exact hZoomed.interpret (fun _ _ => id) rfl fun bytes _ => ⟨id, fun _ => rfl, fun _ => trivial⟩

theorem bookless_answer {c : Debuggee.Call} (h : ¬Debuggee.isPublish c) : (answer c).Within bookless fun _ => True := by
  cases c with
  | command c => exact bookless_onConnection _
  | publish e => exact absurd trivial h
  | exitCode | kill => exact ⟨id, fun _ => rfl, fun _ => trivial⟩

theorem bookless_onDebuggee {r : Debuggee.Activity α} (h : r.Within Debuggee.bookless fun _ => True) :
    (onDebuggee r).Within bookless fun _ => True := by
  have hZoomed : (r.zoom Machine.debuggee fun d m => { m with debuggee := d }).Within
      (⟨bookless.changes, fun c => ¬Debuggee.isPublish c, fun _ m => m⟩ : Bounds Machine Debuggee.World) fun _ => True :=
    h.zoom (fun _ _ hSame => hSame) (fun _ => id) (fun _ => rfl) fun _ _ => rfl
  exact hZoomed.interpret (fun _ _ => id) rfl fun c => bookless_answer

theorem spares_onDebuggee {r : Debuggee.Activity α} {way : α → Prop}
    (h : r.Spares Debuggee.book (fun x => Debuggee.isPublish x.1) way) :
    (onDebuggee r).Spares (·.debuggee.book) (fun x => isPublish x.1) way := by
  refine Routine.Spares.interpret (h.zoom fun _ _ hSame => hSame) fun c => ?_
  by_cases hPublish : Debuggee.isPublish c
  · exact Routine.spares_of_none fun _ => not_not_intro hPublish
  · exact (bookless_answer hPublish).spares (fun _ _ => id) fun _ _ => id

/-- A machine that could not be taken over has left no traces in the book. -/
theorem start_spares : start.Spares (·.debuggee.book) (fun x => isPublish x.1) Failed := by
  refine fun m => .inl ⟨rfl, ?_⟩
  change Routine.Spares _ _ _ (if _ then _ else _)
  split
  · trivial
  · refine (spares_onDebuggee Debuggee.start_sparesBook).bind ?_ ?_
    · rintro (e | _) hFailed
      · trivial
      · exact hFailed.elim
    · rintro (e | _) hDone
      · exact absurd trivial hDone
      · exact fun _ => id

end Machine

/-! ## Tools -/

section Tools

variable {S : Type} {I : Interface} {b : Bounds S I}

theorem ToolCall.within_run {how : ToolCall → Routine S I (Except OsError α)}
    (hHow : ∀ c, (how c).Within b fun _ => True)
    (c : ToolCall) : (c.run how).Within b fun _ => True := by
  unfold ToolCall.run
  split
  · trivial
  · split
    · trivial
    · exact hHow c

variable {run : ToolCall → Routine S I (Except OsError ToolRun)} (hNotes : ∀ x s, b.changes s (b.keep x s))
include hNotes

theorem Bazel.within_noteLines (level : Log.Level) (bytes : Bytes) :
    (Bazel.noteLines level bytes : Routine S I Unit).Within b fun _ => True := by
  refine Routine.within_then (Routine.within_each fun _ _ => ⟨hNotes _, trivial⟩) fun _ => ?_
  split
  · exact ⟨hNotes _, trivial⟩
  · trivial

/-- All that the build service does is to run the tool, and to note what comes of it. -/
theorem Bazel.within_serve (hRun : ∀ c, (run c).Within b fun _ => True) (program : String) (c : BuildCall) :
    (Bazel.serve program run c).Within b fun _ => True := by
  have hNote : ∀ {level part text}, (Routine.log level part text : Routine S I Unit).Within b fun _ => True :=
    ⟨hNotes _, trivial⟩
  cases c with
  | build root targets flags =>
    refine Routine.within_then hNote fun _ => Routine.within_then (ToolCall.within_run hRun _) fun out => ?_
    split
    · trivial
    · refine Routine.within_then (Bazel.within_noteLines hNotes ..) fun _ => ?_
      refine Routine.within_then (Bazel.within_noteLines hNotes ..) fun _ => ?_
      split
      · exact Routine.within_then hNote fun _ => trivial
      · trivial
  | classpath root target flags =>
    refine Routine.within_then hNote fun _ => Routine.within_then (ToolCall.within_run hRun _) fun out => ?_
    split
    · trivial
    · dsimp only
      split
      · split
        · exact Routine.within_then hNote fun _ => trivial
        · trivial
      · trivial

end Tools

/-! ## Launching and attaching -/

namespace Launch

variable {S X : Type} {I : Interface} {b : Bounds S I} {h : Host S I} {part : S → X}

/-- Whatever is needed of the world, except to take over a machine, is within bounds. -/
structure Host.Within (h : Host S I) (b : Bounds S I) : Prop where
  stays : ∀ s, b.changes s s
  notes : ∀ x s, b.changes s (b.keep x s)
  freePort : h.freePort.Within b fun _ => True
  start : ∀ c, (h.start c).Within b fun _ => True
  ended : h.ended.Within b fun _ => True
  kill : h.kill.Within b fun _ => True
  connect : ∀ host port, (h.connect host port).Within b fun _ => True

namespace Host.Within

variable (hHost : h.Within b)
include hHost

theorem giveUp (port : Nat) (why : Jdwp.Error) : (keepTrying.giveUp h port why).Within b fun _ => True :=
  Routine.within_then hHost.kill fun _ => trivial

theorem keepTrying (port deadline retries : Nat) : (keepTrying h port deadline retries).Within b fun _ => True := by
  induction retries with
  | zero =>
    unfold Launch.keepTrying
    refine Routine.within_then (hHost.connect _ _) fun connected => ?_
    split
    · trivial
    · refine Routine.within_then hHost.ended fun ended => ?_
      split
      · trivial
      · trivial
      · exact hHost.giveUp ..
  | succ retries ih =>
    unfold Launch.keepTrying
    refine Routine.within_then (hHost.connect _ _) fun connected => ?_
    split
    · trivial
    · refine Routine.within_then hHost.ended fun ended => ?_
      split
      · trivial
      · trivial
      · refine Routine.within_then (fun s => ⟨hHost.stays s, trivial⟩) fun now => ?_
        split
        · exact hHost.giveUp ..
        · exact Routine.within_then ⟨fun s => ⟨nofun, fun _ => hHost.stays s⟩, fun _ => trivial⟩ fun _ => ih

end Host.Within

/-- To take over a machine spares a part that all else leaves alone. -/
structure Host.Spares (h : Host S I) (b : Bounds S I) (part : S → X) : Prop extends h.Within b where
  changes : ∀ s s', b.changes s s' → part s' = part s
  takeOver : h.takeOver.Spares part (fun _ => False) Failed

namespace Host.Spares

variable (hHost : h.Spares b part)
include hHost

theorem after {α β : Type} {r : Routine S I α} {k : α → Routine S I β} {yields : α → Prop} {way : β → Prop}
    (hFirst : r.Within b yields) (hNext : ∀ a, (k a).Spares part (fun _ => False) way) :
    (r >>= k).Spares part (fun _ => False) way :=
  hFirst.before_sparing hHost.changes (fun _ _ _ => id) hNext

theorem note {level : Log.Level} {where_ : Log.Part} {text : String} :
    (Routine.log level where_ text : Routine S I Unit).Within b fun _ => True :=
  ⟨hHost.notes _, trivial⟩

theorem looks {α : Type} (f : S → α) : (Routine.gets f : Routine S I α).Within b fun _ => True :=
  Routine.within_gets.mpr fun s => ⟨hHost.stays s, trivial⟩

theorem follow (port : Nat) : (follow h port).Spares part (fun _ => False) Failed := by
  refine hHost.after (hHost.looks _) fun started => ?_
  refine hHost.after (hHost.keepTrying ..) fun connected => ?_
  split
  · trivial
  · refine hHost.takeOver.bind ?_ ?_
    · rintro (e | _) hFailed
      · exact hHost.after hHost.kill fun _ => trivial
      · exact hFailed.elim
    · rintro (e | _) hDone
      · exact absurd trivial hDone
      · exact id

theorem launch (r : LaunchRequest) : (launch h r).Spares part (fun _ => False) Failed := by
  refine hHost.after hHost.freePort fun port => ?_
  split
  · trivial
  split
  · trivial
  refine hHost.after hHost.note fun _ => hHost.after hHost.note fun _ => ?_
  refine hHost.after (ToolCall.within_run hHost.start _) fun startedUp => ?_
  split
  · trivial
  · exact hHost.follow _

theorem attach (r : AttachRequest) : (attach h r).Spares part (fun _ => False) Failed := by
  refine hHost.after hHost.note fun _ => ?_
  refine hHost.after (hHost.looks _) fun now => ?_
  refine hHost.after ((hHost.connect _ _).before hHost.stays) fun connected => ?_
  split
  · exact hHost.takeOver
  · trivial
  · trivial

end Host.Spares
end Launch

/-! ## The adapter -/

namespace Adapter

def memory (s : Adapter) : Session.Memory := s.session.memory

/-- What leaves alone what the session has in mind. -/
def mindful : Bounds Adapter Host := ⟨fun s s' => s'.memory = s.memory, fun _ => True, plan.keep⟩

theorem memory_keep (r : Log.Record) (s : Adapter) : (plan.keep r s).memory = s.memory :=
  Session.memory_keep r s.session

theorem mindful_ask (c : Host.Call) : (ask c).Within mindful fun _ => True := ⟨trivial, fun _ => rfl, fun _ => trivial⟩

theorem mindful_modify {change : Adapter → Adapter} (h : ∀ s, (change s).memory = s.memory) :
    (Routine.modify change : Activity Unit).Within mindful fun _ => True :=
  fun s => ⟨h s, trivial⟩

theorem mindful_gets {f : Adapter → α} : (Routine.gets f : Activity α).Within mindful fun _ => True :=
  fun _ => ⟨rfl, trivial⟩

theorem memory_putMachine {d : DebuggeeId} {m : Machine} {s : Adapter}
    (h : m.debuggee.book = (s.machine d).debuggee.book) : (putMachine d m s).memory = s.memory := by
  change Session.Memory.mk _ _ m.debuggee.book _ _ _ _ = _
  rw [h]
  rfl

/-! Machines -/

theorem mindful_answerMachine (d : DebuggeeId) {c : Machine.Call} (h : ¬Machine.isPublish c) :
    (answerMachine d c).Within mindful fun _ => True := by
  cases c with
  | publish e => exact absurd trivial h
  | write | exitCode | kill => exact mindful_ask _

theorem mindful_onMachine (d : DebuggeeId) {r : Machine.Activity α} (h : r.Within Machine.bookless fun _ => True) :
    (onMachine d r).Within mindful fun _ => True := by
  have hZoomed : (r.zoom (machine d) (putMachine d)).Within
      (⟨mindful.changes, fun c => ¬Machine.isPublish c, plan.keep⟩ : Bounds Adapter Machine.World) fun _ => True :=
    h.zoom (fun _ _ => memory_putMachine) (fun _ => id) (fun _ => rfl) memory_keep
  exact hZoomed.interpret (fun _ _ => id) rfl fun c => mindful_answerMachine d

theorem spares_onMachine (d : DebuggeeId) {r : Machine.Activity α} {way : α → Prop}
    (h : r.Spares (·.debuggee.book) (fun x => Machine.isPublish x.1) way) :
    (onMachine d r).Spares memory (fun _ => False) way := by
  refine Routine.Spares.interpret (h.zoom fun _ _ => memory_putMachine) fun c => ?_
  by_cases hPublish : Machine.isPublish c
  · exact Routine.spares_of_none fun _ => not_not_intro hPublish
  · exact (mindful_answerMachine d hPublish).spares (fun _ _ => id) fun _ _ _ => id

theorem mindful_drive (d : DebuggeeId) (r : DebuggeeRequest) : (drive d r).Within mindful fun _ => True := by
  refine Routine.within_then mindful_gets fun here => ?_
  split
  · exact mindful_onMachine d (Machine.bookless_onDebuggee (Debuggee.bookless_serve r))
  · exact mindful_ask _

/-! Building -/

theorem mindful_build (c : BuildCall) : (build c).Within mindful fun _ => True := by
  refine Routine.within_then mindful_gets fun tool => ?_
  split
  · exact Bazel.within_serve memory_keep (fun _ => mindful_ask _) _ c
  · exact mindful_ask _

/-! Starting debuggees -/

theorem mindful_connect (d : DebuggeeId) (host : String) (port : Nat) :
    (connect d host port).Within mindful fun _ => True := by
  refine Routine.within_then ⟨memory_keep _, trivial⟩ fun _ => Routine.within_then (mindful_ask _) fun connected => ?_
  split
  · trivial
  · refine Routine.within_then (mindful_modify fun s => memory_putMachine rfl) fun _ => ?_
    exact mindful_onMachine d (Machine.bookless_onConnection _)

theorem mindful_startProgram (d : DebuggeeId) (c : ToolCall) : (startProgram d c).Within mindful fun _ => True := by
  refine Routine.within_then (mindful_ask _) fun startedUp => ?_
  split
  · trivial
  · exact Routine.within_then (mindful_modify fun _ => rfl) fun _ => trivial

theorem launchHost_spares (d : DebuggeeId) (program : String) : (launchHost d program).Spares mindful memory where
  stays _ := rfl
  notes := memory_keep
  freePort := mindful_ask _
  start := mindful_startProgram d
  ended := mindful_ask _
  kill := mindful_ask _
  connect := mindful_connect d
  changes _ _ := id
  takeOver := spares_onMachine d Machine.start_spares

theorem start_spares {origin : Origin} {root : Path} {index : SourceIndex}
    {run : Launch.Host Adapter Host → Activity (Except Error Unit)}
    (h : ∀ host, host.Spares mindful memory → (run host).Spares memory (fun _ => False) Failed) :
    (start origin root index run).Spares memory (fun _ => False) Failed := by
  have hAfter : ∀ {β γ : Type} {r : Activity β} {k : β → Activity γ} {way : γ → Prop}, (r.Within mindful fun _ => True) →
      (∀ a, (k a).Spares memory (fun _ => False) way) → (r >>= k).Spares memory (fun _ => False) way :=
    fun h => h.before_sparing (fun _ _ => id) fun _ _ _ => id
  refine hAfter mindful_gets fun program => ?_
  refine hAfter (r := Routine.modifyGet _) (fun _ => ⟨rfl, trivial⟩) fun d => ?_
  refine (h _ (launchHost_spares d program)).bind ?_ ?_
  · rintro (e | _) hFailed
    · exact hAfter (mindful_modify fun _ => rfl) fun _ => trivial
    · exact hFailed.elim
  · rintro (e | _) hDone
    · exact absurd trivial hDone
    · exact id

/-! The session -/

theorem failed_of_not_launched {r : LaunchRequest} {index : SourceIndex} {a : Except Error DebuggeeId}
    (h : ¬Session.started ⟨.launch r index, a⟩) : Failed a := by
  cases a with
  | ok d => exact absurd trivial h
  | error e => trivial

theorem failed_of_not_attached {r : AttachRequest} {index : SourceIndex} {a : Except Error DebuggeeId}
    (h : ¬Session.started ⟨.attach r index, a⟩) : Failed a := by
  cases a with
  | ok d => exact absurd trivial h
  | error e => trivial

/-- Whatever a session calls for leaves alone what it has in mind, unless a debuggee has been started. -/
theorem spares_answerSession (c : Session.Call) :
    (answerSession c).Spares memory (fun _ => False) fun a => ¬Session.started ⟨c, a⟩ := by
  have hWithin : ∀ {γ : Type} {r : Activity γ} {way : γ → Prop}, (r.Within mindful fun _ => True) →
      r.Spares memory (fun _ => False) way := fun h => h.spares (fun _ _ => id) fun _ _ _ => id
  cases c with
  | drive d r => exact hWithin (mindful_drive d r)
  | build c => exact hWithin (mindful_build c)
  | files | openLog => exact hWithin (mindful_ask _)
  | launch r index => exact (start_spares fun _ hHost => hHost.launch r).mono fun _ => failed_of_not_launched
  | attach r index => exact (start_spares fun _ hHost => hHost.attach r).mono fun _ => failed_of_not_attached

/-- What spares the memory of a session spares it in the adapter too. -/
theorem spares_onSession {r : Session.Activity α} {way : α → Prop} (h : r.Spares Session.memory Session.started way) :
    (onSession r).Spares memory (fun _ => False) way :=
  Routine.Spares.interpret (h.zoom fun _ _ => id) spares_answerSession

/-! Requests that fail -/

/-- One request is served; the host answers whatever it likes, and others do what they may. -/
def answering (others : Adapter → Adapter → Prop) :
    Setting Unit Unit Adapter Host Unit fun _ => Except Error (Option Json) where
  takes _ _ _ _ _ := False
  answers _ _ _ _ := True
  keep := plan.keep
  outside s _ s' _ := others s s'

/-- A request has just been taken up. -/
def received (q : Dap.Request) (s : Adapter) : Scene Unit Unit Adapter Host Unit fun _ => Except Error (Option Json) :=
  (Scene.idle s ()).put () (some ((), onSession (Session.answer q).run))

variable {others : Adapter → Adapter → Prop} {q : Dap.Request} {s : Adapter}
  {past : List (Moment Unit Unit Adapter Host)} {now : Scene Unit Unit Adapter Host Unit fun _ => Except Error (Option Json)} {why : Error}

theorem not_taken_up {start : Scene Unit Unit Adapter Host Unit fun _ => Except Error (Option Json)}
    (hLeads : (answering others).Leads start past now) : ∀ e ∈ past, ∀ job, e.turn ≠ .takesUp () job := by
  intro e he job hTurn
  obtain ⟨before, since, rfl⟩ := List.append_of_mem he
  obtain ⟨m, m', -, hHappens, -⟩ := hLeads.around
  cases hHappens with
  | takesUp _ hTakes => exact hTakes
  | goesOn | isDone | outside => cases hTurn

/-- A request that fails leaves alone what the session has in mind, all the time. If the others leave that alone too, it
is in the end as it was. -/
theorem failed_leaves_memory (hLeads : (answering others).Leads (received q s) past now)
    (hFailed : now.busy () = some ((), .done (.error why))) (hCommand : q.command ∉ Session.letsGo) :
    (∀ e ∈ past, e.turn.worker? = some () → e.after.memory = e.before.memory) ∧
      ((∀ s s', others s s' → s'.memory = s.memory) → now.state.memory = s.memory) := by
  have hOwn : ∀ e ∈ past, e.turn.worker? = some () → e.after.memory = e.before.memory :=
    hLeads.spared memory_keep (Scene.busy_put ..) (spares_onSession (Session.answer_spares hCommand))
      (not_taken_up hLeads) hFailed trivial
  refine ⟨hOwn, fun hOthers => hLeads.same fun e he => ?_⟩
  obtain ⟨before, since, rfl⟩ := List.append_of_mem he
  obtain ⟨m, m', -, hHappens, -⟩ := hLeads.around
  cases hHappens with
  | outside hOutside => exact hOthers _ _ hOutside
  | takesUp | goesOn | isDone => exact hOwn _ he rfl

/-! A client with a breakpoint attaches to a machine that is there but does not speak the protocol. -/

def sourceX : Source := ⟨"X.java", ⟨"/w/X.java"⟩⟩

def configured : Adapter where
  session := { book := (({} : BreakpointBook).set sourceX [⟨⟨sourceX, 5, none⟩, none⟩]).2 }

def attachRequest : Dap.Request :=
  ⟨1, "attach", some (.obj
    [("workspaceRoot", .str "/w"), ("hostName", .str "h"), ("port", .int 80), ("timeout", .int 9)])⟩

/-- Bytes come on the streams of machines. -/
def Comes (s s' : Adapter) : Prop := ∃ d bytes, s' = receive d bytes s

theorem memory_of_comes (s s' : Adapter) (h : Comes s s') : s'.memory = s.memory := by
  obtain ⟨d, bytes, rfl⟩ := h
  exact memory_putMachine rfl

def rude : Script (answering Comes) Empty Bytes where
  take? := nofun
  answer? _
    | .files => some (.folder [], ())
    | .connect .. => some (.ok (), ())
    | .write .. => some (.ok (), ())
    | _ => none
  come? bytes s _ := some (receive 0 bytes s, ())
  takes {_ hint} := nomatch hint
  answers _ := trivial
  outside {bytes _ _ _ _} h := by
    cases h
    exact ⟨0, bytes, rfl⟩

/-- The machine is connected to and begun with, and then says other words than those with which both sides begin. -/
def otherWords : List (Cue Unit Empty Bytes) :=
  List.replicate 14 (.goesOn ()) ++ [.outside (List.replicate 14 0)] ++ List.replicate 4 (.goesOn ())

def failure? (now : Scene Unit Unit Adapter Host Unit fun _ => Except Error (Option Json)) : Option Error :=
  match now.busy () with
  | some (_, .done (.error why)) => some why
  | _ => none

theorem busy_of_failure (h : failure? now = some why) : now.busy () = some ((), .done (.error why)) := by
  unfold failure? at h
  split at h
  · next hBusy =>
    cases h
    exact hBusy
  · cases h

theorem failed_leaves_memory_otherWords : ∃ past now why,
    (answering Comes).Leads (received attachRequest configured) past now ∧ now.busy () = some ((), .done (.error why)) ∧
    attachRequest.command ∉ Session.letsGo ∧ (∀ s s', Comes s s' → s'.memory = s.memory) ∧ now.state.memory = configured.memory := by
  obtain ⟨past, now, hLeads, hCheck⟩ := rude.leads_of_check otherWords (received attachRequest configured)
    (fun _ now => (failure? now).isSome) (by decide +kernel)
  obtain ⟨why, hWhy⟩ := Option.isSome_iff_exists.mp hCheck
  have hFailed := busy_of_failure hWhy
  have hCommand : attachRequest.command ∉ Session.letsGo := by decide +kernel
  exact ⟨past, now, why, hLeads, hFailed, hCommand, memory_of_comes,
    (failed_leaves_memory hLeads hFailed hCommand).2 memory_of_comes⟩

end Adapter
end JvmDebug
