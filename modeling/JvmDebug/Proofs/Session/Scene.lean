import JvmDebug.Proofs.Routine.Phases
import JvmDebug.Proofs.Routine.Replay
import JvmDebug.Proofs.Routine.Terms
import JvmDebug.Session.Lanes

/-!
# Sessions at work

The workers of a session, and the events of debuggees that it hears, side by side. Requests arrive and breakpoints are
placed at any time; what a debuggee answers is given by `told`. The messages to the client stay in the outbox, so that
all of them can be looked at. Which requests have been put on the lanes is told by what stands behind their ends: one
that is dispatched is put on one of them, once.

The events are heard by themselves, or they are published by debuggees to whoever has subscribed to them. Of an event
it matters whose it is: nobody hears what is published before anybody listens.
-/

namespace JvmDebug.Session
set_option autoImplicit false

/-! ## Requests on the lanes -/

def LauncherJob.request? : LauncherJob → Option Dap.Request
  | .request r => some r
  | .run .. => none

/-- The requests that wait on the lanes and did not wait there before. -/
def queued (before after : Session) : List Dap.Request :=
  added before.defaultLane after.defaultLane ++
    (added before.launcherLane after.launcherLane).filterMap LauncherJob.request? ++
    (added before.arrivals after.arrivals).map (·.2)

theorem queued_of_same {before after : Session} (hDefault : after.defaultLane = before.defaultLane)
    (hLauncher : after.launcherLane = before.launcherLane) (hArrivals : after.arrivals = before.arrivals) :
    queued before after = [] := by
  rw [queued, hDefault, hLauncher, hArrivals, added_self, added_self, added_self]
  rfl

/-- Where a request goes. -/
inductive Route where
  | default
  | launcher
  | arrival
  deriving DecidableEq

/-- Where the requests with a command go. -/
def route (command : String) : Route :=
  if command = "launch" ∨ command = "attach" then .launcher
  else if command = "configurationDone" then .arrival
  else .default

theorem dispatch_eq (r : Dap.Request) (s : Session) :
    s.dispatch r =
      match route r.command with
      | .default => { s with defaultLane := s.defaultLane ++ [r] }
      | .launcher => { s with launcherLane := s.launcherLane ++ [.request r] }
      | .arrival => { s with arrivals := s.arrivals ++ [(s.nextArrival, r)], nextArrival := s.nextArrival + 1 } := by
  rw [dispatch, route]
  split
  · next h => simp [h]
  · next h => simp [h]
  · next h => simp [h]
  · next hLaunch hAttach hDone => rw [if_neg (not_or.mpr ⟨hLaunch, hAttach⟩), if_neg hDone]

theorem queued_dispatch (r : Dap.Request) (s : Session) : queued s (s.dispatch r) = [r] := by
  rw [dispatch_eq]
  cases route r.command <;> simp [queued, added_self, added_append, LauncherJob.request?]

/-! ## Workers -/

/-- Who changes a session: its workers, and the events that it hears. -/
inductive Hand where
  | worker (w : Worker)
  | event (n : Nat)
  deriving DecidableEq

inductive Job where
  | request (r : Dap.Request)
  | run (d : DebuggeeId) (announceThreads : Bool)
  | forward (stream : Nat)
  | event (e : DebugEvent)

def LauncherJob.job : LauncherJob → Job
  | .request r => .request r
  | .run d announceThreads => .run d announceThreads

/-- What a worker takes up next. -/
def Worker.job? (s : Session) : Worker → Option Job
  | defaultLane => s.defaultLane.head?.map .request
  | launcherLane => s.launcherLane.head?.map LauncherJob.job
  | forwarder n => some (.forward n)
  | arrival n => (s.arrivals.find? (·.1 = n)).map fun x => .request x.2

inductive Takes : Hand → Job → Session → Activity Unit → Session → Prop where
  | job {w : Worker} {job : Job} {s s' : Session} {r : Activity Unit} :
      w.job? s = some job → w.take s = some (r, s') → Takes (.worker w) job s r s'
  | event {n : Nat} {e : DebugEvent} {s : Session} : Takes (.event n) (.event e) s (onEvent e) s

/-- What comes of itself: requests, news of breakpoints, and output of debuggees. -/
inductive Outside (s : Session) : Session → Prop where
  | dispatch (r : Dap.Request) : Outside s (s.dispatch r)
  | book (book : BreakpointBook) : Outside s { s with book }
  | streams (streams : List (Nat × OutputStream)) (nextStream : Nat) : Outside s { s with streams, nextStream }

def setting (told : (c : Call) → Answer c → Prop) : Setting Hand Job Session World Unit fun _ => Unit where
  takes := Takes
  answers _ c a _ := told c a
  keep := keep
  outside s _ s' _ := Outside s s'

/-- Cues for a session: the events that it hears, and the requests that reach it. -/
def script {told : (c : Call) → Answer c → Prop} (answer? : (c : Call) → Option (Answer c))
    (hTold : ∀ c a, answer? c = some a → told c a) : Script (setting told) (Option DebugEvent) Dap.Request where
  take? k heard s :=
    match k, heard with
    | .worker w, _ => do
      let job ← w.job? s
      let (r, s') ← w.take s
      return (job, r, s')
    | .event _, some e => some (.event e, onEvent e, s)
    | .event _, none => none
  answer? m c := (answer? c).map (·, m)
  come? q s m := some (s.dispatch q, m)
  takes {k heard s job r s'} h := by
    split at h
    · obtain ⟨job', hJob, h⟩ := Option.bind_eq_some_iff.mp h
      obtain ⟨⟨r', s₁⟩, hTake, h⟩ := Option.bind_eq_some_iff.mp h
      cases h
      exact .job hJob hTake
    · cases h
      exact .event
    · cases h
  answers {m c a m'} h := by
    obtain ⟨a', hAnswer, hEq⟩ := Option.map_eq_some_iff.mp h
    cases hEq
    exact hTold c a hAnswer
  outside h := by
    cases h
    exact .dispatch _

abbrev Act := Doing Session World
abbrev Happening := Moment Hand Job Session World

/-- A session before anything has happened. -/
def fresh (journal : Option Log.Journal) : Scene Hand Job Session World Unit fun _ => Unit := .idle { journal } ()

/-- The session as it may be, after all that has happened. -/
abbrev Comes (told : (c : Call) → Answer c → Prop) (journal : Option Log.Journal) (past : List Happening)
    (s : Scene Hand Job Session World Unit fun _ => Unit) : Prop :=
  (setting told).Leads (fresh journal) past s

/-! ## Debuggees that publish -/

inductive Party where
  | worker (w : Worker)
  /-- Publishes events of debuggees, one after the other. -/
  | publisher (n : Nat)
  deriving DecidableEq

inductive Task where
  | job (j : Job)
  | publish (d : DebuggeeId) (e : DebugEvent)

inductive Engages : Party → Task → Session → Activity Unit → Session → Prop where
  | job {w : Worker} {j : Job} {s s' : Session} {r : Activity Unit} :
      w.job? s = some j → w.take s = some (r, s') → Engages (.worker w) (.job j) s r s'
  | publish {n : Nat} {d : DebuggeeId} {e : DebugEvent} {s : Session} :
      Engages (.publisher n) (.publish d e) s (hear d e) s

def company (told : (c : Call) → Answer c → Prop) : Setting Party Task Session World Unit fun _ => Unit where
  takes := Engages
  answers _ c a _ := told c a
  keep := keep
  outside s _ s' _ := Outside s s'

abbrev Stage := Scene Party Task Session World Unit fun _ => Unit
abbrev Occurrence := Moment Party Task Session World

def opening (journal : Option Log.Journal) : Stage := .idle { journal } ()

abbrev lane : Party := .worker .defaultLane
abbrev launcher : Party := .worker .launcherLane

/-- Cues for a session in company: what debuggees publish, and the requests that reach it. -/
def companyScript {told : (c : Call) → Answer c → Prop} (answer? : (c : Call) → Option (Answer c))
    (hTold : ∀ c a, answer? c = some a → told c a) :
    Script (company told) (Option (DebuggeeId × DebugEvent)) Dap.Request where
  take? k published s :=
    match k, published with
    | .worker w, _ => do
      let j ← w.job? s
      let (r, s') ← w.take s
      return (.job j, r, s')
    | .publisher _, some (d, e) => some (.publish d e, hear d e, s)
    | .publisher _, none => none
  answer? m c := (answer? c).map (·, m)
  come? q s m := some (s.dispatch q, m)
  takes {k published s job r s'} h := by
    split at h
    · obtain ⟨j, hJob, h⟩ := Option.bind_eq_some_iff.mp h
      obtain ⟨⟨r', s₁⟩, hTake, h⟩ := Option.bind_eq_some_iff.mp h
      cases h
      exact .job hJob hTake
    · cases h
      exact .publish
    · cases h
  answers {m c a m'} h := by
    obtain ⟨a', hAnswer, hEq⟩ := Option.map_eq_some_iff.mp h
    cases hEq
    exact hTold c a hAnswer
  outside h := by
    cases h
    exact .dispatch _

end JvmDebug.Session
