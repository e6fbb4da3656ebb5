import JvmDebug.Debuggee.Machine
import JvmDebug.Proofs.Debuggee.Handling

/-!
# The pump of a machine

The pump of a machine goes through the phases of the pump of its debuggee, while the commands of that pump go over the
connection. When the debuggee is gone the pump ends: events are not followed any more, and the end is published.
-/

namespace JvmDebug
set_option autoImplicit false

open Jdwp (Connection EventSet)
open Debuggee (Note PumpPhase HandledAll Resumed Replies pumping)
open Debuggee.PumpPhase (free)

variable {α : Type}

namespace Machine

/-- Whatever the machine replies. -/
abbrev AnyReply (_ : Jdwp.Error) : Prop := True

theorem replies_any (c : Debuggee.Call) (a : Debuggee.Answer c) : Replies AnyReply c a := by
  cases c with
  | command _ => exact fun _ _ => trivial
  | _ => trivial

/-- The event that a call publishes. -/
def announced? : Asked World → Option DebugEvent
  | ⟨.publish e, _⟩ => some e
  | _ => none

/-- The events to come are the same. -/
def SameStream (c c' : Connection) : Prop := c'.events = c.events ∧ c'.eventsEnded = c.eventsEnded

/-- How far the pump is with its end. -/
inductive Ending where
  /-- Events are not followed any more. -/
  | unfollowed
  | exiting
  | announced (code : Option Int32)

inductive Stage where
  | handles (phase : PumpPhase)
  | ends (log : List Note) (ending : Ending)

namespace Stage

def log : Stage → List Note
  | handles phase => phase.log
  | ends log _ => log

/-- What has been published. -/
def publications : Stage → List DebugEvent
  | handles phase => Debuggee.publications phase.log
  | ends log (.announced code) => Debuggee.publications log ++ [.exited code]
  | ends log _ => Debuggee.publications log

/-- What the pump may do in a stage, and the stage it is in then. -/
inductive Moves : Stage → Option (Asked World) → Machine → Machine → Stage → Prop where
  /-- A command is on its way. -/
  | traffic {g : PumpPhase} {m : Machine} {c : Connection} : g.waits → SameStream m.connection c →
      Moves (handles g) none m { m with connection := c } (handles g)
  | replied {g g' : PumpPhase} {m : Machine} {c : Connection} {command : Jdwp.Command}
      {reply : Except Jdwp.Error Jdwp.Reply} : SameStream m.connection c →
      PumpPhase.Moves AnyReply g (some ⟨.command command, reply⟩) m.debuggee m.debuggee g' →
      Moves (handles g) none m { m with connection := c } (handles g')
  | changes {g g' : PumpPhase} {m : Machine} {d : Debuggee} : PumpPhase.Moves AnyReply g none m.debuggee d g' →
      Moves (handles g) none m { m with debuggee := d } (handles g')
  | publishes {g g' : PumpPhase} {m : Machine} {e : DebugEvent} :
      PumpPhase.Moves AnyReply g (some ⟨.publish e, ()⟩) m.debuggee m.debuggee g' →
      Moves (handles g) (some ⟨.publish e, ()⟩) m m (handles g')
  | unfollows {log : List Note} {m : Machine} :
      Moves (handles (free log)) none m { m with followed := false } (ends log .unfollowed)
  | exits {log : List Note} {m : Machine} :
      Moves (ends log .unfollowed) none m { m with debuggee := { m.debuggee with exited := true } } (ends log .exiting)
  /-- The rehook is stopped, and events that come late are dropped. -/
  | tidies {log : List Note} {ending : Ending} {m : Machine} {d : Debuggee} {c : Connection} :
      ending ≠ .unfollowed → c.eventsEnded = m.connection.eventsEnded →
      Moves (ends log ending) none m { m with debuggee := d, connection := c } (ends log ending)
  | asksCode {log : List Note} {m : Machine} {code : Option Int32} :
      Moves (ends log .exiting) (some ⟨.exitCode, code⟩) m m (ends log .exiting)
  | announces {log : List Note} {m : Machine} {code : Option Int32} :
      Moves (ends log .exiting) (some ⟨.publish (.exited code), ()⟩) m m (ends log (.announced code))

/-- What the pump knows in a stage. -/
def fits (s : Stage) (m : Machine) : Prop :=
  match s with
  | handles g => g.fits m.debuggee
  | ends _ .unfollowed => m.debuggee.exited = false
  | ends _ .exiting | ends _ (.announced _) => True

variable {s s' : Stage} {m m' : Machine} {asked : Option (Asked World)}

theorem publications_pump {errors : Jdwp.Error → Prop} {g g' : PumpPhase} {d d' : Debuggee}
    {asked : Option (Asked Debuggee.World)} (h : PumpPhase.Moves errors g asked d d' g') :
    Debuggee.publications g'.log = Debuggee.publications g.log ++ (asked.bind Debuggee.announced?).toList := by
  rw [Debuggee.publications, h.log, List.filterMap_append]
  cases asked with
  | none => rfl
  | some x => cases hAnnounced : Debuggee.announced? x <;> simp [Debuggee.publications, hAnnounced]

/-- All that is published is published by a call. -/
theorem Moves.publications (h : Moves s asked m m' s') :
    s'.publications = s.publications ++ (asked.bind announced?).toList := by
  cases h with
  | traffic | unfollows | exits | tidies | asksCode => exact (List.append_nil _).symm
  | announces => rfl
  | replied _ hMoves => exact publications_pump hMoves
  | changes hMoves => exact publications_pump hMoves
  | publishes hMoves => exact publications_pump hMoves

end Stage

/-- The stages of the pump of a machine. -/
def following : Phases Stage Machine World where
  fits := Stage.fits
  moves := Stage.Moves
  answered _ _ := True
  keep _ m := m

theorem waits_of_command {g g' : PumpPhase} {d d' : Debuggee} {c : Jdwp.Command}
    {reply : Except Jdwp.Error Jdwp.Reply} (h : PumpPhase.Moves AnyReply g (some ⟨.command c, reply⟩) d d' g') :
    g.waits := by
  cases h with
  | asks => rfl
  | asksThere => trivial

/-- A command goes over the connection, and its reply comes back. -/
theorem passes_request {c : Jdwp.Command} {k : Except Jdwp.Error Jdwp.Reply → Activity α} {post : α → Stage → Prop}
    {g : PumpPhase} (hNext : ∀ (m : Machine) reply, g.fits m.debuggee → ∃ g',
      PumpPhase.Moves AnyReply g (some ⟨.command c, reply⟩) m.debuggee m.debuggee g' ∧
        (k reply).Passes following post (.handles g')) :
    ((onConnection (Connection.request c)).bind k).Passes following post (.handles g) := by
  intro m hFits
  have hWaits : g.waits := by
    obtain ⟨_, hMoves, -⟩ := hNext m (.error .closed) hFits
    exact waits_of_command hMoves
  refine ⟨_, .traffic hWaits ⟨rfl, rfl⟩, fun m _ => ⟨_, .traffic hWaits ⟨rfl, rfl⟩, ?_⟩⟩
  refine fun m _ => ⟨_, .traffic hWaits ⟨rfl, rfl⟩, ?_⟩
  refine ⟨trivial, fun m _ => ⟨fun _ => ⟨_, .traffic hWaits ⟨rfl, rfl⟩, ?_⟩, nofun⟩⟩
  refine ⟨trivial, fun m _ => ⟨fun _ => ⟨_, .traffic hWaits ⟨rfl, rfl⟩, ?_⟩, nofun⟩⟩
  intro m hFits
  obtain ⟨g', hMoves, hRest⟩ := hNext m _ hFits
  exact ⟨_, .replied ⟨rfl, rfl⟩ hMoves, hRest⟩

/-- What the pump of the debuggee passes through, that of the machine does. -/
theorem passes_onDebuggee {r : Debuggee.Activity α} {post : α → PumpPhase → Prop} {g : PumpPhase}
    (h : r.Passes (pumping AnyReply) post g) :
    (onDebuggee r).Passes following (fun a s => ∃ g', s = .handles g' ∧ post a g') (.handles g) := by
  induction r generalizing g with
  | done a => exact ⟨g, rfl, h⟩
  | atomic change next ih =>
    intro m hFits
    obtain ⟨g', hMoves, hNext⟩ := h m.debuggee hFits
    exact ⟨_, .changes hMoves, ih _ hNext⟩
  | wait ready change limit next ih =>
    refine ⟨trivial, fun m hFits => ⟨fun hReady => ?_, fun hLimit => ?_⟩⟩
    · obtain ⟨g', hMoves, hNext⟩ := (h.2 m.debuggee hFits).1 hReady
      exact ⟨_, .changes hMoves, ih _ hNext⟩
    · obtain ⟨g', hMoves, hNext⟩ := (h.2 m.debuggee hFits).2 hLimit
      exact ⟨_, .changes hMoves, ih _ hNext⟩
  | call c next ih =>
    cases c with
    | command c =>
      refine passes_request fun m reply hFits => ?_
      obtain ⟨g', hMoves, hNext⟩ := h m.debuggee hFits reply (replies_any (.command c) reply)
      exact ⟨g', hMoves, ih reply hNext⟩
    | publish e =>
      intro m hFits a _
      obtain ⟨g', hMoves, hNext⟩ := h m.debuggee hFits a trivial
      exact ⟨_, .publishes hMoves, ih _ hNext⟩
    | exitCode =>
      intro m hFits a _
      obtain ⟨g', hMoves, -⟩ := h m.debuggee hFits a trivial
      cases hMoves
    | kill =>
      intro m hFits a _
      obtain ⟨g', hMoves, -⟩ := h m.debuggee hFits a trivial
      cases hMoves
  | note _ next ih =>
    intro m hFits
    obtain ⟨g', hMoves, hNext⟩ := h m.debuggee hFits
    exact ⟨_, .changes hMoves, ih hNext⟩

/-! ## The end -/

theorem passes_finish {log : List Note} :
    (onDebuggee Debuggee.finish).Passes following (fun _ s => ∃ code, s = .ends log (.announced code))
      (.ends log .unfollowed) := by
  intro m hFits
  refine ⟨_, .exits, ?_⟩
  change Routine.Passes _ _ (onDebuggee (if m.debuggee.exited = true then _ else _)) _
  have hOnce : ¬m.debuggee.exited = true := by simpa [following, Stage.fits] using hFits
  rw [if_neg hOnce]
  refine fun m _ => ⟨_, .tidies nofun rfl, fun m _ => ⟨_, .tidies nofun rfl, ?_⟩⟩
  dsimp only [Routine.bind]
  cases m.debuggee.origin with
  | launched =>
    exact fun _ _ _ _ => ⟨_, .asksCode, fun _ _ => ⟨_, .tidies nofun rfl, fun _ _ _ _ => ⟨_, .announces, _, rfl⟩⟩⟩
  | attached => exact fun _ _ => ⟨_, .tidies nofun rfl, fun _ _ _ _ => ⟨_, .announces, _, rfl⟩⟩

/-- The end is published after all that was published before. -/
theorem passes_endPump {log : List Note} :
    endPump.Passes following (fun _ s => ∃ code, s = .ends log (.announced code)) (.handles (free log)) := by
  refine fun m _ => ⟨_, .unfollows, ?_⟩
  refine Routine.Passes.bind (r := onDebuggee Debuggee.finish) (passes_finish.mono ?_)
  rintro _ _ ⟨code, rfl⟩
  exact fun m _ => ⟨_, .tidies nofun rfl, code, rfl⟩

/-- What has become of a job: a set of events, or the end of the events. -/
inductive Completes : Option EventSet → Stage → Prop where
  | handled {s : EventSet} {did tail : List Note} : HandledAll AnyReply s.events false did → Resumed s false tail →
      Completes (some s) (.handles (free (did ++ tail)))
  | gone {s : EventSet} {did : List Note} {code : Option Int32} : HandledAll AnyReply s.events true did →
      Completes (some s) (.ends did (.announced code))
  | ended {code : Option Int32} : Completes none (.ends [] (.announced code))

theorem passes_pump (s : EventSet) :
    (Machine.pump s).Passes following (fun _ => Completes (some s)) (.handles (free [])) := by
  refine Routine.Passes.bind ((passes_onDebuggee (Debuggee.passes_pump s)).mono ?_)
  rintro gone _ ⟨_, rfl, did, tail, rfl, hHandled, hResumed⟩
  cases gone with
  | true =>
    cases hResumed
    refine passes_endPump.mono ?_
    rintro _ _ ⟨code, rfl⟩
    simpa using .gone hHandled
  | false => exact (.handled hHandled hResumed : Completes (some s) (.handles (free (did ++ tail))))

end Machine
end JvmDebug
