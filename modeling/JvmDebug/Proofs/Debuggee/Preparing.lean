import JvmDebug.Proofs.Debuggee.Looking
import JvmDebug.Proofs.Debuggee.Rounds
import JvmDebug.Proofs.Debuggee.Sections
import JvmDebug.Proofs.Debuggee.Silence

/-!
# Classes run on with their breakpoints

Threads that stand still for classes only are let run once: when all that there is to ask for the breakpoints of these
classes has been asked and answered. How many threads are let run, the set says by its policy. No other set has threads
let run. The pump waits for nothing but the placer, and for that only as long as somebody else is there: then it comes to
the end of its set by itself.
-/

namespace JvmDebug
set_option autoImplicit false

open Jdwp (ClassId ObjectId ThreadId RequestId LoadedClass Query EventSet)

variable {S : Type} {α : Type}

namespace Debuggee

/-! ## What never waits -/

theorem clearStep_unwaiting (thread : ThreadId) : (clearStep thread).run.Unwaiting := by
  refine Attempt.unwaiting_bind (fun _ => trivial) fun taken => ?_
  split
  · trivial
  refine Attempt.unwaiting_bind (fun _ => trivial) fun answer => ?_
  split
  · trivial
  · dsimp only
    split
    · trivial
    · trivial

theorem place_unwaiting (r : Jdwp.EventRequest) : (Jdwp.place r : Routine S Jdwp.Wire _).Unwaiting := by
  refine Routine.Unwaiting.bind (fun _ => trivial) fun answer => ?_
  cases answer with
  | ok id => trivial
  | error e => trivial

theorem locationsIn_unwaiting (c : LoadedClass) (line : UInt32) (methods : List Jdwp.Method) :
    (Backend.locationsIn c line methods : Routine S Jdwp.Wire _).Unwaiting := by
  induction methods with
  | nil => trivial
  | cons m rest ih =>
    refine Routine.Unwaiting.bind (fun _ => trivial) fun answer => ?_
    cases answer with
    | ok table => exact ih.bind fun _ => trivial
    | error e =>
      dsimp only
      split
      · trivial
      · exact ih

theorem serve_unwaiting (c : Backend.Call) : (Backend.serve c : Routine S Jdwp.Wire _).Unwaiting := by
  cases c with
  | loadedClasses => exact fun _ => trivial
  | lineLocations c line =>
    refine Routine.Unwaiting.bind (fun _ => trivial) fun answer => ?_
    cases answer with
    | ok methods => exact locationsIn_unwaiting c line methods
    | error e => trivial
  | setBreakpoint | setWatch | setException => exact place_unwaiting _
  | clearBreakpoint | clearWatch | clearException => exact fun _ => trivial

theorem command_unwaiting (c : Jdwp.Command) : (command c).Unwaiting := fun _ => trivial

theorem onWire_unwaiting {r : Routine Debuggee Jdwp.Wire α} (h : r.Unwaiting) : (onWire r).Unwaiting :=
  h.interpret command_unwaiting

theorem publishResolved_unwaiting (found : List (Int × UInt32)) : (publishResolved found).Unwaiting := by
  induction found with
  | nil => trivial
  | cons x rest ih => exact fun _ _ => ih

/-! ## The pump -/

abbrev placerFree (d : Debuggee) : Bool := d.placerUser.isNone

theorem classPrepared_waits (r : RequestId) (c : LoadedClass) : (classPrepared r c).run.WaitsFor placerFree := by
  refine Attempt.waitsFor_bind ⟨rfl, fun _ => trivial⟩ fun _ => ?_
  have hSection : (onPlacer (Placer.classPrepared r c)).Unwaiting :=
    (Placer.classPrepared_unwaiting r c).zoom.interpret fun c => onWire_unwaiting (serve_unwaiting c)
  refine Routine.Unwaiting.waitsFor (Attempt.unwaiting_bind hSection.map fun outcome => ?_)
  refine Attempt.unwaiting_bind (fun _ => trivial) fun _ => ?_
  cases outcome with
  | error why => trivial
  | ok found => exact (publishResolved_unwaiting found).map

theorem handle_waits (e : Jdwp.Event) : (handle e).run.WaitsFor placerFree := by
  obtain ⟨r, happening⟩ := e
  refine Attempt.waitsFor_bind trivial fun _ => ?_
  cases happening with
  | classPrepare thread tag c signature status =>
    refine Attempt.waitsFor_bind trivial fun _ => ?_
    exact Attempt.waitsFor_bind (classPrepared_waits r ⟨tag, c⟩) fun _ => trivial
  | step thread l =>
    refine Routine.Unwaiting.waitsFor (Attempt.unwaiting_bind (clearStep_unwaiting thread) fun _ => ?_)
    exact Attempt.unwaiting_bind (fun _ => trivial) fun _ => trivial
  | exception thread l thrown caughtAt =>
    refine Routine.Unwaiting.waitsFor (Attempt.unwaiting_bind (inspects_describeException _ _).unwaiting fun _ => ?_)
    exact Attempt.unwaiting_bind (fun _ => trivial) fun _ => trivial
  | threadDeath thread => exact fun _ _ => trivial
  | vmDeath => trivial
  | breakpoint | threadStart => exact fun _ => trivial
  | vmStart | methodEntry | methodExit => trivial

theorem handleAll_waits (events : List Jdwp.Event) : (handleAll events).WaitsFor placerFree := by
  induction events with
  | nil => trivial
  | cons e rest ih =>
    refine Routine.WaitsFor.bind (handle_waits e) fun o => ?_
    match o with
    | .ok true => trivial
    | .ok false => exact ih
    | .error why =>
      dsimp only
      split
      · trivial
      · exact ih

theorem pump_waits (s : EventSet) : (pump s).WaitsFor placerFree := by
  refine Routine.WaitsFor.bind (handleAll_waits s.events) fun gone => ?_
  refine Routine.Unwaiting.waitsFor ?_
  cases gone with
  | true => trivial
  | false =>
    change Routine.Unwaiting (if isPrepareSet s = true then resumeAfterPrepare s >>= _ else _)
    split
    · refine Routine.Unwaiting.bind ?_ fun _ => trivial
      unfold resumeAfterPrepare
      split
      · trivial
      · refine Routine.Unwaiting.bind (fun _ => trivial) fun answer => ?_
        split <;> trivial
    · trivial

end Debuggee
end JvmDebug

namespace JvmDebug.Debuggee
set_option autoImplicit false

open Jdwp (EventSet Query ThreadId)

variable {errors : Jdwp.Error → Prop} {g g' : Round} {d d' : Debuggee} {asked : Option (Asked World)}
  {past : List (Moment Unit EventSet Debuggee World)} {s : EventSet}

/-- What others do neither takes the placer from the pump nor gives it to the pump. -/
structure Elsewhere (d d' : Debuggee) : Prop where
  respects : Respects d d'
  apart : d'.placerUser = some .pump → d.placerUser = some .pump

/-- The pump among others, on a machine that replies with these errors. -/
def facing (errors : Jdwp.Error → Prop) : Setting Unit EventSet Debuggee World Unit fun _ => Bool where
  takes _ s d r d' := r = pump s ∧ d' = d
  answers _ c a _ := Replies errors c a
  keep _ d := d
  outside d _ d' _ := Elsewhere d d'

/-! ## What a step does to the round -/

def cameTo? (x : Doing Debuggee World) : Option Placer :=
  if x.before.placerUser = none ∧ x.after.placerUser = some .pump then some x.before.placer else none

/-- The placers that the pump came to for the set that it took up last, each as it was found. -/
def visits (past : List (Moment Unit EventSet Debuggee World)) : List Placer := (deeds () past).filterMap cameTo?

/-- The pump is at the placer as its round says. -/
structure Round.Holds (g : Round) (d : Debuggee) : Prop where
  there : ∀ p ∈ g.hand, d.placerUser = some .pump ∧ d.placer = p
  away : g.hand = none → d.placerUser ≠ some .pump

theorem Round.begun_holds (s : EventSet) (hAway : d.placerUser ≠ some .pump) : (Round.begun s).Holds d :=
  ⟨fun _ hp => absurd hp (by simp [Round.begun]), fun _ => hAway⟩

theorem Round.Holds.placer_free (h : g.Holds d) (hHand : g.hand = none) (hUnclaimed : d.placerUser ≠ some .rehook) :
    placerFree d = true := by
  cases hUser : d.placerUser with
  | none => simp [hUser]
  | some user =>
    cases user with
    | pump => exact absurd hUser (h.away hHand)
    | rehook => exact absurd hUser hUnclaimed

theorem cameTo?_of_same (h : d'.placerUser = d.placerUser) : cameTo? ⟨asked, d, d'⟩ = none := by
  unfold cameTo?
  rw [if_neg]
  rintro ⟨hBefore, hAfter⟩
  simp only [h] at hAfter
  rw [hBefore] at hAfter
  cases hAfter

namespace Round.Moves

theorem set (h : Moves errors g asked d d' g') : g'.set = g.set := by cases h <;> rfl

theorem log (h : Moves errors g asked d d' g') : g'.log = g.log ++ asked.toList := by
  cases h <;> simp [noting, visiting, holding, leaving, resuming]

theorem holds (h : Moves errors g asked d d' g') (hHolds : g.Holds d) : g'.Holds d' := by
  cases h with
  | stays => exact hHolds
  | changes hHand hSame =>
    refine ⟨fun p hp => ?_, fun _ => ?_⟩
    · rw [hHand] at hp
      cases hp
    · rw [hSame]
      exact hHolds.away hHand
  | asks => exact ⟨hHolds.there, hHolds.away⟩
  | takes =>
    refine ⟨?_, nofun⟩
    rintro p ⟨⟩
    exact ⟨rfl, rfl⟩
  | places p hHand =>
    refine ⟨?_, nofun⟩
    rintro _ ⟨⟩
    exact ⟨(hHolds.there _ hHand).1, rfl⟩
  | leaves => exact ⟨nofun, nofun⟩
  | resumes => exact ⟨hHolds.there, hHolds.away⟩

theorem unclaimed (h : Moves errors g asked d d' g') (hFree : d.placerUser ≠ some .rehook) :
    d'.placerUser ≠ some .rehook := by
  cases h with
  | changes _ hSame => exact hSame ▸ hFree
  | takes | leaves => exact nofun
  | stays | asks | places | resumes => exact hFree

theorem visits (h : Moves errors g asked d d' g') : g'.visits = g.visits ++ (cameTo? ⟨asked, d, d'⟩).toList := by
  cases h with
  | takes _ hFree => simp [visiting, cameTo?, hFree]
  | changes _ hSame => simp [cameTo?_of_same hSame]
  | leaves => simp [leaving, cameTo?]
  | stays | asks | places | resumes => simp [cameTo?_of_same, noting, holding, resuming]

end Round.Moves

/-! ## What is let run -/

/-- What is let run behind a set that only reports classes. -/
inductive LetsRun (s : EventSet) : List (Asked World) → Prop where
  | all {reply : Except Jdwp.Error Jdwp.Reply} : s.policy = Jdwp.SuspendPolicy.all.toByte →
      LetsRun s [⟨.command Query.resumeAll.command, reply⟩]
  | eventThread {e : Jdwp.Event} {rest : List Jdwp.Event} {thread : ThreadId} {reply : Except Jdwp.Error Jdwp.Reply} :
      s.policy = Jdwp.SuspendPolicy.eventThread.toByte → s.events = e :: rest → e.happening.thread? = some thread →
      LetsRun s [⟨.command (Query.resume thread).command, reply⟩]
  | nothing : s.policy ≠ Jdwp.SuspendPolicy.all.toByte → s.policy ≠ Jdwp.SuspendPolicy.eventThread.toByte → LetsRun s []

/-- All classes of a set were accounted for, and then threads were let run. -/
def LetGo (s : EventSet) (past : List (Moment Unit EventSet Debuggee World)) : Prop :=
  ∃ did tail, calls past = did ++ tail ∧ PlacedAll s.events (visits past) did ∧ (∀ x ∈ did, letsRun x.1 = false) ∧
    LetsRun s tail

theorem letsRun_of_query {tail : List (Asked World)} (hSome : s.events ≠ []) (hPrepares : isPrepareSet s = true)
    (h : tail.map (·.1) = (resumeQuery? s).toList.map fun q => Call.command q.command) : LetsRun s tail := by
  have hOne : ∀ c : Jdwp.Command, tail.map (·.1) = [Call.command c] → ∃ reply, tail = [⟨.command c, reply⟩] := by
    intro c hTail
    obtain ⟨⟨call, reply⟩, rfl, hCall⟩ := List.map_eq_singleton_iff.mp hTail
    cases hCall
    exact ⟨reply, rfl⟩
  unfold resumeQuery? at h
  split at h
  · next hAll =>
    obtain ⟨reply, rfl⟩ := hOne _ h
    exact .all hAll
  · next hNotAll =>
    split at h
    · next hThread =>
      obtain ⟨e, rest, hEvents⟩ := List.exists_cons_of_ne_nil hSome
      have hFirst : e.happening.isClassPrepare = true :=
        List.all_eq_true.mp hPrepares e (by rw [hEvents]; exact List.mem_cons_self)
      obtain ⟨thread, hHere⟩ : ∃ thread, e.happening.thread? = some thread := by
        cases hHappening : e.happening with
        | classPrepare thread => exact ⟨thread, rfl⟩
        | _ => simp [hHappening, Jdwp.Happening.isClassPrepare] at hFirst
      rw [hEvents, List.head?_cons, Option.bind_some, hHere] at h
      obtain ⟨reply, rfl⟩ := hOne _ h
      exact .eventThread hThread hEvents hHere
    · next hNotThread =>
      obtain rfl : tail = [] := List.map_eq_nil_iff.mp h
      exact .nothing hNotAll hNotThread

/-! ### Nothing is let run meanwhile -/

theorem Tables.stands {c : Jdwp.LoadedClass} {line : UInt32} {methods : List Jdwp.Method} {found : List Jdwp.Location}
    {tables : List (Asked Jdwp.Wire)} (h : Tables c line methods found tables) :
    ∀ x ∈ tables, Jdwp.Command.letsRun x.1 = false := by
  induction h with
  | nil => simp
  | cons reply _ ih => exact List.forall_mem_cons.mpr ⟨rfl, ih⟩

theorem Looks.stands {c : Jdwp.LoadedClass} {line : UInt32} {found : Except Jdwp.Error (List Jdwp.Location)}
    {looks : List (Asked Jdwp.Wire)} (h : Looks c line found looks) : ∀ x ∈ looks, Jdwp.Command.letsRun x.1 = false := by
  cases h with
  | refused => exact List.forall_mem_singleton.mpr rfl
  | told _ hTables => exact List.forall_mem_cons.mpr ⟨rfl, hTables.stands⟩

theorem requests_stand {locations : List Jdwp.Location} {requests : List (Asked Jdwp.Wire)}
    (h : List.Forall₂ IsRequest locations requests) : ∀ x ∈ requests, Jdwp.Command.letsRun x.1 = false := by
  induction h with
  | nil => simp
  | cons hRequest _ ih => exact List.forall_mem_cons.mpr ⟨hRequest ▸ rfl, ih⟩

theorem PlacedIn.stands {c : Jdwp.LoadedClass} {breakpoints : List Breakpoint} {placed : List (Asked Jdwp.Wire)}
    (h : PlacedIn c breakpoints placed) : ∀ x ∈ placed, Jdwp.Command.letsRun x.1 = false := by
  induction h with
  | nil => simp
  | cons hLooks hRequests _ ih =>
    have hOthers := List.forall_mem_append.mpr ⟨requests_stand hRequests, ih⟩
    exact List.forall_mem_append.mpr ⟨hLooks.stands, hOthers⟩

theorem PlacedAll.stands {events : List Jdwp.Event} {visits : List Placer} {did : List (Asked World)}
    (h : PlacedAll events visits did) : ∀ x ∈ did, letsRun x.1 = false := by
  induction h with
  | nil => simp
  | cons hPlaced hResolved _ ih =>
    have hTold : ∀ x : Asked World, IsResolved x → letsRun x.1 = false := by
      rintro x ⟨id, line, hCall⟩
      rw [hCall]
      rfl
    refine List.forall_mem_append.mpr ⟨List.forall_mem_append.mpr ⟨?_, fun x hx => hTold x (hResolved x hx)⟩, ih⟩
    exact List.forall_mem_map.mpr hPlaced.stands

/-! ## Along a run -/

/-- All that there was to ask for the classes of a round was asked, and then threads were let run as the policy of the set
says. -/
def Round.Finished (g : Round) : Prop :=
  ∃ did tail, g.log = did ++ tail ∧ PlacedAll g.set.events g.visits did ∧
    tail.map (·.1) = (resumeQuery? g.set).toList.map fun q => Call.command q.command

/-- Nothing is let run before that. -/
structure Round.Sound (errors : Jdwp.Error → Prop) (g : Round) : Prop where
  yet : g.resumed = false → ∀ x ∈ g.log, letsRun x.1 = false
  resumed : g.resumed = true → isPrepareSet g.set = true ∧ (Lasting errors → g.Finished)

theorem Round.begun_sound (s : EventSet) : (Round.begun s).Sound errors :=
  ⟨fun _ => by simp [Round.begun], fun hResumed => absurd hResumed (by simp [Round.begun])⟩

theorem Round.Moves.sound (h : Moves errors g asked d d' g') (hSound : g.Sound errors) : g'.Sound errors := by
  cases h with
  | stays => exact hSound
  | changes => exact hSound
  | asks hYet hStands =>
    refine ⟨fun _ => ?_, fun (hResumed : g.resumed = true) => absurd (hYet.symm.trans hResumed) (by simp)⟩
    exact List.forall_mem_append.mpr ⟨hSound.yet hYet, List.forall_mem_singleton.mpr hStands⟩
  | takes hYet =>
    exact ⟨hSound.yet, fun (hResumed : g.resumed = true) => absurd (hYet.symm.trans hResumed) (by simp)⟩
  | places => exact ⟨hSound.yet, hSound.resumed⟩
  | leaves => exact ⟨hSound.yet, hSound.resumed⟩
  | resumes _ hPrepares hQuery hAccounts =>
    refine ⟨nofun, fun _ => ⟨hPrepares, fun hLasting => ⟨_, _, rfl, hAccounts hLasting, ?_⟩⟩⟩
    change _ = (resumeQuery? g.set).toList.map _
    rw [hQuery]
    rfl

namespace Facing

def concert (errors : Jdwp.Error → Prop) : Concert (facing errors) fun _ => Round where
  phases _ := rounds errors
  home _ g := g.hand = none
  post _ s gone g := g.Over errors s gone

structure Holds (errors : Jdwp.Error → Prop) (g : Round) (past : List (Moment Unit EventSet Debuggee World))
    (d : Debuggee) : Prop where
  hand : g.Holds d
  set : ∀ s, lastJob? () past = some s → g.set = s
  log : g.log = calls past
  visits : g.visits = Debuggee.visits past
  sound : g.Sound errors

theorem keeps (errors : Jdwp.Error → Prop) :
    (concert errors).Keeps (fun _ _ => True) fun φ past d => Holds errors (φ ()) past d where
  keep _ := rfl
  answered _ _ _ _ _ h := h
  fits _ h p hp := (h.hand.there p hp).2
  takes := by
    rintro φ past d ⟨⟩ s r _ h hHome ⟨rfl, rfl⟩ -
    refine ⟨.begun s, pump_passes s, ?_⟩
    rw [Function.update_self]
    constructor
    case hand => exact Round.begun_holds s (h.hand.away hHome)
    case set => simp [lastJob?_snoc, Moment.jobOf, Round.begun]
    case log => simp [calls, deeds_snoc, Moment.addTo, Round.begun]
    case visits => simp [Debuggee.visits, deeds_snoc, Moment.addTo, Round.begun]
    case sound => exact Round.begun_sound s
  goes := by
    rintro φ past d ⟨⟩ s asked d' g h hMoves -
    have hMoves : Round.Moves errors (φ ()) asked d d' g := hMoves
    rw [Function.update_self]
    constructor
    case hand => exact hMoves.holds h.hand
    case set =>
      intro s hLast
      rw [lastJob?_snoc] at hLast
      exact hMoves.set.trans (h.set s hLast)
    case log =>
      rw [hMoves.log, h.log, calls, calls, deeds_snoc]
      cases asked <;> simp [Moment.addTo, List.filterMap_append]
    case visits =>
      rw [hMoves.visits, h.visits, Debuggee.visits, Debuggee.visits, deeds_snoc]
      cases hCame : cameTo? ⟨asked, d, d'⟩ <;> simp [Moment.addTo, List.filterMap_append, hCame]
    case sound => exact hMoves.sound h.sound
  done := by
    rintro φ past d ⟨⟩ s gone h hOver
    refine ⟨hOver.away, h.hand, fun s hLast => h.set s ?_, ?_, ?_, h.sound⟩
    · rwa [lastJob?_snoc] at hLast
    · rw [h.log, calls, calls, deeds_snoc]
      rfl
    · rw [h.visits, Debuggee.visits, Debuggee.visits, deeds_snoc]
      rfl
  outside := by
    rintro φ past d ⟨⟩ d' ⟨⟩ h hElsewhere
    refine ⟨⟨fun p hp => ?_, fun hHand hUser => ?_⟩, fun s hLast => h.set s ?_, ?_, ?_, h.sound⟩
    · obtain ⟨hUser, hPlacer⟩ := h.hand.there p hp
      obtain ⟨hUser', hSame⟩ := hElsewhere.respects hUser
      exact ⟨hUser', hSame.trans hPlacer⟩
    · exact h.hand.away hHand (hElsewhere.apart hUser)
    · rwa [lastJob?_snoc] at hLast
    · rw [h.log, calls, calls, deeds_snoc]
      rfl
    · rw [h.visits, Debuggee.visits, Debuggee.visits, deeds_snoc]
      rfl

end Facing

/-- What has come of a set that only reports classes, when so much of the pump's work on it is left. -/
structure PlacedFirst (s : EventSet) (past : List (Moment Unit EventSet Debuggee World)) (left : Routine Debuggee World Bool) :
    Prop where
  before : (∀ x ∈ calls past, letsRun x.1 = false) ∨ LetGo s past
  done : ∀ gone, left = .done gone → gone = false ∧ LetGo s past

theorem Round.Finished.letGo {d : Debuggee} (h : g.Finished) (hHolds : Facing.Holds errors g past d) (hSome : g.set.events ≠ [])
    (hPrepares : isPrepareSet g.set = true) : LetGo g.set past := by
  obtain ⟨did, tail, hLog, hAccounts, hTail⟩ := h
  refine ⟨did, tail, hHolds.log.symm.trans hLog, hHolds.visits ▸ hAccounts, hAccounts.stands, ?_⟩
  exact letsRun_of_query hSome hPrepares hTail

/-- Classes run on only after their breakpoints are in, and they do run on. -/
theorem placed_before_run {d : Debuggee} {now : Scene Unit EventSet Debuggee World Unit fun _ => Bool}
    {left : Routine Debuggee World Bool} (hAway : d.placerUser ≠ some .pump)
    (hLeads : (facing errors).Leads (.idle d ()) past now) (hBusy : now.busy () = some (s, left)) (hSome : s.events ≠ []) :
    (isPrepareSet s = true → Lasting errors → PlacedFirst s past left) ∧
      (isPrepareSet s = false → ∀ x ∈ calls past, letsRun x.1 = false) ∧
      (now.state.placerUser ≠ some .rehook → (facing errors).Ends () s now) := by
  obtain ⟨φ, hPlays, hHolds⟩ := hLeads.plays (φ := fun _ => Round.begun s) (Facing.keeps errors) (fun _ => rfl) (fun _ => rfl)
    ⟨Round.begun_holds s hAway, nofun, rfl, rfl, Round.begun_sound s⟩
  have hWaits : left.WaitsFor placerFree := hLeads.left rfl (fun _ _ _ _ hTaken => hTaken.1 ▸ pump_waits _)
    (fun _ _ _ _ _ _ _ hStep => hStep.waitsFor) hBusy
  -- The round is that of the set that the pump took up last.
  obtain rfl : (φ ()).set = s := hHolds.set s (hLeads.lastJob rfl hBusy)
  have hHere := hPlays ()
  rw [Concert.Plays, hBusy] at hHere
  have hYet : (φ ()).resumed = false → ∀ x ∈ calls past, letsRun x.1 = false := fun hYet => hHolds.log ▸ hHolds.sound.yet hYet
  refine ⟨fun hPrepares hLasting => ?_, fun hOthers => ?_, fun hFree => ?_⟩
  · constructor
    · cases hResumed : (φ ()).resumed with
      | false => exact .inl (hYet hResumed)
      | true => exact .inr (((hHolds.sound.resumed hResumed).2 hLasting).letGo hHolds hSome hPrepares)
    · rintro gone rfl
      have hOver : Round.Over errors (φ ()).set gone (φ ()) := hHere
      obtain ⟨hGone, hFinished⟩ := hOver.done hPrepares hLasting
      exact ⟨hGone, Round.Finished.letGo hFinished hHolds hSome hPrepares⟩
  · cases hResumed : (φ ()).resumed with
    | false => exact hYet hResumed
    | true =>
      have hPrepares := (hHolds.sound.resumed hResumed).1
      rw [hOthers] at hPrepares
      cases hPrepares
  · refine (Facing.keeps errors).ends ?_ Round.Moves.unclaimed ?_ hWaits hPlays hHolds hBusy hFree
    · -- The pump only waits where it is not at the placer, and then nobody is there.
      exact fun hHere hHand hUnclaimed => hHere.hand.placer_free hHand hUnclaimed
    · exact fun _ c => ⟨_, (), (exists_reply errors c).choose_spec⟩

/-! ## A class with a breakpoint -/

section Runs

def sourceX : Source := ⟨"X.java", ⟨"/w/X.java"⟩⟩

/-- A breakpoint in line 3 of a source is watched for. -/
def watched : Debuggee :=
  let b : Breakpoint := ⟨1, ⟨sourceX, 3, none⟩, none⟩
  { origin := .attached, book := {}, placer :=
    { index := {}, root := ⟨"/w"⟩, installed := [(sourceX.path, { revision := 1, breakpoints := [b], watches := [5] })],
      watches := [(5, sourceX.path)] } }

/-- The class of the source is prepared, and its thread stands still. -/
def prepared : EventSet := ⟨1, [⟨5, .classPrepare 7 1 10 "LX;" 7⟩]⟩

/-- The class has one method, and the method has code in line 3. -/
def telling (c : Jdwp.Command) : Except Jdwp.Error Jdwp.Reply :=
  let data : Bytes := match c.set, c.number with
    | 2, 5 => Jdwp.Layout.i32 1 ++ Jdwp.Layout.u64 20 ++ Jdwp.Layout.string "m" ++ Jdwp.Layout.string "()V" ++ Jdwp.Layout.i32 0
    | 6, 1 => Jdwp.Layout.u64 0 ++ Jdwp.Layout.u64 9 ++ Jdwp.Layout.i32 1 ++ Jdwp.Layout.u64 4 ++ Jdwp.Layout.i32 3
    | 15, 1 => Jdwp.Layout.i32 6
    | _, _ => []
  .ok ⟨0, 0, data⟩

theorem telling_stillThere (c : Jdwp.Command) : Replies StillThere (.command c) (telling c) := by
  intro e h
  cases h

def script : Script (facing StillThere) EventSet Empty :=
  { replying telling telling_stillThere with outside {x} := nomatch x }

theorem placed_before_run_prepared : ∃ past now, (facing StillThere).Leads (.idle watched ()) past now ∧
    now.busy () = some (prepared, .done false) ∧ (calls past).length = 5 ∧ PlacedFirst prepared past (.done false) := by
  obtain ⟨past, now, hLeads, hCheck⟩ := script.leads_of_check (handling prepared 13) (.idle watched ())
    (fun past now => isDoneWith prepared (now.busy ()) && (calls past).length = 5) (by decide +kernel)
  obtain ⟨hDone, hCalls⟩ := Bool.and_eq_true_iff.mp hCheck
  have hBusy := eq_of_isDoneWith hDone
  refine ⟨past, now, hLeads, hBusy, of_decide_eq_true hCalls, ?_⟩
  exact (placed_before_run (by decide) hLeads hBusy nofun).1 rfl fun _ h => h

end Runs
end JvmDebug.Debuggee
