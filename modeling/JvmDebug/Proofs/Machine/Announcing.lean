import JvmDebug.Proofs.Machine.Following
import JvmDebug.Proofs.Routine.Replay

/-!
# What is announced of a machine

The events of a machine are published in the order in which they come: set by set, and within a set one after the other.
What comes behind the event with which the machine is gone is not published any more. The end is published once, and
behind it nothing.
-/

namespace JvmDebug.Machine
set_option autoImplicit false

open Jdwp (Connection EventSet RequestId LoadedClass)
open Debuggee (Note PumpPhase HandledAll Resumed publications)
open Debuggee.PumpPhase (free)

/-- Events are added to the stream, until it ends. -/
def Streams (c c' : Connection) : Prop :=
  ∃ more, c'.events = c.events ++ more ∧ (c.eventsEnded = true → more = [] ∧ c'.eventsEnded = true)

/-- What others do leaves the end to the pump, and the placer while the pump is there. -/
structure Others (m m' : Machine) : Prop where
  followed : m'.followed = m.followed
  exited : m'.debuggee.exited = m.debuggee.exited
  placer : m.debuggee.placerUser = some .pump →
    m'.debuggee.placerUser = some .pump ∧ m'.debuggee.placer = m.debuggee.placer
  stream : Streams m.connection m'.connection

/-- The pump among others. Its jobs are the sets of events, and the end of them. -/
def pumped : Setting Unit (Option EventSet) Machine World Unit fun _ => Unit where
  takes _ job m r m' := Worker.take m .pump = some (r, m') ∧ job = m.connection.nextEvents.1
  answers _ _ _ _ := True
  keep _ m := m
  outside m _ m' _ := Others m m'

abbrev Past := List (Moment Unit (Option EventSet) Machine World)

/-! ## What has happened -/

def announcedAt (e : Moment Unit (Option EventSet) Machine World) : Option DebugEvent :=
  match e.turn with
  | .goesOn _ _ asked => asked.bind announced?
  | _ => none

/-- What has been published. -/
def announced (past : Past) : List DebugEvent := past.filterMap announcedAt

def arrivedAt (e : Moment Unit (Option EventSet) Machine World) : List EventSet :=
  match e.turn with
  | .outside => added e.before.connection.events e.after.connection.events
  | _ => []

/-- The sets of events that have come. -/
def arrived (past : Past) : List EventSet := past.flatMap arrivedAt

/-- The pump has marked a breakpoint, and nothing else since. -/
def JustMarked (id : Int) (past : Past) : Prop :=
  ∃ before e since, past = before ++ e :: since ∧ e.turn.worker? = some () ∧
    e.after.debuggee.book = e.before.debuggee.book.markVerified id ∧ ∀ x ∈ since, x.turn.worker? = none

/-- The pump came to the placer when it was like this, and is still there. -/
def AtWork (placer : Placer) (past : Past) : Prop :=
  ∃ before e since, past = before ++ e :: since ∧ e.before.debuggee.placerUser = none ∧
    e.before.debuggee.placer = placer ∧ ∀ x ∈ e :: since, x.after.debuggee.placerUser = some .pump

/-- The pump was at the placer once, and found it as in `before` and left it as in `after`. -/
def WasAtWork (before after : Placer) (past : Past) : Prop :=
  ∃ first e since, past = first ++ e :: since ∧ AtWork before first ∧ e.before.debuggee.placer = after ∧
    e.after.debuggee.placerUser = none

variable {past : Past} {e : Moment Unit (Option EventSet) Machine World} {id : Int} {before after placer : Placer}
  {job : Option EventSet}

theorem announced_snoc : announced (past ++ [e]) = announced past ++ (announcedAt e).toList := by
  rw [announced, List.filterMap_append]
  cases h : announcedAt e <;> simp [announced, h]

theorem arrived_snoc : arrived (past ++ [e]) = arrived past ++ arrivedAt e := by
  rw [arrived, List.flatMap_append]
  simp [arrived]

theorem JustMarked.snoc (h : JustMarked id past) (he : e.turn.worker? = none) : JustMarked id (past ++ [e]) := by
  obtain ⟨first, x, since, rfl, hWorker, hMark, hSince⟩ := h
  refine ⟨first, x, since ++ [e], by simp, hWorker, hMark, fun y hy => ?_⟩
  rcases List.mem_append.mp hy with hy | hy
  · exact hSince y hy
  · rwa [List.mem_singleton.mp hy]

theorem AtWork.snoc (h : AtWork placer past) (he : e.after.debuggee.placerUser = some .pump) :
    AtWork placer (past ++ [e]) := by
  obtain ⟨first, x, since, rfl, hFree, hPlacer, hSince⟩ := h
  refine ⟨first, x, since ++ [e], by simp, hFree, hPlacer, fun y hy => ?_⟩
  rw [← List.cons_append] at hy
  rcases List.mem_append.mp hy with hy | hy
  · exact hSince y hy
  · rwa [List.mem_singleton.mp hy]

theorem WasAtWork.snoc (h : WasAtWork before after past) : WasAtWork before after (past ++ [e]) := by
  obtain ⟨first, x, since, rfl, hRest⟩ := h
  exact ⟨first, x, since ++ [e], by simp, hRest⟩

/-- Each breakpoint that was published had just been marked. -/
def Marked (past : Past) : Prop :=
  ∀ first e since id line, past = first ++ e :: since → announcedAt e = some (.breakpointResolved id line) →
    JustMarked id first

theorem Marked.snoc (h : Marked past)
    (he : ∀ id line, announcedAt e = some (.breakpointResolved id line) → JustMarked id past) : Marked (past ++ [e]) := by
  intro first x since id line hEq hx
  rcases snoc_eq_cut.mp hEq with ⟨rfl, rfl, -⟩ | ⟨others, rfl, rfl⟩
  · exact he id line hx
  · exact h first x others id line rfl hx

theorem Marked.silent (h : Marked past) (he : announcedAt e = none) : Marked (past ++ [e]) :=
  h.snoc fun id line hSome => by
    rw [he] at hSome
    cases hSome

/-! ## The course of the pump -/

/-- What the pump has in hand is as it has become. -/
def Has (hand : Debuggee.InHand) (past : Past) (d : Debuggee) : Prop :=
  match hand with
  | .owes _ => True
  | .marked id _ _ => JustMarked id past
  | .holds before now => d.placerUser = some .pump ∧ d.placer = now ∧ AtWork before past

theorem has_of_moves {errors : Jdwp.Error → Prop} {g g' : PumpPhase} {d d' : Debuggee}
    {asked : Option (Asked Debuggee.World)} (h : PumpPhase.Moves errors g asked d d' g') (hHas : Has g.hand past d)
    (hBefore : e.before.debuggee = d) (hAfter : e.after.debuggee = d') (hTurn : e.turn.worker? = some ()) :
    Has g'.hand (past ++ [e]) d' := by
  cases h with
  | aside | asks | publishes | leaves | resolves => trivial
  | takes hFree =>
    have hUser : e.before.debuggee.placerUser = none := (congrArg Debuggee.placerUser hBefore).trans hFree
    have hPlacer : e.before.debuggee.placer = d.placer := congrArg Debuggee.placer hBefore
    refine ⟨rfl, rfl, past, e, [], rfl, hUser, hPlacer, fun x hx => ?_⟩
    rw [List.mem_singleton.mp hx, hAfter]
  | places p => exact ⟨hHas.1, rfl, hHas.2.2.snoc (by rw [hAfter]; exact hHas.1)⟩
  | asksThere => exact ⟨hHas.1, hHas.2.1, hHas.2.2.snoc (by rw [hAfter]; exact hHas.1)⟩
  | @marks _ _ id =>
    have hBook : e.after.debuggee.book = e.before.debuggee.book.markVerified id := by rw [hBefore, hAfter]
    exact ⟨past, e, [], rfl, hTurn, hBook, List.forall_mem_nil _⟩

theorem exited_of_moves {errors : Jdwp.Error → Prop} {g g' : PumpPhase} {d d' : Debuggee}
    {asked : Option (Asked Debuggee.World)} (h : PumpPhase.Moves errors g asked d d' g') : d'.exited = d.exited := by
  cases h with
  | aside hAside =>
    obtain ⟨_, _, _, rfl⟩ := hAside
    rfl
  | _ => rfl

/-- What is logged of the placer is what the pump made of it. -/
theorem prepared_of_moves {errors : Jdwp.Error → Prop} {g g' : PumpPhase} {d d' : Debuggee}
    {asked : Option (Asked Debuggee.World)} {request : RequestId} {c : LoadedClass}
    {outcome : Except Error (List (Int × UInt32))} (h : PumpPhase.Moves errors g asked d d' g') (hHas : Has g.hand past d)
    (hBefore : e.before.debuggee = d) (hAfter : e.after.debuggee = d')
    (hNote : Note.prepared request c before after outcome ∈ g'.log) :
    Note.prepared request c before after outcome ∈ g.log ∨ WasAtWork before after (past ++ [e]) := by
  have hOther : ∀ {log : List Note} {x : Asked Debuggee.World},
      Note.prepared request c before after outcome ∈ log ++ [.asked x] →
      Note.prepared request c before after outcome ∈ log := by
    intro log x hx
    rcases List.mem_append.mp hx with hx | hx
    · exact hx
    · cases List.mem_singleton.mp hx
  cases h with
  | aside | takes | places | marks => exact .inl hNote
  | asks | publishes | asksThere | resolves => exact .inl (hOther hNote)
  | leaves =>
    rcases List.mem_append.mp hNote with hNote | hNote
    · exact .inl hNote
    · cases List.mem_singleton.mp hNote
      refine .inr ⟨past, e, [], rfl, hHas.2.2, ?_, by rw [hAfter]⟩
      rw [hBefore]
      exact hHas.2.1

namespace Stage

/-- What is known in a stage of the past and of the machine. -/
def Holds (s : Stage) (past : Past) (m : Machine) : Prop :=
  match s with
  | .handles phase => m.followed = true ∧ m.debuggee.exited = false ∧ Has phase.hand past m.debuggee
  | .ends _ ending => m.followed = false ∧ (ending = .unfollowed → m.debuggee.exited = false)

variable {s s' : Stage} {m m' : Machine} {asked : Option (Asked World)}

theorem Holds.fits (h : s.Holds past m) : s.fits m := by
  cases s with
  | handles phase =>
    obtain ⟨log, hand⟩ := phase
    cases hand with
    | holds before now => exact h.2.2.2.1
    | _ => trivial
  | ends log ending =>
    cases ending with
    | unfollowed => exact h.2 rfl
    | _ => trivial

/-- Others leave true what the pump knows. -/
theorem Holds.outside {m' : Machine} (h : s.Holds past m) (hOthers : Others m m') :
    s.Holds (past ++ [⟨.outside, m, m'⟩]) m' := by
  cases s with
  | handles phase =>
    obtain ⟨log, hand⟩ := phase
    refine ⟨hOthers.followed.trans h.1, hOthers.exited.trans h.2.1, ?_⟩
    cases hand with
    | owes => trivial
    | marked => exact JustMarked.snoc h.2.2 rfl
    | holds before now =>
      obtain ⟨hUser, hPlacer, hAtWork⟩ := h.2.2
      obtain ⟨hUser', hPlacer'⟩ := hOthers.placer hUser
      exact ⟨hUser', hPlacer'.trans hPlacer, hAtWork.snoc hUser'⟩
  | ends log ending => exact ⟨hOthers.followed.trans h.1, fun hEnding => hOthers.exited.trans (h.2 hEnding)⟩

theorem Holds.done {job : Option EventSet} (h : s.Holds past m) (hCompletes : Completes job s) :
    s.Holds (past ++ [⟨.isDone () job, m, m⟩]) m := by
  cases hCompletes with
  | handled => exact ⟨h.1, h.2.1, trivial⟩
  | gone => exact h
  | ended => exact h

theorem Moves.holds (h : Moves s asked m m' s') (hHolds : s.Holds past m) :
    s'.Holds (past ++ [⟨.goesOn () job asked, m, m'⟩]) m' := by
  cases h with
  | @traffic g _ c hWaits _ =>
    refine ⟨hHolds.1, hHolds.2.1, ?_⟩
    obtain ⟨log, hand⟩ := g
    cases hand with
    | owes => trivial
    | marked => exact hWaits.elim
    | holds before now =>
      obtain ⟨hUser, hPlacer, hAtWork⟩ := hHolds.2.2
      exact ⟨hUser, hPlacer, hAtWork.snoc hUser⟩
  | replied _ hMoves => exact ⟨hHolds.1, hHolds.2.1, has_of_moves hMoves hHolds.2.2 rfl rfl rfl⟩
  | changes hMoves =>
    exact ⟨hHolds.1, (exited_of_moves hMoves).trans hHolds.2.1, has_of_moves hMoves hHolds.2.2 rfl rfl rfl⟩
  | publishes hMoves => exact ⟨hHolds.1, hHolds.2.1, has_of_moves hMoves hHolds.2.2 rfl rfl rfl⟩
  | unfollows => exact ⟨rfl, fun _ => hHolds.2.1⟩
  | exits => exact ⟨hHolds.1, nofun⟩
  | tidies hOther _ => exact ⟨hHolds.1, fun hEnding => (hOther hEnding).elim⟩
  | asksCode => exact ⟨hHolds.1, nofun⟩
  | announces => exact ⟨hHolds.1, nofun⟩

/-- A breakpoint is published when it has just been marked. -/
theorem Moves.marked {line : UInt32} (h : Moves s asked m m' s') (hHolds : s.Holds past m)
    (hAsked : asked.bind announced? = some (.breakpointResolved id line)) : JustMarked id past := by
  cases h with
  | publishes hMoves =>
    cases hMoves with
    | publishes hOther =>
      cases hAsked
      exact (hOther id line rfl).elim
    | resolves =>
      cases hAsked
      exact hHolds.2.2
  | announces => cases hAsked
  | _ => cases hAsked

theorem Moves.prepared {request : RequestId} {c : LoadedClass} {outcome : Except Error (List (Int × UInt32))}
    (h : Moves s asked m m' s') (hHolds : s.Holds past m)
    (hNote : Note.prepared request c before after outcome ∈ s'.log) :
    Note.prepared request c before after outcome ∈ s.log ∨
      WasAtWork before after (past ++ [⟨.goesOn () job asked, m, m'⟩]) := by
  cases h with
  | replied _ hMoves => exact prepared_of_moves hMoves hHolds.2.2 rfl rfl hNote
  | changes hMoves => exact prepared_of_moves hMoves hHolds.2.2 rfl rfl hNote
  | publishes hMoves => exact prepared_of_moves hMoves hHolds.2.2 rfl rfl hNote
  | _ => exact .inl hNote

/-- The pump takes nothing from the stream, as long as it follows it. -/
theorem Moves.stream (h : Moves s asked m m' s') : m'.connection.eventsEnded = m.connection.eventsEnded ∧
    (m'.followed = true → s.Holds past m → m.followed = true ∧ m'.connection.events = m.connection.events) := by
  cases h with
  | traffic _ hSame => exact ⟨hSame.2, fun _ hHolds => ⟨hHolds.1, hSame.1⟩⟩
  | replied hSame _ => exact ⟨hSame.2, fun _ hHolds => ⟨hHolds.1, hSame.1⟩⟩
  | tidies hOther hEnded =>
    refine ⟨hEnded, fun hFollowed hHolds => ?_⟩
    rw [hHolds.1] at hFollowed
    cases hFollowed
  | unfollows => exact ⟨rfl, nofun⟩
  | _ => exact ⟨rfl, fun hFollowed _ => ⟨hFollowed, rfl⟩⟩

end Stage

/-- A set of events, and what was done for it. -/
structure Chapter where
  set : EventSet
  did : List Note

/-- The chapters that are closed, and the job that was taken up last. -/
structure Course where
  told : List Chapter
  job : Option (Option EventSet)

def Course.sets (x : Course) : List EventSet := x.told.map Chapter.set ++ x.job.join.toList

/-- A set is handled; `gone` says whether the machine was gone with it. -/
def Chapter.Handled (c : Chapter) (gone : Bool) : Prop :=
  ∃ did tail, c.did = did ++ tail ∧ HandledAll AnyReply c.set.events gone did ∧ Resumed c.set gone tail

theorem take_pump {m m' : Machine} {r : Activity Unit} (h : Worker.take m .pump = some (r, m')) :
    m.followed = true ∧
      ((∃ s rest, m.connection.events = s :: rest ∧ r = Machine.pump s ∧
          m' = { m with connection := { m.connection with events := rest } }) ∨
        m.connection.events = [] ∧ m.connection.eventsEnded = true ∧ r = endPump ∧ m' = m) := by
  change Worker.takePump m = some (r, m') at h
  unfold Worker.takePump at h
  split at h
  · next hReady =>
    obtain ⟨hFollowed, hHas⟩ := Bool.and_eq_true_iff.mp hReady
    refine ⟨hFollowed, ?_⟩
    cases hEvents : m.connection.events with
    | nil =>
      have hEnded : m.connection.eventsEnded = true := by simpa [Connection.hasEvents, hEvents] using hHas
      simp only [Connection.nextEvents, hEvents, List.head?_nil] at h
      cases h
      exact .inr ⟨rfl, hEnded, rfl, rfl⟩
    | cons s rest =>
      simp only [Connection.nextEvents, hEvents, List.head?_cons, List.tail_cons] at h
      cases h
      exact .inl ⟨s, rest, rfl, rfl, rfl⟩
  · cases h

namespace Announcing

def concert : Concert pumped fun _ => Course × Stage where
  phases _ := following.beside Course
  home _ y :=
    match y.1.job with
    | none => y.2 = .handles (free [])
    | some job => Completes job y.2
  post _ job _ y := y.1.job = some job ∧ Completes job y.2

structure Holds (start : Machine) (y : Course × Stage) (past : Past) (m : Machine) : Prop where
  stage : y.2.Holds past m
  whole : ∀ c ∈ y.1.told, c.Handled false
  announced : announced past = y.1.told.flatMap (fun c => publications c.did) ++ y.2.publications
  marked : Marked past
  placed : ∀ request c before after outcome,
    Note.prepared request c before after outcome ∈ y.1.told.flatMap Chapter.did ++ y.2.log → WasAtWork before after past
  stream : ∃ rest, start.connection.events ++ arrived past = y.1.sets ++ rest ∧
    (m.followed = true → rest = m.connection.events) ∧
    (y.1.job = some none → rest = [] ∧ m.connection.eventsEnded = true)

variable {start m : Machine} {x : Course} {s : Stage}

/-- The last set makes a chapter when the next job is taken up. -/
theorem Holds.turns (h : Holds start (x, s) past m) (hHome : concert.home () (x, s)) (hFollowed : m.followed = true) :
    ∃ told, Holds start (⟨told, none⟩, .handles (free [])) past m := by
  obtain ⟨told, _ | job⟩ := x
  · obtain rfl : s = .handles (free []) := hHome
    exact ⟨told, h⟩
  · have hNot : ∀ {log ending}, s ≠ .ends log ending := by
      rintro log ending rfl
      have hStage := h.stage.1
      rw [hFollowed] at hStage
      cases hStage
    have hCompletes : Completes job s := hHome
    cases hCompletes with
    | gone => exact (hNot rfl).elim
    | ended => exact (hNot rfl).elim
    | @handled set did tail hHandled hResumed =>
      obtain ⟨rest, hStream, hRest, -⟩ := h.stream
      refine ⟨told ++ [⟨set, did ++ tail⟩], ⟨h.stage.1, h.stage.2.1, trivial⟩, ?_, ?_, h.marked, ?_, ?_⟩
      · intro c hc
        rcases List.mem_append.mp hc with hc | hc
        · exact h.whole c hc
        · rw [List.mem_singleton.mp hc]
          exact ⟨did, tail, rfl, hHandled, hResumed⟩
      · rw [h.announced]
        simp [Stage.publications, publications, free]
      · intro request c before after outcome hNote
        exact h.placed request c before after outcome (by simpa [Stage.log, free] using hNote)
      · exact ⟨rest, by simpa [Course.sets] using hStream, hRest, by rintro ⟨⟩⟩

/-- Where nothing is announced, what has been announced and found stays. -/
theorem Holds.silent {x' : Course} {m' : Machine} (h : Holds start (x, s) past m) (hTold : x'.told = x.told)
    (hSilent : announcedAt e = none) (hStage : s.Holds (past ++ [e]) m')
    (hStream : ∃ rest, start.connection.events ++ arrived (past ++ [e]) = x'.sets ++ rest ∧
      (m'.followed = true → rest = m'.connection.events) ∧
      (x'.job = some none → rest = [] ∧ m'.connection.eventsEnded = true)) :
    Holds start (x', s) (past ++ [e]) m' := by
  obtain ⟨told, job'⟩ := x'
  obtain rfl : told = x.told := hTold
  refine ⟨hStage, h.whole, ?_, h.marked.silent hSilent, fun request c before after outcome hNote => ?_, hStream⟩
  · rw [announced_snoc, h.announced, hSilent]
    exact List.append_nil _
  · exact (h.placed request c before after outcome hNote).snoc

/-- A set is taken from the stream. Where none is left, the end of the stream is taken up. -/
theorem Holds.takesUp {told : List Chapter} {r : Activity Unit} {m' : Machine}
    (h : Holds start (⟨told, none⟩, .handles (free [])) past m) (hTake : Worker.take m .pump = some (r, m'))
    (hJob : job = m.connection.nextEvents.1) :
    r.Passes following (fun _ => Completes job) (.handles (free [])) ∧
      Holds start (⟨told, some job⟩, .handles (free [])) (past ++ [⟨.takesUp () job, m, m'⟩]) m' := by
  obtain ⟨hFollowed, hNext⟩ := take_pump hTake
  obtain ⟨rest, hStream, hRest, -⟩ := h.stream
  obtain rfl := hRest hFollowed
  have hArrived : arrived (past ++ [⟨.takesUp () job, m, m'⟩]) = arrived past := by
    rw [arrived_snoc]
    exact List.append_nil _
  rcases hNext with ⟨set, rest, hEvents, rfl, rfl⟩ | ⟨hEvents, hEnded, rfl, rfl⟩
  · obtain rfl : job = some set := by rw [hJob, Connection.nextEvents, hEvents, List.head?_cons]
    refine ⟨passes_pump set, h.silent rfl rfl ⟨hFollowed, h.stage.2.1, trivial⟩ ⟨rest, ?_, fun _ => rfl, by rintro ⟨⟩⟩⟩
    rw [hArrived, hStream, hEvents]
    simp [Course.sets]
  · obtain rfl : job = none := by rw [hJob, Connection.nextEvents, hEvents, List.head?_nil]
    refine ⟨passes_endPump.mono ?_, h.silent rfl rfl ⟨hFollowed, h.stage.2.1, trivial⟩
      ⟨_, hArrived ▸ hStream, fun _ => rfl, fun _ => ⟨hEvents, hEnded⟩⟩⟩
    rintro _ _ ⟨code, rfl⟩
    exact .ended

theorem Holds.goes {s' : Stage} {asked : Option (Asked World)} {m' : Machine} (h : Holds start (x, s) past m)
    (hMoves : s.Moves asked m m' s') : Holds start (x, s') (past ++ [⟨.goesOn () job asked, m, m'⟩]) m' := by
  obtain ⟨rest, hStream, hRest, hEnded⟩ := h.stream
  obtain ⟨hStays, hFollows⟩ := hMoves.stream
  refine ⟨hMoves.holds h.stage, h.whole, ?_, ?_, ?_, rest, ?_, fun hFollowed => ?_, fun hJob => ?_⟩
  · rw [announced_snoc, h.announced, hMoves.publications, List.append_assoc]
    rfl
  · exact h.marked.snoc fun id line hAsked => hMoves.marked h.stage hAsked
  · intro request c before after outcome hNote
    rcases List.mem_append.mp hNote with hNote | hNote
    · exact (h.placed request c before after outcome (List.mem_append_left _ hNote)).snoc
    · rcases hMoves.prepared h.stage hNote with hNote | hWas
      · exact (h.placed request c before after outcome (List.mem_append_right _ hNote)).snoc
      · exact hWas
  · rw [arrived_snoc]
    exact (congrArg _ (List.append_nil _)).trans hStream
  · obtain ⟨hBefore, hSame⟩ := hFollows hFollowed h.stage
    exact (hRest hBefore).trans hSame.symm
  · exact ⟨(hEnded hJob).1, hStays.trans (hEnded hJob).2⟩

theorem Holds.done (h : Holds start (x, s) past m) (hCompletes : Completes job s) :
    Holds start (x, s) (past ++ [⟨.isDone () job, m, m⟩]) m := by
  obtain ⟨rest, hStream, hRest⟩ := h.stream
  refine h.silent rfl rfl (h.stage.done hCompletes) ⟨rest, ?_, hRest⟩
  rw [arrived_snoc]
  exact (congrArg _ (List.append_nil _)).trans hStream

theorem Holds.outside {m' : Machine} (h : Holds start (x, s) past m) (hOthers : Others m m') :
    Holds start (x, s) (past ++ [⟨.outside, m, m'⟩]) m' := by
  obtain ⟨rest, hStream, hRest, hEnded⟩ := h.stream
  obtain ⟨more, hMore, hLate⟩ := hOthers.stream
  refine h.silent rfl rfl (h.stage.outside hOthers) ⟨rest ++ more, ?_, fun hFollowed => ?_, fun hJob => ?_⟩
  · rw [arrived_snoc, ← List.append_assoc, hStream, List.append_assoc]
    simp [arrivedAt, hMore, added_append]
  · rw [hMore, hRest (hOthers.followed ▸ hFollowed)]
  · obtain ⟨hNone, hOver⟩ := hEnded hJob
    -- Nothing comes behind the end.
    obtain ⟨rfl, hStill⟩ := hLate hOver
    exact ⟨by rw [hNone, List.append_nil], hStill⟩

theorem home_of_completes {y : Course × Stage} (hJob : y.1.job = some job) (hCompletes : Completes job y.2) :
    concert.home () y := by
  obtain ⟨⟨told, _⟩, s⟩ := y
  obtain rfl := hJob
  exact hCompletes

theorem keeps : concert.Keeps (fun _ _ => True) fun φ => Holds start (φ ()) where
  keep _ := rfl
  answered _ _ _ _ _ _ := trivial
  fits _ h := h.stage.fits
  takes := by
    rintro φ past m ⟨⟩ job r m' hHolds hHome ⟨hTake, hJob⟩ -
    obtain ⟨told, hTold⟩ := hHolds.turns hHome (take_pump hTake).1
    obtain ⟨hPasses, hTaken⟩ := hTold.takesUp hTake hJob
    refine ⟨(⟨told, some job⟩, .handles (free [])), ?_⟩
    rw [Function.update_self]
    refine ⟨(hPasses.beside (⟨told, some job⟩ : Course)).mono ?_, hTaken⟩
    rintro _ ⟨_, _⟩ ⟨rfl, hCompletes⟩
    exact ⟨rfl, hCompletes⟩
  goes := by
    rintro φ past m ⟨⟩ job asked m' ⟨x, s'⟩ hHolds ⟨rfl, hMoves⟩ -
    rw [Function.update_self]
    exact hHolds.goes hMoves
  done := by
    rintro φ past m ⟨⟩ job a hHolds ⟨hJob, hCompletes⟩
    exact ⟨home_of_completes hJob hCompletes, hHolds.done hCompletes⟩
  outside := by
    rintro φ past m ⟨⟩ m' ⟨⟩ hHolds hOthers
    exact hHolds.outside hOthers

end Announcing

/-! ## The story of a machine -/

variable {start m : Machine} {now : Scene Unit (Option EventSet) Machine World Unit fun _ => Unit}

/-- What is told of a machine, once its pump is free: the sets `told`, and then `last`, with which it was gone. -/
structure Story (start : Machine) (past : Past) (now : Machine) (told : List Chapter) (last : Option Chapter) : Prop where
  goesOn : ∀ c ∈ told, c.Handled false
  ends : ∀ c ∈ last, c.Handled true
  /-- The sets are handled in the order in which they come, and all of them unless the machine is gone before. -/
  order : ∃ rest, start.connection.events ++ arrived past = (told ++ last.toList).map Chapter.set ++ rest ∧
    (now.followed = false → last = none → rest = [])
  /-- Events are told of in the order in which they stand in a set, up to the one with which the machine is gone. -/
  translated : ∀ c ∈ told ++ last.toList, ∃ handled rest parts, c.set.events = handled ++ rest ∧
    publications c.did = parts.flatMap publications ∧ List.Forall₂ (Debuggee.Translates AnyReply) handled parts ∧
    (c ∈ told → rest = [])
  placed : ∀ c ∈ told ++ last.toList, ∀ request loaded before after outcome,
    Note.prepared request loaded before after outcome ∈ c.did → WasAtWork before after past
  marked : Marked past
  /-- The end is published behind everything else. -/
  published : if now.followed then last = none ∧ announced past = told.flatMap fun c => publications c.did
    else ∃ code, announced past = ((told ++ last.toList).flatMap fun c => publications c.did) ++ [.exited code]
  once : ∀ c ∈ told ++ last.toList, ∀ code, DebugEvent.exited code ∉ publications c.did

theorem Chapter.Handled.translated {c : Chapter} {gone : Bool} (h : c.Handled gone) :
    ∃ handled rest parts, c.set.events = handled ++ rest ∧ publications c.did = parts.flatMap publications ∧
      List.Forall₂ (Debuggee.Translates AnyReply) handled parts ∧ (gone = false → rest = []) := by
  obtain ⟨did, tail, hDid, hHandled, hResumed⟩ := h
  obtain ⟨handled, rest, parts, hEvents, rfl, hParts, hRest⟩ := hHandled.translates
  refine ⟨handled, rest, parts, hEvents, ?_, hParts, hRest⟩
  rw [hDid, Debuggee.publications_append, hResumed.publications, List.append_nil, Debuggee.publications_flatten]

theorem Chapter.Handled.once {c : Chapter} {gone : Bool} (h : c.Handled gone) (code : Option Int32) :
    DebugEvent.exited code ∉ publications c.did := by
  obtain ⟨handled, rest, parts, -, hDid, hParts, -⟩ := h.translated
  rw [hDid]
  clear hDid
  induction hParts with
  | nil => exact List.not_mem_nil
  | cons hTranslates _ ih =>
    rw [List.flatMap_cons, List.mem_append]
    exact not_or.mpr ⟨hTranslates.not_exited code, ih⟩

variable {told : List Chapter} {last : Option Chapter}

/-- It is enough to know how the sets were handled. -/
theorem Story.of (hGoesOn : ∀ c ∈ told, c.Handled false) (hEnds : ∀ c ∈ last, c.Handled true)
    (hOrder : ∃ rest, start.connection.events ++ arrived past = (told ++ last.toList).map Chapter.set ++ rest ∧
      (m.followed = false → last = none → rest = []))
    (hPlaced : ∀ request c before after outcome,
      Note.prepared request c before after outcome ∈ (told ++ last.toList).flatMap Chapter.did →
        WasAtWork before after past)
    (hMarked : Marked past)
    (hPublished : if m.followed then last = none ∧ announced past = told.flatMap fun c => publications c.did
      else ∃ code, announced past = ((told ++ last.toList).flatMap fun c => publications c.did) ++ [.exited code]) :
    Story start past m told last := by
  have hHandled : ∀ c ∈ told ++ last.toList, ∃ gone, c.Handled gone ∧ (c ∈ told → gone = false) := by
    intro c hc
    by_cases hTold : c ∈ told
    · exact ⟨false, hGoesOn c hTold, fun _ => rfl⟩
    · have hLast : c ∈ last := by simpa [hTold] using hc
      exact ⟨true, hEnds c hLast, fun h => (hTold h).elim⟩
  refine ⟨hGoesOn, hEnds, hOrder, fun c hc => ?_, fun c hc request loaded before after outcome hNote => ?_, hMarked,
    hPublished, fun c hc => ?_⟩
  · obtain ⟨gone, hGone, hFalse⟩ := hHandled c hc
    obtain ⟨handled, rest, parts, hEvents, hParts, hAll, hRest⟩ := hGone.translated
    exact ⟨handled, rest, parts, hEvents, hParts, hAll, fun hTold => hRest (hFalse hTold)⟩
  · exact hPlaced request loaded before after outcome (List.mem_flatMap.mpr ⟨c, hc, hNote⟩)
  · obtain ⟨gone, hGone, -⟩ := hHandled c hc
    exact hGone.once

/-- A pump that is free and has nothing to take up has come to the end of the events. -/
theorem unfollowed_of_rest (hEnded : m.connection.eventsEnded = true) (hNothing : Worker.take m .pump = none) :
    m.followed = false := by
  by_contra hFollowed
  have hReady : (m.followed && m.connection.hasEvents) = true := by simpa [Connection.hasEvents, hEnded] using hFollowed
  change Worker.takePump m = none at hNothing
  rw [Worker.takePump, if_pos hReady] at hNothing
  cases hNext : m.connection.nextEvents with
  | mk next c =>
    rw [hNext] at hNothing
    cases next <;> cases hNothing

namespace Announcing

/-- As long as the pump follows, nothing is told of an end. -/
theorem Holds.story_of_followed {y : Course × Stage} (h : Holds start y past m) (hHome : concert.home () y)
    (hFollowed : m.followed = true) : ∃ told, Story start past m told none := by
  obtain ⟨told, hTold⟩ := h.turns hHome hFollowed
  obtain ⟨rest, hStream, -, -⟩ := hTold.stream
  refine ⟨told, .of hTold.whole (by rintro _ ⟨⟩) ⟨rest, ?_, ?_⟩ ?_ hTold.marked ?_⟩
  · simpa [Course.sets] using hStream
  · rw [hFollowed]
    rintro ⟨⟩
  · simpa [Stage.log, free] using hTold.placed
  · rw [if_pos hFollowed, hTold.announced]
    simp [Stage.publications, publications, free]

/-- A pump that is free and follows no longer has published the end, with the set that it handled last or by itself. -/
theorem Holds.story_of_unfollowed {x : Course} {s : Stage} (h : Holds start (x, s) past m)
    (hHome : concert.home () (x, s)) (hUnfollowed : m.followed = false) :
    ∃ told last, Story start past m told last := by
  have hNot : ∀ {phase}, s ≠ .handles phase := by
    rintro phase rfl
    have hStage := h.stage.1
    rw [hUnfollowed] at hStage
    cases hStage
  obtain ⟨rest, hStream, -, hEnded⟩ := h.stream
  obtain ⟨told, _ | job⟩ := x
  · exact (hNot hHome).elim
  have hCompletes : Completes job s := hHome
  cases hCompletes with
  | handled => exact (hNot rfl).elim
  | @gone set did code hHandled =>
    refine ⟨told, some ⟨set, did⟩, .of h.whole ?_ ⟨rest, ?_, by rintro _ ⟨⟩⟩ ?_ h.marked ?_⟩
    · rintro c ⟨⟩
      exact ⟨did, [], (List.append_nil _).symm, hHandled, .gone⟩
    · simpa [Course.sets] using hStream
    · simpa [Stage.log] using h.placed
    · rw [if_neg (by simp [hUnfollowed]), h.announced]
      exact ⟨code, by simp [Stage.publications]⟩
  | @ended code =>
    obtain ⟨rfl, -⟩ := hEnded rfl
    refine ⟨told, none, .of h.whole (by rintro _ ⟨⟩) ⟨[], ?_, fun _ _ => rfl⟩ ?_ h.marked ?_⟩
    · simpa [Course.sets] using hStream
    · simpa [Stage.log] using h.placed
    · rw [if_neg (by simp [hUnfollowed]), h.announced]
      exact ⟨code, by simp [Stage.publications, publications]⟩

end Announcing

theorem announces_in_order (hLeads : pumped.Leads (.idle start ()) past now) (hFollowed : start.followed = true)
    (hExited : start.debuggee.exited = false) (hFree : now.busy () = none) :
    (∃ told last, Story start past now.state told last) ∧
      (now.state.connection.eventsEnded = true → Worker.take now.state .pump = none → now.state.followed = false) := by
  refine ⟨?_, unfollowed_of_rest⟩
  have hStart : Announcing.Holds start (⟨[], none⟩, .handles (free [])) [] start :=
    ⟨⟨hFollowed, hExited, trivial⟩, List.forall_mem_nil _, rfl, by simp [Marked], by simp [Stage.log, free], _,
      List.append_nil _, fun _ => rfl, by simp⟩
  have hHome : Announcing.concert.home () (⟨[], none⟩, .handles (free [])) := rfl
  obtain ⟨φ, hPlays, hHolds⟩ := hLeads.plays Announcing.keeps (fun _ => rfl) (fun _ => hHome) hStart
  have hHome := hPlays ()
  rw [Concert.Plays, hFree] at hHome
  cases hNow : now.state.followed with
  | true =>
    obtain ⟨told, hStory⟩ := hHolds.story_of_followed hHome hNow
    exact ⟨told, none, hStory⟩
  | false => exact hHolds.story_of_unfollowed hHome hNow

/-! A machine that is gone in the middle of a set -/

/-- A machine that is gone with the second of three sets. -/
def short : Machine where
  debuggee := { origin := .attached, book := {}, placer := { index := {}, root := ⟨"/w"⟩ } }
  connection :=
    { events := [⟨0, [⟨1, .threadStart 1⟩]⟩, ⟨0, [⟨2, .vmDeath⟩, ⟨1, .threadStart 2⟩]⟩, ⟨0, [⟨1, .threadDeath 1⟩]⟩]
      eventsEnded := true }
  followed := true

/-- All calls succeed, and nothing comes from outside. -/
def undisturbed : Script pumped Unit Empty where
  take? _ _ m := (Worker.take m .pump).map fun x => (m.connection.nextEvents.1, x)
  answer?
    | (), .write _ => some (.ok (), ())
    | (), .publish _ => some ((), ())
    | (), .exitCode => some (none, ())
    | (), .kill => some (.ok (), ())
  come? := nofun
  takes h := by
    obtain ⟨⟨_, _⟩, hTake, hEq⟩ := Option.map_eq_some_iff.mp h
    cases hEq
    exact ⟨hTake, rfl⟩
  answers _ := trivial
  outside {x} := nomatch x

def wholeJob (steps : Nat) : List (Cue Unit Unit Empty) :=
  .takesUp () () :: List.replicate steps (.goesOn ()) ++ [.isDone ()]

theorem announces_in_order_short : ∃ past now, pumped.Leads (.idle short ()) past now ∧ now.busy () = none ∧
    announced past = [.threadChanged 1 .started, .exited none] ∧
    (∃ told last, Story short past now.state told last) ∧ now.state.followed = false := by
  obtain ⟨past, now, hLeads, hCheck⟩ := undisturbed.leads_of_check (wholeJob 2 ++ wholeJob 9) (.idle short ())
    (fun past now => (now.busy ()).isNone && (decide (announced past = [.threadChanged 1 .started, .exited none]) &&
      (now.state.connection.eventsEnded && (Worker.take now.state .pump).isNone))) (by decide +kernel)
  simp only [Bool.and_eq_true, Option.isNone_iff_eq_none, decide_eq_true_eq] at hCheck
  obtain ⟨hFree, hAnnounced, hEnded, hNothing⟩ := hCheck
  obtain ⟨hStory, hRest⟩ := announces_in_order hLeads rfl rfl hFree
  exact ⟨past, now, hLeads, hFree, hAnnounced, hStory, hRest hEnded hNothing⟩

end JvmDebug.Machine
