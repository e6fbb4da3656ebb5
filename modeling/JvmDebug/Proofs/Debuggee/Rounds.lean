import JvmDebug.Proofs.Debuggee.Pumping
import JvmDebug.Proofs.Placement.Visiting

/-!
# Rounds of the pump

In a round the pump handles one set of events. Here it is noted what it has asked in the round, which placers it has
found, and whether it has let threads run. It may do so once in a round, and only when each class of the set has been
accounted for: what was asked for its breakpoints is in the log, from the first line table to the last request.
-/

namespace JvmDebug
set_option autoImplicit false

open Jdwp (LoadedClass Location RequestId EventSet Query)
open Backend (History)

namespace Debuggee

def letsRun : Call → Bool
  | .command c => c.letsRun
  | .publish _ | .exitCode | .kill => false

variable {α : Type} {errors : Jdwp.Error → Prop}

/-! ## What is asked for a class -/

/-- Where the line table of a method has a line, if it was told. -/
def locationsOf (c : LoadedClass) (line : UInt32) (m : Jdwp.Method) (reply : Except Jdwp.Error Jdwp.Reply) : List Location :=
  match reply >>= (Query.lineTable c.id m.id).answer with
  | .ok table => (Backend.locationIn? c line m table).toList
  | .error _ => []

/-- The line table of each method is asked for. -/
inductive Tables (c : LoadedClass) (line : UInt32) : List Jdwp.Method → List Location → List (Asked Jdwp.Wire) → Prop where
  | nil : Tables c line [] [] []
  | cons {m : Jdwp.Method} {rest : List Jdwp.Method} {found : List Location} {asked : List (Asked Jdwp.Wire)}
      (reply : Except Jdwp.Error Jdwp.Reply) : Tables c line rest found asked →
      Tables c line (m :: rest) (locationsOf c line m reply ++ found) (⟨(Query.lineTable c.id m.id).command, reply⟩ :: asked)

/-- A line is looked up in a class: its methods are asked for, and then the line tables of all of them. -/
inductive Looks (c : LoadedClass) (line : UInt32) : Except Jdwp.Error (List Location) → List (Asked Jdwp.Wire) → Prop where
  | refused {reply : Except Jdwp.Error Jdwp.Reply} {e : Jdwp.Error} :
      reply >>= (Query.methods c.id).answer = .error e → Looks c line (.error e) [⟨(Query.methods c.id).command, reply⟩]
  | told {reply : Except Jdwp.Error Jdwp.Reply} {methods : List Jdwp.Method} {found : List Location}
      {tables : List (Asked Jdwp.Wire)} : reply >>= (Query.methods c.id).answer = .ok methods →
      Tables c line methods found tables → Looks c line (.ok found) (⟨(Query.methods c.id).command, reply⟩ :: tables)

def IsRequest (l : Location) (x : Asked Jdwp.Wire) : Prop :=
  x.1 = (Query.setRequest (.breakpoint l .eventThread)).command

/-- Breakpoints are placed in a class: the line of each is looked up, and each location that was found is requested. -/
inductive PlacedIn (c : LoadedClass) : List Breakpoint → List (Asked Jdwp.Wire) → Prop where
  | nil : PlacedIn c [] []
  | cons {b : Breakpoint} {rest : List Breakpoint} {found : Except Jdwp.Error (List Location)}
      {looks requests others : List (Asked Jdwp.Wire)} : Looks c b.line found looks →
      List.Forall₂ IsRequest (found.toOption.getD []) requests → PlacedIn c rest others →
      PlacedIn c (b :: rest) (looks ++ (requests ++ others))

/-- By what a call for placing a breakpoint was put to the machine. -/
def PutBy : Backend.Happening → List (Asked Jdwp.Wire) → Prop
  | .answered (.lineLocations c line) found, asked => Looks c line found asked
  | .answered (.setBreakpoint l) _, asked => ∃ x, IsRequest l x ∧ asked = [x]
  | _, _ => True

inductive Put : History → List (Asked Jdwp.Wire) → Prop where
  | nil : Put [] []
  | cons {x : Backend.Happening} {h : History} {asked others : List (Asked Jdwp.Wire)} : PutBy x asked → Put h others →
      Put (x :: h) (asked ++ others)

theorem Put.split {h k : History} {asked : List (Asked Jdwp.Wire)} (hPut : Put (h ++ k) asked) :
    ∃ first second, asked = first ++ second ∧ Put h first ∧ Put k second := by
  induction h generalizing asked with
  | nil => exact ⟨[], asked, rfl, .nil, hPut⟩
  | cons x rest ih =>
    cases hPut with
    | cons hHere hRest =>
      obtain ⟨first, second, rfl, hFirst, hSecond⟩ := ih hRest
      exact ⟨_, second, by rw [List.append_assoc], .cons hHere hFirst, hSecond⟩

theorem Put.requests {locations : List Location} {h : History} {asked : List (Asked Jdwp.Wire)} (hPut : Put h asked)
    (hRequests : Backend.Requests locations h) : List.Forall₂ IsRequest locations asked := by
  induction hRequests generalizing asked with
  | nil =>
    cases hPut
    exact .nil
  | cons hHere _ ih =>
    obtain ⟨a, rfl⟩ := hHere
    cases hPut with
    | cons hPut hRest =>
      obtain ⟨x, hx, rfl⟩ := hPut
      exact .cons hx (ih hRest)

theorem Put.placedIn {c : LoadedClass} {breakpoints : List Breakpoint} {h : History} {asked : List (Asked Jdwp.Wire)}
    (hPut : Put h asked) (hVisits : Backend.Visits c breakpoints h) : PlacedIn c breakpoints asked := by
  induction hVisits generalizing asked with
  | nil =>
    cases hPut
    exact .nil
  | cons hRequests _ ih =>
    cases hPut with
    | cons hLooks hRest =>
      obtain ⟨first, second, rfl, hFirst, hSecond⟩ := hRest.split
      exact .cons hLooks (hFirst.requests hRequests) (ih hSecond)

/-! ## Rounds -/

def onMachine (x : Asked Jdwp.Wire) : Asked World := ⟨.command x.1, x.2⟩

def IsResolved (x : Asked World) : Prop := ∃ id line, x.1 = .publish (.breakpointResolved id line)

/-- What was asked for the classes of some events, by the placer that was found for each of them. -/
inductive PlacedAll : List Jdwp.Event → List Placer → List (Asked World) → Prop where
  | nil : PlacedAll [] [] []
  | cons {r : RequestId} {thread : Jdwp.ThreadId} {tag : UInt8} {c : Jdwp.ClassId} {signature : String} {status : Int32}
      {rest : List Jdwp.Event} {p : Placer} {visits : List Placer} {placed : List (Asked Jdwp.Wire)}
      {resolved did : List (Asked World)} : PlacedIn ⟨tag, c⟩ (p.watchedFor r) placed → (∀ x ∈ resolved, IsResolved x) →
      PlacedAll rest visits did →
      PlacedAll (⟨r, .classPrepare thread tag c signature status⟩ :: rest) (p :: visits)
        (placed.map onMachine ++ resolved ++ did)

structure Round where
  set : EventSet
  /-- What was asked in the round, and the placers that the pump came to. -/
  log : List (Asked World)
  visits : List Placer
  /-- The placer, while the pump is there. -/
  hand : Option Placer
  resumed : Bool

/-- The machine is never said to be gone. -/
def Lasting (errors : Jdwp.Error → Prop) : Prop := ∀ e, errors e → StillThere e

namespace Round

def begun (s : EventSet) : Round := ⟨s, [], [], none, false⟩

def noting (g : Round) (asked : List (Asked World)) : Round := { g with log := g.log ++ asked }

def asking (g : Round) (asked : List (Asked Jdwp.Wire)) : Round := g.noting (asked.map onMachine)

def holding (g : Round) (p : Placer) : Round := { g with hand := some p }

def visiting (g : Round) (p : Placer) : Round := { g with visits := g.visits ++ [p], hand := some p }

def leaving (g : Round) : Round := { g with hand := none }

def resuming (g : Round) (x : Asked World) : Round := { g with log := g.log ++ [x], resumed := true }

/-- What the pump may do, and how its round stands then. -/
inductive Moves (errors : Jdwp.Error → Prop) : Round → Option (Asked World) → Debuggee → Debuggee → Round → Prop where
  | stays {g : Round} {d : Debuggee} : Moves errors g none d d g
  | changes {g : Round} {d d' : Debuggee} : g.hand = none → d'.placerUser = d.placerUser → Moves errors g none d d' g
  | asks {g : Round} {d : Debuggee} {x : Asked World} : g.resumed = false → letsRun x.1 = false →
      Moves errors g (some x) d d (g.noting [x])
  | takes {g : Round} {d : Debuggee} : g.resumed = false → d.placerUser = none →
      Moves errors g none d { d with placerUser := some .pump } (g.visiting d.placer)
  | places {g : Round} {d : Debuggee} (p : Placer) : g.hand = some d.placer →
      Moves errors g none d { d with placer := p } (g.holding p)
  | leaves {g : Round} {d : Debuggee} : Moves errors g none d { d with placerUser := none } g.leaving
  | resumes {g : Round} {d : Debuggee} {q : Query Unit} {reply : Except Jdwp.Error Jdwp.Reply} : g.resumed = false →
      isPrepareSet g.set = true → resumeQuery? g.set = some q →
      (Lasting errors → PlacedAll g.set.events g.visits g.log) →
      Moves errors g (some ⟨.command q.command, reply⟩) d d (g.resuming ⟨.command q.command, reply⟩)

end Round

/-- The rounds of the pump, on a machine that replies with these errors. -/
def rounds (errors : Jdwp.Error → Prop) : Phases Round Debuggee World where
  fits g d := ∀ p ∈ g.hand, d.placer = p
  moves := Round.Moves errors
  waits g := g.hand = none
  answered := Replies errors
  keep _ d := d

variable {g : Round}

@[simp] theorem Round.noting_nil (g : Round) : g.noting [] = g := by simp [noting]

@[simp] theorem Round.noting_noting (g : Round) (first second : List (Asked World)) :
    (g.noting first).noting second = g.noting (first ++ second) := by simp [noting]

@[simp] theorem Round.asking_nil (g : Round) : g.asking [] = g := by simp [asking]

@[simp] theorem Round.asking_asking (g : Round) (first second : List (Asked Jdwp.Wire)) :
    (g.asking first).asking second = g.asking (first ++ second) := by simp [asking]

theorem passes_stay {level : Log.Level} {part : Log.Part} {text : String} :
    (Routine.log level part text : Activity Unit).Passes (rounds errors) (fun _ g' => g' = g) g :=
  fun _ _ => ⟨g, .stays, rfl⟩

/-! ## Asking -/

theorem passes_wire {q : Query α} (hStands : q.command.letsRun = false) (hYet : g.resumed = false) :
    (onWire (Jdwp.ask q)).Passes (rounds errors) (fun a g' => ∃ reply : Except Jdwp.Error Jdwp.Reply,
      a = reply >>= q.answer ∧ g' = g.asking [⟨q.command, reply⟩]) g :=
  fun _ _ reply _ => ⟨_, .asks hYet hStands, reply, rfl, rfl⟩

theorem passes_placed (r : Jdwp.EventRequest) (hYet : g.resumed = false) :
    (onWire (Jdwp.place r)).Passes (rounds errors)
      (fun _ g' => ∃ reply, g' = g.asking [⟨(Query.setRequest r).command, reply⟩]) g := by
  rw [Jdwp.place, onWire_bind]
  refine Routine.Passes.bind ((passes_wire rfl hYet).mono ?_)
  rintro a _ ⟨reply, -, rfl⟩
  cases a with
  | ok id => exact passes_stay.mono fun _ _ hSame => ⟨reply, hSame⟩
  | error e => exact ⟨reply, rfl⟩

theorem passes_locationsIn (c : LoadedClass) (line : UInt32) (methods : List Jdwp.Method) (hYet : g.resumed = false) :
    (onWire (Backend.locationsIn c line methods)).Passes (rounds errors) (fun a g' => ∃ asked, g' = g.asking asked ∧
      (Lasting errors → ∃ found, a = .ok found ∧ Tables c line methods found asked)) g := by
  induction methods generalizing g with
  | nil => exact ⟨[], g.asking_nil.symm, fun _ => ⟨[], rfl, .nil⟩⟩
  | cons m rest ih =>
    rw [Backend.locationsIn, onWire_bind]
    refine Routine.Passes.bind (((passes_wire rfl hYet).and_gives (gives_query (plain_lineTable c.id m.id))).mono ?_)
    rintro a _ ⟨hTells, reply, hAnswer, rfl⟩
    -- The other methods are asked for their tables too, whatever this one has told.
    have hRest : (onWire (Backend.locationsIn c line rest)).Passes (rounds errors) (fun b g' => ∃ asked,
        g' = g.asking (⟨(Query.lineTable c.id m.id).command, reply⟩ :: asked) ∧
          (Lasting errors → ∃ found, b = .ok found ∧ Tables c line rest found asked))
        (g.asking [⟨(Query.lineTable c.id m.id).command, reply⟩]) := by
      refine (ih (g := g.asking _) hYet).mono ?_
      rintro b _ ⟨asked, rfl, hTables⟩
      exact ⟨asked, by simp, hTables⟩
    cases a with
    | ok table =>
      dsimp only
      rw [onWire_bind]
      refine Routine.Passes.bind (hRest.mono ?_)
      rintro b _ ⟨asked, rfl, hTables⟩
      refine ⟨_, rfl, fun hLasting => ?_⟩
      obtain ⟨found, rfl, hAll⟩ := hTables hLasting
      have hHere : locationsOf c line m reply = (Backend.locationIn? c line m table).toList := by
        rw [locationsOf, ← hAnswer]
      exact ⟨_, rfl, hHere ▸ .cons reply hAll⟩
    | error e =>
      dsimp only
      split
      · next hGone =>
        refine ⟨_, rfl, fun hLasting => ?_⟩
        exact absurd hGone (by simp [(hTells.mono hLasting).still_there rfl])
      · refine hRest.mono ?_
        rintro b _ ⟨asked, rfl, hTables⟩
        refine ⟨_, rfl, fun hLasting => ?_⟩
        obtain ⟨found, rfl, hAll⟩ := hTables hLasting
        have hHere : locationsOf c line m reply = [] := by rw [locationsOf, ← hAnswer]
        refine ⟨found, rfl, ?_⟩
        simpa [hHere] using Tables.cons (m := m) reply hAll

theorem passes_serve (c : Backend.Call) (hYet : g.resumed = false) :
    (onWire (Backend.serve c)).Passes (rounds errors) (fun a g' => ∃ asked, g' = g.asking asked ∧
      (Lasting errors → PutBy (.answered c a) asked)) g := by
  cases c with
  | lineLocations c line =>
    rw [Backend.serve, onWire_bind]
    refine Routine.Passes.bind ((passes_wire rfl hYet).mono ?_)
    rintro a _ ⟨reply, hAnswer, rfl⟩
    cases a with
    | error e => exact ⟨_, rfl, fun _ => .refused hAnswer.symm⟩
    | ok methods =>
      refine (passes_locationsIn (g := g.asking _) c line methods hYet).mono ?_
      rintro b _ ⟨asked, rfl, hTables⟩
      refine ⟨⟨(Query.methods c.id).command, reply⟩ :: asked, by simp, fun hLasting => ?_⟩
      obtain ⟨found, rfl, hAll⟩ := hTables hLasting
      exact .told hAnswer.symm hAll
  | setBreakpoint l =>
    refine (passes_placed _ hYet).mono ?_
    rintro _ _ ⟨reply, rfl⟩
    exact ⟨_, rfl, fun _ => ⟨⟨_, reply⟩, rfl, rfl⟩⟩
  | setWatch | setException =>
    refine (passes_placed _ hYet).mono ?_
    rintro _ _ ⟨reply, rfl⟩
    exact ⟨_, rfl, fun _ => trivial⟩
  | loadedClasses name =>
    rw [Backend.serve, onWire_bind]
    refine Routine.Passes.bind ((passes_wire rfl hYet).mono ?_)
    rintro a _ ⟨reply, -, rfl⟩
    exact ⟨_, rfl, fun _ => trivial⟩
  | clearBreakpoint r | clearWatch r | clearException r =>
    refine (passes_wire (q := Query.clearRequest _ r) rfl hYet).mono ?_
    rintro _ _ ⟨reply, -, rfl⟩
    exact ⟨_, rfl, fun _ => trivial⟩

/-- A section on the placer, with what it has asked. -/
theorem passes_section {r : Routine Placer Backend α} (hSteady : r.Unwaiting) (p : Placer) (h : History)
    (hYet : g.resumed = false) :
    ((r.zoom Debuggee.placer fun p d => { d with placer := p }).interpret fun c => onWire (Backend.serve c)).Passes
      (rounds errors) (fun a g' => ∃ asked p' made, g' = (g.asking asked).holding p' ∧
        Routine.Run (Backend.Recording (Backend.Telling errors)) r p h a p' (h ++ made) ∧ (Lasting errors → Put made asked))
      (g.holding p) := by
  -- While the section goes on, the placer in hand is the one that the section has come to.
  induction r generalizing g p h with
  | done a => exact ⟨[], p, [], by rw [Round.asking_nil], by rw [List.append_nil]; exact .done, fun _ => .nil⟩
  | atomic change next ih =>
    intro d hFits
    obtain rfl : d.placer = p := hFits p rfl
    refine ⟨g.holding (change d.placer), .places _ rfl, (ih d.placer (hSteady d.placer) (change d.placer) h hYet).mono ?_⟩
    rintro a g' ⟨asked, p', made, rfl, hRun, hPut⟩
    exact ⟨asked, p', made, rfl, .atomic hRun, hPut⟩
  | wait _ _ _ _ _ => exact hSteady.elim
  | call c next ih =>
    refine Routine.Passes.bind (((passes_serve (g := g.holding p) c hYet).and_gives gives_serve).mono ?_)
    rintro answer _ ⟨hTelling, asked, rfl, hHere⟩
    refine (ih answer (hSteady answer) (g := g.asking asked) p (h ++ [.answered c answer]) hYet).mono ?_
    rintro a g' ⟨others, p', made, rfl, hRun, hPut⟩
    refine ⟨asked ++ others, p', .answered c answer :: made, by rw [Round.asking_asking], ?_, fun hLasting => ?_⟩
    · rw [List.append_assoc] at hRun
      exact .call ⟨hTelling, rfl⟩ hRun
    · exact .cons (hHere hLasting) (hPut hLasting)
  | note record next ih =>
    intro d _
    refine ⟨_, .stays, (ih hSteady p h hYet).mono ?_⟩
    rintro a g' ⟨asked, p', made, rfl, hRun, hPut⟩
    exact ⟨asked, p', made, rfl, .note hRun, hPut⟩

/-! ## One event -/

def Round.after (g : Round) (visits : List Placer) (did : List (Asked World)) : Round :=
  { g with log := g.log ++ did, visits := g.visits ++ visits }

theorem passes_published (found : List (Int × UInt32)) (hHand : g.hand = none) (hYet : g.resumed = false) :
    (publishResolved found).Passes (rounds errors)
      (fun _ g' => ∃ did, (∀ x ∈ did, IsResolved x) ∧ g' = g.noting did) g := by
  induction found generalizing g with
  | nil => exact ⟨[], by simp, g.noting_nil.symm⟩
  | cons x rest ih =>
    obtain ⟨id, line⟩ := x
    intro d _
    refine ⟨g, .changes hHand rfl, fun d _ a _ => ?_⟩
    refine ⟨g.noting [⟨.publish (.breakpointResolved id line), a⟩], .asks hYet rfl, (ih (g := g.noting _) hHand hYet).mono ?_⟩
    rintro _ _ ⟨did, hAll, rfl⟩
    refine ⟨⟨.publish (.breakpointResolved id line), a⟩ :: did, ?_, by rw [Round.noting_noting]; rfl⟩
    rintro x (_ | ⟨_, hx⟩)
    · exact ⟨id, line, rfl⟩
    · exact hAll x hx

theorem recorded_of_lasting {r : RequestId} {c : LoadedClass} {p p' : Placer} {made : History}
    {outcome : Except Error (List (Int × UInt32))} (hLasting : Lasting errors)
    (hRun : Routine.Run (Backend.Recording (Backend.Telling errors)) (Placer.classPrepared r c).run p [] outcome p' made) :
    (∃ found, outcome = .ok found) ∧ Backend.Visits c (p.watchedFor r) made := by
  have hThere : Routine.Run (Backend.Recording Backend.Present) (Placer.classPrepared r c).run p [] outcome p' made := by
    refine hRun.weaken ?_
    rintro _ c a _ ⟨hTelling, rfl⟩
    exact ⟨present_of_telling fun e hRefused => (hTelling e hRefused).imp_left (hLasting e), rfl⟩
  obtain ⟨found, hOk, _, hMade, hVisits⟩ := hThere.satisfies (Placer.classPrepared_visits r c)
  rw [List.nil_append] at hMade
  exact ⟨⟨found, hOk⟩, hMade ▸ hVisits⟩

theorem passes_visit (r : RequestId) (c : LoadedClass) (hHand : g.hand = none) (hYet : g.resumed = false) :
    (classPrepared r c).run.Passes (rounds errors) (fun a g' => ∃ p placed resolved,
      g' = g.after [p] (placed.map onMachine ++ resolved) ∧ (∀ x ∈ resolved, IsResolved x) ∧
        (Lasting errors → a = .ok () ∧ PlacedIn c (p.watchedFor r) placed)) g := by
  refine Attempt.passes_bind (Attempt.passes_lift ⟨hHand, fun d _ => ⟨fun hFree => ?_, nofun⟩⟩)
  refine ⟨g.visiting d.placer, .takes hYet (by simpa using hFree), ?_⟩
  refine Attempt.passes_bind (Attempt.passes_lift ((passes_section (g := { g with visits := g.visits ++ [d.placer] })
    (Placer.classPrepared_unwaiting r c) d.placer [] hYet).mono ?_))
  rintro outcome _ ⟨asked, p', made, rfl, hRun, hPut⟩
  have hPlaced : Lasting errors → (∃ found, outcome = .ok found) ∧ PlacedIn c (d.placer.watchedFor r) asked := by
    intro hLasting
    obtain ⟨hOk, hVisits⟩ := recorded_of_lasting hLasting hRun
    exact ⟨hOk, (hPut hLasting).placedIn hVisits⟩
  refine Attempt.passes_bind (Attempt.passes_lift fun _ _ => ⟨_, .leaves, ?_⟩)
  have hLeft : ∀ did, ((Round.asking { g with visits := g.visits ++ [d.placer] } asked).holding p').leaving.noting did =
      g.after [d.placer] (asked.map onMachine ++ did) := by
    intro did
    simp [Round.asking, Round.noting, Round.holding, Round.leaving, Round.after, hHand]
  cases outcome with
  | error why =>
    refine ⟨d.placer, asked, [], ?_, by simp, fun hLasting => ?_⟩
    · rw [← hLeft, Round.noting_nil]
    · obtain ⟨⟨_, hOk⟩, -⟩ := hPlaced hLasting
      cases hOk
  | ok found =>
    refine Attempt.passes_bind (Attempt.passes_lift ((passes_published found (by rfl) (by exact hYet)).mono ?_))
    rintro _ _ ⟨did, hResolved, rfl⟩
    exact ⟨d.placer, asked, did, hLeft did, hResolved, fun hLasting => ⟨rfl, (hPlaced hLasting).2⟩⟩

/-- Nothing is let run, and nobody comes to the placer or leaves it. -/
def quiet : Bounds Debuggee World := ⟨fun d d' => d'.placerUser = d.placerUser, fun c => letsRun c = false, fun _ d => d⟩

theorem quiet_of_musing {r : Activity α} {post : α → Prop} (h : r.Within musing post) : r.Within quiet post := by
  have hChanges : ∀ d d', musing.changes d d' → quiet.changes d d' := by
    rintro d _ ⟨types, detailField, pendingSteps, rfl⟩
    rfl
  have hCalls : ∀ c, musing.calls c → quiet.calls c := by
    rintro _ ⟨c, rfl, hStands⟩
    exact hStands
  exact h.weaken hChanges hCalls rfl

theorem passes_quiet {r : Activity α} (h : r.Within quiet fun _ => True) (hHand : g.hand = none) (hYet : g.resumed = false) :
    r.Passes (rounds errors) (fun _ g' => ∃ did, g' = g.after [] did) g := by
  refine h.passes_in rfl ?_ ?_ ?_ ⟨[], by simp [Round.after]⟩
  · rintro _ ⟨did, rfl⟩
    exact hHand
  · rintro _ d d' ⟨did, rfl⟩ - hChanges
    exact ⟨_, .changes hHand hChanges, did, rfl⟩
  · rintro _ d c a ⟨did, rfl⟩ - hStands -
    exact ⟨_, .asks hYet hStands, did ++ [⟨c, a⟩], by simp [Round.after, Round.noting]⟩

theorem handle_quiet {e : Jdwp.Event} (hOther : e.happening.isClassPrepare = false) :
    (handle e).run.Within quiet fun _ => True := by
  obtain ⟨r, happening⟩ := e
  refine Attempt.within_then (Attempt.within_lift.mpr ⟨fun _ => rfl, trivial⟩) (fun _ => ?_) fun _ => trivial
  have hPublish : ∀ x : DebugEvent, (ExceptT.run (do ExceptT.lift (publish x); return false : Work Bool)).Within quiet
      fun _ => True := fun x =>
    Attempt.within_then (Attempt.within_lift.mpr ⟨rfl, fun _ => rfl, fun _ => trivial⟩) (fun _ => trivial) fun _ => trivial
  cases happening with
  | breakpoint thread l => exact hPublish (.breakpointHit thread)
  | step thread l =>
    exact Attempt.within_then (quiet_of_musing (within_clearStep thread)) (fun _ => hPublish (.step thread)) fun _ => trivial
  | exception thread l thrown caughtAt =>
    have hDescribe := (inspects_describeException thrown.id caughtAt.isSome).within looking_musing
    exact Attempt.within_then (quiet_of_musing hDescribe) (fun x => hPublish (.exceptionThrown thread x)) fun _ => trivial
  | threadStart thread => exact hPublish (.threadChanged thread .started)
  | threadDeath thread =>
    refine Attempt.within_then (Attempt.within_lift.mpr fun _ => ⟨rfl, trivial⟩) (fun _ => ?_) fun _ => trivial
    exact hPublish (.threadChanged thread .exited)
  | classPrepare => cases hOther
  | vmDeath =>
    exact Attempt.within_then (Attempt.within_lift.mpr ⟨fun _ => rfl, trivial⟩) (fun _ => trivial) fun _ => trivial
  | vmStart | methodEntry | methodExit => trivial

/-- What an event comes to in a round; a class is accounted for on a machine that is there. -/
theorem handle_passes (e : Jdwp.Event) (hHand : g.hand = none) (hYet : g.resumed = false) :
    (handle e).run.Passes (rounds errors) (fun o g' => ∃ visits did, g' = g.after visits did ∧
      (Lasting errors → e.happening.isClassPrepare = true → o = .ok false ∧ PlacedAll [e] visits did)) g := by
  cases hPrepare : e.happening.isClassPrepare with
  | false =>
    refine (passes_quiet (handle_quiet hPrepare) hHand hYet).mono ?_
    rintro o _ ⟨did, rfl⟩
    exact ⟨[], did, rfl, fun _ h => nomatch h⟩
  | true =>
    obtain ⟨r, happening⟩ := e
    cases happening with
    | classPrepare thread tag c signature status =>
      refine Attempt.passes_bind (Attempt.passes_lift (passes_stay.mono ?_))
      rintro _ _ rfl
      refine Attempt.passes_bind (Attempt.passes_lift (passes_stay.mono ?_))
      rintro _ _ rfl
      refine Attempt.passes_bind ((passes_visit r ⟨tag, c⟩ hHand hYet).mono ?_)
      rintro a _ ⟨p, placed, resolved, rfl, hResolved, hPlaced⟩
      cases a with
      | error why =>
        refine ⟨[p], _, rfl, fun hLasting _ => ?_⟩
        cases (hPlaced hLasting).1
      | ok _ =>
        refine ⟨[p], _, rfl, fun hLasting _ => ⟨rfl, ?_⟩⟩
        simpa using PlacedAll.cons (hPlaced hLasting).2 hResolved .nil
    | _ => cases hPrepare

/-! ## A set of events -/

theorem PlacedAll.append {e : Jdwp.Event} {rest : List Jdwp.Event} {visits others : List Placer} {did more : List (Asked World)}
    (hHere : PlacedAll [e] visits did) (hRest : PlacedAll rest others more) :
    PlacedAll (e :: rest) (visits ++ others) (did ++ more) := by
  cases hHere with
  | cons hPlaced hResolved hNil =>
    cases hNil
    simpa using PlacedAll.cons hPlaced hResolved hRest

theorem handleAll_passes (events : List Jdwp.Event) (hHand : g.hand = none) (hYet : g.resumed = false) :
    (handleAll events).Passes (rounds errors) (fun gone g' => ∃ visits did, g' = g.after visits did ∧
      (Lasting errors → events.all (·.happening.isClassPrepare) = true → gone = false ∧ PlacedAll events visits did)) g := by
  induction events generalizing g with
  | nil => exact ⟨[], [], by simp [Round.after], fun _ _ => ⟨rfl, .nil⟩⟩
  | cons e rest ih =>
    refine Routine.Passes.bind ((handle_passes e hHand hYet).mono ?_)
    rintro o _ ⟨visits, did, rfl, hHere⟩
    have hRest : (handleAll rest).Passes (rounds errors) (fun gone g' => ∃ visits did, g' = g.after visits did ∧
        (Lasting errors → (e :: rest).all (·.happening.isClassPrepare) = true →
          gone = false ∧ PlacedAll (e :: rest) visits did)) (g.after visits did) := by
      refine (ih (g := g.after visits did) hHand hYet).mono ?_
      rintro gone _ ⟨others, more, rfl, hOthers⟩
      refine ⟨visits ++ others, did ++ more, by simp [Round.after], fun hLasting hAll => ?_⟩
      obtain ⟨hFirst, hAll⟩ := Bool.and_eq_true_iff.mp hAll
      obtain ⟨hGone, hAccounts⟩ := hOthers hLasting hAll
      exact ⟨hGone, (hHere hLasting hFirst).2.append hAccounts⟩
    -- With classes only, on a machine that is there, each event is handled to its end.
    have hEnds : o ≠ .ok false → Lasting errors → (e :: rest).all (·.happening.isClassPrepare) = true → False :=
      fun hNot hLasting hAll => hNot (hHere hLasting (Bool.and_eq_true_iff.mp hAll).1).1
    match o with
    | .ok false => exact hRest
    | .ok true => exact ⟨visits, did, rfl, fun hLasting hAll => (hEnds nofun hLasting hAll).elim⟩
    | .error why =>
      change Routine.Passes _ _ (if why.isDisconnect = true then return true else _) _
      split
      · exact ⟨visits, did, rfl, fun hLasting hAll => (hEnds nofun hLasting hAll).elim⟩
      · refine Routine.Passes.bind (passes_stay.mono ?_)
        rintro _ _ rfl
        exact hRest

theorem passes_resumed {q : Query Unit} (hYet : g.resumed = false) (hPrepares : isPrepareSet g.set = true)
    (hQuery : resumeQuery? g.set = some q) (hAccounts : Lasting errors → PlacedAll g.set.events g.visits g.log) :
    (query q).run.Passes (rounds errors) (fun _ g' => ∃ reply, g' = g.resuming ⟨.command q.command, reply⟩) g :=
  fun _ _ reply _ => ⟨_, .resumes hYet hPrepares hQuery hAccounts, reply, rfl⟩

structure Round.Over (errors : Jdwp.Error → Prop) (s : EventSet) (gone : Bool) (g : Round) : Prop where
  away : g.hand = none
  done : isPrepareSet s = true → Lasting errors → gone = false ∧ ∃ did tail, g.log = did ++ tail ∧
    PlacedAll s.events g.visits did ∧ tail.map (·.1) = (resumeQuery? s).toList.map fun q => .command q.command

theorem pump_passes (s : EventSet) : (pump s).Passes (rounds errors) (Round.Over errors s) (.begun s) := by
  refine Routine.Passes.bind ((handleAll_passes s.events rfl rfl).mono ?_)
  rintro gone _ ⟨visits, did, rfl, hAll⟩
  cases gone with
  | true =>
    -- The pump only gives up on a machine that is gone, or after an event that is none of a class.
    refine ⟨rfl, fun hPrepares hLasting => ?_⟩
    cases (hAll hLasting hPrepares).1
  | false =>
    change Routine.Passes _ _ (if isPrepareSet s = true then resumeAfterPrepare s >>= _ else _) _
    split
    · next hPrepares =>
      refine Routine.Passes.bind ?_
      unfold resumeAfterPrepare
      split
      · next hNever =>
        refine ⟨rfl, fun _ hLasting => ⟨rfl, did, [], ?_, ?_, ?_⟩⟩
        · simp [Round.after, Round.begun]
        · exact (hAll hLasting hPrepares).2
        · rw [hNever]
          rfl
      · next q hQuery =>
        refine Routine.Passes.bind ((passes_resumed rfl hPrepares hQuery fun hLasting => ?_).mono ?_)
        · simpa [Round.after, Round.begun] using (hAll hLasting hPrepares).2
        rintro answer _ ⟨reply, rfl⟩
        have hOver : Round.Over errors s false
            (((Round.begun s).after visits did).resuming ⟨.command q.command, reply⟩) := by
          refine ⟨rfl, fun _ hLasting => ⟨rfl, did, _, rfl, (hAll hLasting hPrepares).2, ?_⟩⟩
          rw [hQuery]
          rfl
        cases answer with
        | ok _ => exact hOver
        | error e =>
          refine passes_stay.mono ?_
          rintro _ _ rfl
          exact hOver
    · next hOthers => exact ⟨rfl, fun hPrepares => absurd hPrepares hOthers⟩

end Debuggee
end JvmDebug
