import JvmDebug.Proofs.Debuggee.Replies
import JvmDebug.Proofs.Placement.Unwaiting

/-!
# Sections on the placer

Whoever works on the placer of a debuggee changes nothing else meanwhile, and asks the machine for nothing but what the
placer asks for. So what a section comes to is what the placer's own work comes to, from where it found the placer.
-/

namespace JvmDebug.Debuggee
set_option autoImplicit false

open Jdwp (LoadedClass Query)
open Backend (By)

variable {α β X G : Type}

/-! ## Asking -/

/-- Only commands, and no change. -/
def asking : Bounds Debuggee World := ⟨fun d d' => d' = d, fun c => ∃ x, c = .command x, fun _ d => d⟩

/-- Only commands, on the wire. -/
def wiring : Bounds Debuggee Jdwp.Wire := ⟨fun d d' => d' = d, fun _ => True, fun _ d => d⟩

theorem onWire_bind (r : Routine Debuggee Jdwp.Wire α) (k : α → Routine Debuggee Jdwp.Wire β) :
    onWire (r >>= k) = onWire r >>= fun a => onWire (k a) := by
  change onWire (r.bind k) = (onWire r).bind fun a => onWire (k a)
  induction r with
  | done a => rfl
  | atomic change next ih => exact congrArg (Routine.atomic change) (funext ih)
  | wait ready change limit next ih => exact congrArg (Routine.wait ready change limit) (funext ih)
  | call c next ih => exact congrArg (Routine.call _) (funext ih)
  | note r next ih => exact congrArg (Routine.note r) ih

theorem within_onWire {r : Routine Debuggee Jdwp.Wire α} {post : α → Prop} (h : r.Within wiring post) :
    (onWire r).Within asking post :=
  h.interpret (fun _ _ => id) rfl fun c _ => ⟨⟨c, rfl⟩, fun _ => rfl, fun _ => trivial⟩

theorem within_ask (q : Query α) : (Jdwp.ask q).Within wiring fun _ => True :=
  ⟨trivial, fun _ => rfl, fun _ => trivial⟩

theorem within_query (q : Query α) : (query q).run.Within asking fun _ => True := within_onWire (within_ask q)

theorem within_placing {b : Bounds Debuggee Jdwp.Wire} {r : Jdwp.EventRequest} (hStays : ∀ d, b.changes d d)
    (hKeep : b.keep = fun _ d => d) (hCalls : b.calls (Query.setRequest r).command) :
    (Jdwp.place r).Within b fun _ => True := by
  refine Routine.within_then ⟨hCalls, hStays, fun _ => trivial⟩ fun answer => ?_
  cases answer with
  | ok id => exact ⟨fun d => hKeep ▸ hStays d, trivial⟩
  | error e => trivial

theorem within_place (r : Jdwp.EventRequest) : (Jdwp.place r).Within wiring fun _ => True :=
  within_placing (fun _ => rfl) rfl trivial

/-! ## What the placer asks for -/

/-- Whether a command sets a step request, or clears one. -/
def isOfSteps (c : Jdwp.Command) : Bool := c.set = 15 && c.body.head? = some Jdwp.EventKind.singleStep.toByte

/-- Commands on the wire that leave step requests alone. -/
def placing : Bounds Debuggee Jdwp.Wire := ⟨fun d d' => d' = d, fun c => isOfSteps c = false, fun _ d => d⟩

theorem placing_ask {q : Query α} (h : isOfSteps q.command = false) : (Jdwp.ask q).Within placing fun _ => True :=
  ⟨h, fun _ => rfl, fun _ => trivial⟩

theorem placing_locationsIn (c : LoadedClass) (line : UInt32) (methods : List Jdwp.Method) :
    (Backend.locationsIn c line methods).Within placing fun _ => True := by
  induction methods with
  | nil => trivial
  | cons m rest ih =>
    refine Routine.within_then (placing_ask rfl) fun answer => ?_
    cases answer with
    | ok table => exact Routine.within_then ih fun _ => trivial
    | error e =>
      dsimp only
      split
      · trivial
      · exact ih

theorem placing_serve (c : Backend.Call) : (Backend.serve c).Within placing fun _ => True := by
  cases c with
  | loadedClasses => exact Routine.within_then (placing_ask rfl) fun _ => trivial
  | lineLocations c line =>
    refine Routine.within_then (placing_ask rfl) fun answer => ?_
    cases answer with
    | ok methods => exact placing_locationsIn c line methods
    | error e => trivial
  | setBreakpoint | setWatch | setException => exact within_placing (fun _ => rfl) rfl rfl
  | clearBreakpoint | clearWatch | clearException => exact placing_ask rfl

theorem within_serve (c : Backend.Call) : (onWire (Backend.serve c)).Within asking fun _ => True := by
  have hKeep : placing.keep = wiring.keep := rfl
  refine within_onWire (Routine.Within.weaken ?_ ?_ hKeep (placing_serve c))
  · exact fun _ _ => id
  · exact fun _ _ => trivial

/-! ## Sections -/

/-- The phases in which a worker is at the placer; `noted` says what it keeps of what it asks. -/
structure AtPlacer (t : Phases G Debuggee World) (held : X → Placer → G) (noted : X → Asked Jdwp.Wire → X) : Prop where
  keep : t.keep = fun _ d => d
  fits : ∀ {x p d}, t.fits (held x p) d → d.placer = p
  waits : ∀ {x p}, t.waits (held x p)
  places : ∀ {x p d} (p' : Placer), t.fits (held x p) d → t.moves (held x p) none d { d with placer := p' } (held x p')
  asks : ∀ {x p d c reply}, t.fits (held x p) d → t.answered (.command c) reply →
    t.moves (held x p) (some ⟨.command c, reply⟩) d d (held (noted x ⟨c, reply⟩) p)

variable {t : Phases G Debuggee World} {held : X → Placer → G} {noted : X → Asked Jdwp.Wire → X}
  {fine : (c : Backend.Call) → Backend.Answer c → Prop}

theorem AtPlacer.stays (hAt : AtPlacer t held noted) {x : X} {d : Debuggee} (hFits : t.fits (held x d.placer) d) :
    t.moves (held x d.placer) none d d (held x d.placer) :=
  hAt.places d.placer hFits

/-- The placer's questions are put to the machine while the placer stays as it is. -/
theorem AtPlacer.passes_serve (hAt : AtPlacer t held noted)
    (hFine : ∀ c, (onWire (Backend.serve c)).Gives t.answered (fine c)) (c : Backend.Call) (x : X) (p : Placer) :
    (onWire (Backend.serve c)).Passes t
      (fun a g => fine c a ∧ ∃ asked : List (Asked Jdwp.Wire), g = held (asked.foldl noted x) p) (held x p) := by
  refine (within_serve c).passes (hFine c) hAt.keep ?_ ?_ ?_ ⟨[], rfl⟩
  · rintro _ ⟨asked, rfl⟩
    exact hAt.waits
  · rintro _ d _ ⟨asked, rfl⟩ hFits rfl
    obtain rfl := hAt.fits hFits
    exact ⟨_, hAt.stays hFits, asked, rfl⟩
  · rintro _ d _ reply ⟨asked, rfl⟩ hFits ⟨command, rfl⟩ hAnswered
    exact ⟨_, hAt.asks hFits hAnswered, asked ++ [⟨command, reply⟩], by rw [List.foldl_append]; rfl⟩

/-- What a section comes to. -/
theorem AtPlacer.passes (hAt : AtPlacer t held noted)
    (hFine : ∀ c, (onWire (Backend.serve c)).Gives t.answered (fine c)) {r : Routine Placer Backend α}
    (hSteady : r.Unwaiting) (x : X) (p : Placer) :
    ((r.zoom Debuggee.placer fun p d => { d with placer := p }).interpret fun c => onWire (Backend.serve c)).Passes t
      (fun a g => ∃ (asked : List (Asked Jdwp.Wire)) (p' : Placer), g = held (asked.foldl noted x) p' ∧
        Routine.Run (By fine) r p [] a p' []) (held x p) := by
  induction r generalizing x p with
  | done a => exact ⟨[], p, rfl, .done⟩
  | atomic change next ih =>
    intro d hFits
    obtain rfl := hAt.fits hFits
    refine ⟨_, hAt.places _ hFits, (ih d.placer (hSteady d.placer) x (change d.placer)).mono ?_⟩
    rintro a g ⟨asked, p', rfl, hRun⟩
    exact ⟨asked, p', rfl, .atomic hRun⟩
  | wait _ _ _ _ _ => exact hSteady.elim
  | call c next ih =>
    refine Routine.Passes.bind ((hAt.passes_serve hFine c x p).mono ?_)
    rintro answer _ ⟨hAnswer, asked, rfl⟩
    refine (ih answer (hSteady answer) _ p).mono ?_
    rintro a g ⟨others, p', rfl, hRun⟩
    exact ⟨asked ++ others, p', by rw [List.foldl_append], .call ⟨hAnswer, rfl⟩ hRun⟩
  | note record next ih =>
    intro d hFits
    obtain rfl := hAt.fits hFits
    rw [hAt.keep]
    refine ⟨_, hAt.stays hFits, (ih hSteady x d.placer).mono ?_⟩
    rintro a g ⟨asked, p', rfl, hRun⟩
    exact ⟨asked, p', rfl, .note hRun⟩

end JvmDebug.Debuggee
