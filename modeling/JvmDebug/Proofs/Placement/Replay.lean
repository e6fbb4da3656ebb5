import JvmDebug.Proofs.Placement.World

/-!
# Replaying deeds

A machine that can be run: it tells what is so, makes a new request each time, and prepares classes by a script while
it is called. What a replay of some deeds comes to can be reached by them.
-/

namespace JvmDebug
set_option autoImplicit false

open Jdwp (LoadedClass Location RequestId)

namespace Backend

variable {lines : LoadedClass → UInt32 → List Location} {script : History → List (String × LoadedClass)} {h h' : History}
  {c : Call} {a : Answer c}

def nextRequest (h : History) : RequestId := Int32.ofNat ((issued h).length + 1)

/-- What is so after a history, and a number for what is to be made. -/
def truth (lines : LoadedClass → UInt32 → List Location) (h : History) : (c : Call) → Answer c
  | .loadedClasses name => .ok (loaded h name)
  | .lineLocations c line => .ok (lines c line)
  | .setBreakpoint _ => .ok (nextRequest h)
  | .clearBreakpoint _ => .ok ()
  | .setWatch _ => .ok (nextRequest h)
  | .clearWatch _ => .ok ()
  | .setException .. => .ok (nextRequest h)
  | .clearException _ => .ok ()

/-- Answers a call, after the classes of the script were prepared; not if it has run out of numbers. -/
def obey (lines : LoadedClass → UInt32 → List Location) (script : History → List (String × LoadedClass)) (c : Call) :
    StateT History Option (Answer c) := fun h =>
  let h := h ++ preparing (script h)
  if nextRequest h ∈ issued h then none else some (truth lines h c, h ++ [.answered c (truth lines h c)])

theorem refusal?_truth : Happening.refusal? (.answered c (truth lines h c)) = none := by cases c <;> rfl

theorem eq_nextRequest {r : RequestId} (hr : Happening.request? (.answered c (truth lines h c)) = some r) :
    r = nextRequest h := by
  cases c <;> cases hr <;> rfl

theorem holds_truth {f : Finding} (hf : Happening.finding? (.answered c (truth lines h c)) = some f) :
    f.Holds lines h := by
  cases c <;> cases hf <;> rfl

theorem obey_interleaved (c : Call) (h : History) (a : Answer c) (h' : History)
    (hAnswer : (obey lines script c).run h = some (a, h')) : Interleaved (Faithful lines) h c a h' := by
  change (if nextRequest _ ∈ issued _ then none else some (_, _)) = some (a, h') at hAnswer
  split at hAnswer
  · cases hAnswer
  · rename_i hFresh
    cases hAnswer
    refine ⟨script h, rfl, ⟨refusal?_truth, fun r hr => ?_⟩, fun f hf => holds_truth hf⟩
    rw [eq_nextRequest hr]
    exact hFresh

end Backend

namespace World

def ended {α : Type} : Option ((Routine Placer Backend α × Placer) × Backend.History) → Option (Placer × Backend.History)
  | some ((.done _, p), h) => some (p, h)
  | _ => none

variable (lines : LoadedClass → UInt32 → List Location) (script : Backend.History → List (String × LoadedClass))

def finish {α : Type} (r : Routine Placer Backend α) (w : World) : Option (Placer × Backend.History) :=
  ended ((Routine.advance (Backend.obey lines script) (fun _ p => p) r w.placer).run w.history)

def replayDeed (w : World) : Deed → Option World
  | .set source requested => some { w with book := (w.book.set source requested).2 }
  | .sync => (finish lines script (Placer.sync w.book.current).run w).map fun (placer, history) =>
      { w with placer, history }
  | .report r c => (finish lines script (Placer.classPrepared r c).run w).map fun (placer, history) =>
      { w with placer, history, given := w.given ++ [(r, c)] }
  | .prepare name c => some { w with history := w.history ++ [.prepared name c] }

/-- What some deeds come to, if all of them are allowed. -/
def replay (allowed : World → Deed → Prop) [∀ w deed, Decidable (allowed w deed)] (w : World) : List Deed → Option World
  | [] => some w
  | deed :: rest =>
    if allowed w deed then (replayDeed lines script w deed).bind fun w' => replay allowed w' rest else none

variable {lines script}

theorem run_of_finish {α : Type} {r : Routine Placer Backend α} {w : World} {p : Placer} {h : Backend.History}
    (hFinish : finish lines script r w = some (p, h)) :
    ∃ a, Routine.Run (Backend.Interleaved (Backend.Faithful lines)) r w.placer w.history a p h := by
  unfold finish ended at hFinish
  split at hFinish
  · rename_i a p' h' hDone
    cases hFinish
    exact ⟨a, Routine.Run.of_advance Backend.obey_interleaved hDone⟩
  · cases hFinish

theorem does_of_replayDeed {w w' : World} {deed : Deed} (hReplay : replayDeed lines script w deed = some w') :
    Does (Backend.Interleaved (Backend.Faithful lines)) w deed w' := by
  cases deed with
  | set source requested =>
    cases hReplay
    exact .set w source requested
  | sync =>
    obtain ⟨⟨p, h⟩, hFinish, rfl⟩ := Option.map_eq_some_iff.mp hReplay
    obtain ⟨outcome, hRun⟩ := run_of_finish hFinish
    exact .sync hRun
  | report r c =>
    obtain ⟨⟨p, h⟩, hFinish, rfl⟩ := Option.map_eq_some_iff.mp hReplay
    obtain ⟨outcome, hRun⟩ := run_of_finish hFinish
    exact .report hRun
  | prepare name c =>
    cases hReplay
    exact .prepare w name c

theorem reaches_of_replay {allowed : World → Deed → Prop} [∀ w deed, Decidable (allowed w deed)] {w w' : World}
    {deeds : List Deed} (hReplay : replay lines script allowed w deeds = some w') :
    Reaches (Backend.Interleaved (Backend.Faithful lines)) allowed w deeds w' := by
  induction deeds generalizing w with
  | nil =>
    cases hReplay
    exact .nil
  | cons deed rest ih =>
    rw [replay] at hReplay
    split at hReplay
    · rename_i hAllowed
      obtain ⟨w₁, hFirst, hRest⟩ := Option.bind_eq_some_iff.mp hReplay
      exact (Reaches.snoc .nil hAllowed (does_of_replayDeed hFirst)).trans (ih hRest)
    · cases hReplay

theorem exists_of_replay (lines : LoadedClass → UInt32 → List Location)
    (script : Backend.History → List (String × LoadedClass)) (allowed : World → Deed → Prop)
    [∀ w deed, Decidable (allowed w deed)] (w : World) (deeds : List Deed) (test : World → Bool)
    (hReplay : (replay lines script allowed w deeds).any test = true) :
    ∃ w', test w' = true ∧ Reaches (Backend.Interleaved (Backend.Faithful lines)) allowed w deeds w' := by
  obtain ⟨w', hw, hTest⟩ := (Option.any_eq_true ..).mp hReplay
  exact ⟨w', hTest, reaches_of_replay hw⟩

end World

/-! A workspace with one source, in which each class has code at line 3 -/

namespace Sample

def source : Source := ⟨"A.java", ⟨"/w/A.java"⟩⟩

/-- Nothing was done yet; the source may be compiled into classes of these names. -/
def start (names : List String) : World := .new { bySource := [(⟨"A.java"⟩, names)] } ⟨"/w"⟩

def breakpointAt (line : UInt32) : RequestedBreakpoint := ⟨⟨source, line, none⟩, none⟩

def lines (c : LoadedClass) (line : UInt32) : List Location := if line = 3 then [⟨c.typeTag, c.id, 7, 0⟩] else []

theorem own : Backend.Own lines := by
  intro c line l hl
  unfold lines at hl
  split at hl
  · rw [List.mem_singleton.mp hl]
    exact ⟨rfl, rfl⟩
  · cases hl

/-- A script by which a class is prepared right after its name was looked up. -/
def slip (h : Backend.History) : List (String × LoadedClass) :=
  match h.getLast? with
  | some (.answered (.loadedClasses name) _) => [(name, ⟨1, 10⟩)]
  | _ => []

end Sample
end JvmDebug
