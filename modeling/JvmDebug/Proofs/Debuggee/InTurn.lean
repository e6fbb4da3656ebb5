import JvmDebug.Proofs.Debuggee.Concord
import JvmDebug.Proofs.Debuggee.Handling
import JvmDebug.Proofs.Routine.Replay

/-!
# Pump and rehook side by side

If nobody comes to the placer before the one who was there has told the book, the marks are what the placer has.
Otherwise a mark may be lost.
-/

namespace JvmDebug.Debuggee
set_option autoImplicit false

open Jdwp (EventSet)
open PumpPhase (free)

variable {α : Type} {r : Activity α} {d d' : Debuggee}

inductive Duty where
  | handles (s : EventSet)
  | breakpoints
  | filters

abbrev Yield : PlacerUser → Type
  | .pump => Bool
  | .rehook => Unit

/-- Where breakpoints and filters have changed, the rehook may look at either first. -/
inductive Duty.Taken (d : Debuggee) : (k : PlacerUser) → Duty → Activity (Yield k) → Prop where
  | handles (s : EventSet) : Taken d .pump (.handles s) (pump s)
  | breakpoints : hasNewBreakpoints d = true → Taken d .rehook .breakpoints rehookBreakpoints
  | filters : hasNewFilters d = true → Taken d .rehook .filters rehookFilters

/-- A machine that is there, and a client that changes breakpoints and filters. -/
def sharing : Setting PlacerUser Duty Debuggee World Unit Yield where
  takes k duty d r d' := Duty.Taken d k duty r ∧ d' = d
  answers _ c a _ := Replies StillThere c a
  keep _ d := d
  outside d _ d' _ := (∃ w : Wish, d' = w.change d) ∨ Aside d d'

/-- Nobody is at the placer, and nobody has anything to tell of it. -/
def Quiet (s : Scene PlacerUser Duty Debuggee World Unit Yield) : Prop :=
  s.state.placerUser = none ∧ ∀ k duty r, s.busy k = some (duty, r) → Silent r

/-- Whoever comes to the placer finds everything told. -/
def InTurn (s : Scene PlacerUser Duty Debuggee World Unit Yield) (e : Moment PlacerUser Duty Debuggee World) : Prop :=
  e.before.placerUser = none → e.after.placerUser ≠ none → Quiet s

namespace Sharing

abbrev PhaseOf : PlacerUser → Type
  | .pump => PumpPhase
  | .rehook => KeeperPhase

def phases : (k : PlacerUser) → Phases (PhaseOf k) Debuggee World
  | .pump => pumping StillThere
  | .rehook => keeping (Replies StillThere) (Backend.Telling StillThere)

def home : (k : PlacerUser) → PhaseOf k → Prop
  | .pump, g => ∃ log, g = free log
  | .rehook, φ => φ = .rests

def atRest : (k : PlacerUser) → PhaseOf k
  | .pump => free []
  | .rehook => .rests

def concert : Concert sharing PhaseOf := ⟨phases, home, fun k _ _ => home k⟩

def Holds (φ : (k : PlacerUser) → PhaseOf k) (_ : List (Moment PlacerUser Duty Debuggee World)) (d : Debuggee) : Prop :=
  Concord (φ .pump) (φ .rehook) d

/-- Who comes to the placer finds it settled. -/
def Allowed (φ : (k : PlacerUser) → PhaseOf k) (e : Moment PlacerUser Duty Debuggee World) : Prop :=
  e.before.placerUser = none → e.after.placerUser ≠ none → Settled (φ .pump) (φ .rehook)

variable {phase : (k : PlacerUser) → PhaseOf k} {past : List (Moment PlacerUser Duty Debuggee World)}
  {now : Scene PlacerUser Duty Debuggee World Unit Yield} {e : Moment PlacerUser Duty Debuggee World}

theorem passes {k : PlacerUser} {duty : Duty} {r : Activity (Yield k)} (h : Duty.Taken d k duty r) {x : PhaseOf k}
    (hHome : home k x) : r.Passes (phases k) (fun _ => home k) x := by
  cases h with
  | handles s =>
    obtain ⟨log, rfl⟩ := hHome
    refine (passes_pump s).mono ?_
    rintro _ _ ⟨did, tail, rfl, -⟩
    exact ⟨_, rfl⟩
  | breakpoints =>
    obtain rfl : x = .rests := hHome
    exact passes_rehookBreakpoints (fun _ => gives_serve) fun _ _ => present_of_telling
  | filters =>
    obtain rfl : x = .rests := hHome
    exact passes_rehookFilters (fun _ => gives_serve) fun _ _ => present_of_telling

theorem keeps : concert.Keeps Allowed Holds where
  keep k := by cases k <;> rfl
  answered k _ _ _ _ h := by cases k <;> exact h
  fits := by
    rintro φ past d (_ | _) h
    · exact h.pump
    · exact h.keeper
  takes := by
    rintro φ past d k duty r _ h hHome ⟨hTaken, rfl⟩ -
    refine ⟨φ k, passes hTaken hHome, ?_⟩
    rw [Function.update_eq_self]
    exact h
  goes := by
    rintro φ past d (_ | _) duty asked d' x h hMoves hAllowed
    · exact Concord.pump_moves h hMoves hAllowed
    · exact Concord.keeper_moves h hMoves hAllowed
  done := by
    rintro φ past d k duty a h hHome
    exact ⟨hHome, h⟩
  outside := by
    rintro φ past d ⟨⟩ d' ⟨⟩ h (⟨w, rfl⟩ | ⟨types, detailField, pendingSteps, rfl⟩)
    · cases w <;> exact { h with }
    · exact { h with }

theorem settled_of_quiet (hPlays : ∀ k, concert.Plays phase now k) (hHolds : Holds phase past now.state)
    (hQuiet : Quiet now) : Settled (phase .pump) (phase .rehook) := by
  obtain ⟨hFree, hSilent⟩ := hQuiet
  constructor
  · have hHere := hPlays .pump
    rw [Concert.Plays] at hHere
    split at hHere
    · obtain ⟨log, hLog⟩ := hHere
      rw [hLog]
      rfl
    · next duty r hBusy =>
      refine owed_of_silent ?_ hHere (hHolds.free hFree).1 (hSilent _ _ _ hBusy)
      rintro _ _ ⟨log, rfl⟩
      rfl
  · have hHere := hPlays .rehook
    rw [Concert.Plays] at hHere
    split at hHere
    · rw [show phase .rehook = .rests from hHere]
      rfl
    · next duty r hBusy =>
      refine owed?_of_silent ?_ hHere (hSilent _ _ _ hBusy)
      rintro _ _ rfl
      rfl

end Sharing

variable {past : List (Moment PlacerUser Duty Debuggee World)} {now : Scene PlacerUser Duty Debuggee World Unit Yield}

/-- As long as whoever comes to the placer finds everything told, the marks are what the placer has whenever nobody has
anything to tell. -/
theorem agrees_in_turn (hStart : Agreed d) (hLeads : sharing.LeadsBy InTurn (.idle d ()) past now) (hQuiet : Quiet now) :
    Agreed now.state := by
  have hHome : ∀ k, Sharing.concert.home k (Sharing.atRest k) := by
    rintro (_ | _)
    · exact ⟨[], rfl⟩
    · rfl
  obtain ⟨φ, hPlays, hHolds⟩ := hLeads.plays Sharing.keeps
    (fun hPlays hHolds hRule hFree hTaken => Sharing.settled_of_quiet hPlays hHolds (hRule hFree hTaken))
    (fun _ => rfl) hHome hStart.concord
  exact Concord.agreed hHolds (Sharing.settled_of_quiet hPlays hHolds hQuiet) hQuiet.1

/-! ## A mark that is lost -/

/-- No class is loaded, and each has one method, which begins in line 3. -/
def oneLine (c : Jdwp.Command) : Except Jdwp.Error Jdwp.Reply :=
  .ok ⟨0, 0, match c.set, c.number with
    | 2, 5 => [0, 0, 0, 1] ++ List.replicate 20 0
    | 6, 1 => List.replicate 16 0 ++ [0, 0, 0, 1] ++ List.replicate 8 0 ++ [0, 0, 0, 3]
    | _, _ => List.replicate 20 0⟩

def team : Script sharing Duty Wish where
  take?
    | .pump, .handles s, d => some (.handles s, pump s, d)
    | .rehook, .breakpoints, d => if hasNewBreakpoints d = true then some (.breakpoints, rehookBreakpoints, d) else none
    | .rehook, .filters, d => if hasNewFilters d = true then some (.filters, rehookFilters, d) else none
    | _, _, _ => none
  answer?
    | (), .command c => some (oneLine c, ())
    | (), .publish _ => some ((), ())
    | (), .exitCode => some (none, ())
    | (), .kill => some (.ok (), ())
  come?
    | w, d, () => some (w.change d, ())
  takes {k hint d _ _ _} h := by
    cases k <;> cases hint <;> simp only [reduceCtorEq] at h
    · cases h
      exact ⟨.handles _, rfl⟩
    · split at h
      · next hNew =>
        cases h
        exact ⟨.breakpoints hNew, rfl⟩
      · cases h
    · split at h
      · next hNew =>
        cases h
        exact ⟨.filters hNew, rfl⟩
      · cases h
  answers {_ c _ _} h := by
    cases c with
    | command c =>
      cases h
      exact nofun
    | _ => trivial
  outside {w _ _ _ _} h := by
    cases h
    exact .inl ⟨w, rfl⟩

def sourceA : Source := .ofPath ⟨"/w/A.java"⟩

def begun : Debuggee where
  origin := .attached
  book := {}
  placer := { index := SourceIndex.insert {} ⟨"A.java"⟩ "A", root := ⟨"/w"⟩ }
  rehooking := true

theorem agreed_begun : Agreed begun :=
  ⟨rfl, List.Pairwise.nil, fun _ => by simp [begun, BreakpointBook.isVerified, Placer.verified]⟩

/-- The client sets a breakpoint, and the rehook sets out to place it. -/
def setsOut : List (Cue PlacerUser Duty Wish) :=
  [.outside (.breakpoints sourceA [⟨⟨sourceA, 3, none⟩, none⟩]), .takesUp .rehook .breakpoints]

def goes (k : PlacerUser) (steps : Nat) : List (Cue PlacerUser Duty Wish) := List.replicate steps (.goesOn k)

/-- The class of the breakpoint is prepared. -/
def prepares : Cue PlacerUser Duty Wish := .takesUp .pump (.handles ⟨0, [⟨0, .classPrepare 1 1 7 "LA;" 0⟩]⟩)

/-- Both are free. -/
def isFree (s : Scene PlacerUser Duty Debuggee World Unit Yield) : Bool :=
  s.state.placerUser.isNone && ((s.busy .pump).isNone && (s.busy .rehook).isNone)

theorem quiet_of_isFree (h : isFree now = true) : Quiet now := by
  simp only [isFree, Bool.and_eq_true, Option.isNone_iff_eq_none] at h
  obtain ⟨hNobody, hPump, hRehook⟩ := h
  refine ⟨hNobody, fun k duty r hBusy => ?_⟩
  cases k
  · rw [hPump] at hBusy
    cases hBusy
  · rw [hRehook] at hBusy
    cases hBusy

/-- The rehook leaves with nothing found, the pump finds the breakpoint and marks it, and then the rehook reports. -/
theorem lost_mark : ∃ past now, sharing.Leads (.idle begun ()) past now ∧ Agreed begun ∧ Quiet now ∧
    1 ∈ now.state.placer.verified ∧ now.state.book.isVerified 1 = false := by
  obtain ⟨past, now, hLeads, hCheck⟩ := team.leads_of_check
    (setsOut ++ goes .rehook 19 ++ prepares :: goes .pump 12 ++ .isDone .pump :: goes .rehook 2 ++ [.isDone .rehook])
    (.idle begun ())
    (fun _ now => isFree now && (decide (1 ∈ now.state.placer.verified) && !now.state.book.isVerified 1))
    (by decide +kernel)
  simp only [Bool.and_eq_true, decide_eq_true_eq, Bool.not_eq_true'] at hCheck
  obtain ⟨hFree, hFound, hLost⟩ := hCheck
  exact ⟨past, now, hLeads, agreed_begun, quiet_of_isFree hFree, hFound, hLost⟩

/-! A pump that waits for its turn -/

/-- An activity that is about to wait, or has ended. -/
def pauses : Activity α → Bool
  | .done _ | .wait .. => true
  | _ => false

theorem silent_of_pauses (h : pauses r = true) : Silent r := by
  cases r with
  | done | wait => trivial
  | _ => cases h

def isInTurn (s : Scene PlacerUser Duty Debuggee World Unit Yield) (e : Moment PlacerUser Duty Debuggee World) : Bool :=
  e.before.placerUser.isSome || e.after.placerUser.isNone ||
    (s.state.placerUser.isNone && ((s.busy .pump).all (pauses ·.2) && (s.busy .rehook).all (pauses ·.2)))

theorem inTurn_of_check (s : Scene PlacerUser Duty Debuggee World Unit Yield)
    (e : Moment PlacerUser Duty Debuggee World) (h : isInTurn s e = true) : InTurn s e := by
  intro hBefore hAfter
  rw [isInTurn, hBefore, Option.isNone_eq_false_iff.mpr (Option.isSome_iff_ne_none.mpr hAfter)] at h
  simp only [Option.isSome_none, Bool.false_or, Bool.and_eq_true, Option.isNone_iff_eq_none] at h
  obtain ⟨hNobody, hPump, hRehook⟩ := h
  refine ⟨hNobody, fun k duty r hBusy => ?_⟩
  cases k
  · rw [hBusy] at hPump
    exact silent_of_pauses hPump
  · rw [hBusy] at hRehook
    exact silent_of_pauses hRehook

theorem agrees_in_turn_waiting : ∃ past now, sharing.LeadsBy InTurn (.idle begun ()) past now ∧ Quiet now ∧
    now.state.book.isVerified 1 = true ∧ Agreed now.state := by
  obtain ⟨past, now, hLeads, hCheck⟩ := team.leadsBy_of_check isInTurn
    (setsOut ++ goes .rehook 10 ++ prepares :: goes .pump 2 ++ goes .rehook 11 ++ .isDone .rehook :: goes .pump 10 ++
      [.isDone .pump])
    (.idle begun ()) (fun _ now => isFree now && now.state.book.isVerified 1) (by decide +kernel) (by decide +kernel)
  obtain ⟨hFree, hMarked⟩ := Bool.and_eq_true_iff.mp hCheck
  have hInTurn := hLeads.mono inTurn_of_check
  have hQuiet := quiet_of_isFree hFree
  exact ⟨past, now, hInTurn, hQuiet, hMarked, agrees_in_turn agreed_begun hInTurn hQuiet⟩

end JvmDebug.Debuggee
