import JvmDebug.Proofs.Debuggee.Sections

/-!
# The phases of the rehook

Whoever brings the placer up to date looks at what the client wants now, places that, and reports what it has placed.
The beginning does so alone; later the rehook comes to the placer only when nobody else is there, and reports after it
has left.
-/

namespace JvmDebug.Debuggee
set_option autoImplicit false

open Jdwp (Query)
open Backend (By Present)

variable {α : Type}

/-- What the client asks for. -/
inductive Wish where
  | breakpoints (source : Source) (requested : List RequestedBreakpoint)
  | filters (wanted : ExceptionFilters)

/-- The client changes something. -/
def Wish.change (d : Debuggee) : Wish → Debuggee
  | breakpoints source requested => { d with book := (d.book.set source requested).2 }
  | filters wanted => { d with book := d.book.setFilters wanted }

/-- What is done at the placer. In the beginning what the sync has placed is still to be reported when the filters are
set. -/
inductive Errand where
  | sync (wanted : BreakpointSet)
  | filters (wanted : ExceptionFilters) (owed : Option (BreakpointSet × List Int))

inductive KeeperPhase where
  /-- Nobody else knows the placer yet. -/
  | starts
  | rests
  | wants (wanted : BreakpointSet)
  | wantsFilters (wanted : ExceptionFilters)
  /-- At the placer, as it was and as it is. -/
  | works (alone : Bool) (errand : Errand) (before now : Placer)
  /-- Still at the placer, which has been brought up to date. -/
  | placed (wanted : BreakpointSet) (p : Placer)
  /-- What was placed is to be reported. -/
  | owes (wanted : BreakpointSet) (verified : List Int)
  /-- The generation is to be reported. -/
  | reported (alone : Bool) (wanted : BreakpointSet)
  /-- The rehook is to be let in. -/
  | opening

/-- Calls of the placer are answered like this. -/
abbrev Fine := (c : Backend.Call) → Backend.Answer c → Prop

/-- A sync may come to this. -/
abbrev Syncs (fine : Fine) (wanted : BreakpointSet) (before : Placer) (ids : List Int) (after : Placer) : Prop :=
  Routine.Run (By fine) (Placer.sync wanted).run before [] (.ok ids) after []

/-- Setting filters may come to this. -/
abbrev SetsFilters (fine : Fine) (wanted : ExceptionFilters) (before after : Placer) : Prop :=
  Routine.Run (By fine) (Placer.setFilters wanted).run before [] (.ok ()) after []

namespace KeeperPhase

/-- What may be done in a phase, and the phase then. -/
inductive Moves (fine : Fine) : KeeperPhase → Option (Asked World) → Debuggee → Debuggee → KeeperPhase → Prop where
  | idles {φ : KeeperPhase} {d : Debuggee} : Moves fine φ none d d φ
  | asks {d : Debuggee} {c : Jdwp.Command} {reply : Except Jdwp.Error Jdwp.Reply} :
      Moves fine starts (some ⟨.command c, reply⟩) d d starts
  | looksAlone {d : Debuggee} :
      Moves fine starts none d (seeBreakpoints d).2 (works true (.sync (seeBreakpoints d).1) d.placer d.placer)
  | looksOn {wanted : BreakpointSet} {ids : List Int} {before now : Placer} {d : Debuggee} :
      Syncs fine wanted before ids now → Moves fine (works true (.sync wanted) before now) none d (seeFilters d).2
        (works true (.filters (seeFilters d).1 (some (wanted, ids))) now now)
  | reportsAlone {wanted : BreakpointSet} {ids : List Int} {filters : ExceptionFilters} {before now : Placer}
      {d : Debuggee} : SetsFilters fine filters before now →
      Moves fine (works true (.filters filters (some (wanted, ids))) before now) none d
        { d with book := d.book.putVerified ids } (reported true wanted)
  | finishesAlone {wanted : BreakpointSet} {d : Debuggee} :
      Moves fine (reported true wanted) none d { d with book := d.book.putSynced wanted.generation } opening
  | opens {d : Debuggee} : Moves fine opening none d { d with rehooking := true } rests
  | looks {d : Debuggee} : Moves fine rests none d (seeBreakpoints d).2 (wants (seeBreakpoints d).1)
  | looksFilters {d : Debuggee} : Moves fine rests none d (seeFilters d).2 (wantsFilters (seeFilters d).1)
  | takes {wanted : BreakpointSet} {d : Debuggee} : d.placerUser = none →
      Moves fine (wants wanted) none d { d with placerUser := some .rehook }
        (works false (.sync wanted) d.placer d.placer)
  | takesFilters {wanted : ExceptionFilters} {d : Debuggee} : d.placerUser = none →
      Moves fine (wantsFilters wanted) none d { d with placerUser := some .rehook }
        (works false (.filters wanted none) d.placer d.placer)
  | places {alone : Bool} {errand : Errand} {before : Placer} {d : Debuggee} (p : Placer) :
      Moves fine (works alone errand before d.placer) none d { d with placer := p } (works alone errand before p)
  | asksThere {alone : Bool} {errand : Errand} {before now : Placer} {d : Debuggee} {c : Jdwp.Command}
      {reply : Except Jdwp.Error Jdwp.Reply} :
      Moves fine (works alone errand before now) (some ⟨.command c, reply⟩) d d (works alone errand before now)
  | completes {wanted : BreakpointSet} {ids : List Int} {before now : Placer} {d : Debuggee} :
      Syncs fine wanted before ids now → Moves fine (works false (.sync wanted) before now) none d d (placed wanted now)
  | leaves {wanted : BreakpointSet} {p : Placer} {d : Debuggee} :
      Moves fine (placed wanted p) none d { d with placerUser := none } (owes wanted p.verified)
  | leavesFilters {wanted : ExceptionFilters} {before now : Placer} {d : Debuggee} :
      SetsFilters fine wanted before now →
      Moves fine (works false (.filters wanted none) before now) none d { d with placerUser := none } rests
  | reports {wanted : BreakpointSet} {ids : List Int} {d : Debuggee} :
      Moves fine (owes wanted ids) none d { d with book := d.book.putVerified ids } (reported false wanted)
  | finishes {wanted : BreakpointSet} {d : Debuggee} :
      Moves fine (reported false wanted) none d { d with book := d.book.putSynced wanted.generation } rests

/-- What is counted on in a phase. -/
def fits (φ : KeeperPhase) (d : Debuggee) : Prop :=
  match φ with
  | starts => d.placer.installed.Distinct
  | wants _ => d.placerUser = none → d.placer.installed.Distinct
  | works _ _ _ now => d.placer = now
  | placed _ p => d.placer = p
  | rests | wantsFilters _ | owes .. | reported .. | opening => True

/-- The placer as it was before the work that is being done. -/
def placer (φ : KeeperPhase) (d : Debuggee) : Placer :=
  match φ with
  | works _ _ before _ => before
  | _ => d.placer

def isAlone : KeeperPhase → Bool
  | starts | opening => true
  | works alone .. | reported alone _ => alone
  | _ => false

/-- The rehook keeps others from the placer. -/
def locks : KeeperPhase → Bool
  | works alone .. => !alone
  | placed .. => true
  | _ => false

/-- Away from the placer the keeper does not know what it is like. -/
theorem placer_of_away (φ : KeeperPhase) (hTogether : φ.isAlone = false) (hAway : φ.locks = false) (d : Debuggee) :
    φ.placer d = d.placer := by
  cases φ with
  | works alone => exact absurd hTogether (by simpa [isAlone, locks] using hAway)
  | _ => rfl

theorem fits_of_away (φ : KeeperPhase) (hTogether : φ.isAlone = false) (hAway : φ.locks = false) {d : Debuggee}
    (hWants : d.placerUser = none → d.placer.installed.Distinct) : φ.fits d := by
  cases φ with
  | works alone => exact absurd hTogether (by simpa [isAlone, locks] using hAway)
  | placed => cases hAway
  | starts => cases hTogether
  | wants w => exact hWants
  | _ => trivial

/-- What is owed is not made to wait. -/
def waits : KeeperPhase → Prop
  | placed .. | owes .. => False
  | _ => True

end KeeperPhase

open KeeperPhase

/-- The phases of the rehook, where calls are answered like this. -/
def keeping (answered : (c : Call) → Answer c → Prop) (fine : Fine) : Phases KeeperPhase Debuggee World where
  fits := KeeperPhase.fits
  moves := KeeperPhase.Moves fine
  waits := KeeperPhase.waits
  answered := answered
  keep _ d := d

section Passes

variable {answered : (c : Call) → Answer c → Prop} {fine : Fine}

theorem atWork (alone : Bool) (errand : Errand) (before : Placer) :
    AtPlacer (keeping answered fine) (fun (_ : Unit) now => works alone errand before now) fun _ _ => () where
  keep := rfl
  fits h := h
  waits := trivial
  places p h := by
    obtain rfl := h
    exact .places p
  asks _ _ := .asksThere

/-- What a section comes to. -/
theorem passes_onPlacer (hFine : ∀ c, (onWire (Backend.serve c)).Gives answered (fine c)) {w : Placer.Work α}
    (hUnwaiting : w.run.Unwaiting) (alone : Bool) (errand : Errand) (p : Placer) :
    (onPlacer w).Passes (keeping answered fine) (fun outcome φ => ∃ now, φ = works alone errand p now ∧
      Routine.Run (By fine) w.run p [] outcome now []) (works alone errand p p) := by
  refine ((atWork alone errand p).passes hFine hUnwaiting () p).mono ?_
  rintro outcome _ ⟨-, now, rfl, hRun⟩
  exact ⟨now, rfl, hRun⟩

variable (hFine : ∀ c, (onWire (Backend.serve c)).Gives answered (fine c)) (hPresent : ∀ c a, fine c a → Present c a)
include hPresent

theorem lives_of_fine {h h' : Backend.History} {c : Backend.Call} {a : Backend.Answer c} (hAnswer : By fine h c a h') :
    Backend.Lives h c a h' :=
  ⟨hPresent c a hAnswer.1, hAnswer.2⟩

/-- On a machine that is there a sync does not fail. -/
theorem sync_ok {wanted : BreakpointSet} {before now : Placer} {outcome : Except Error (List Int)}
    (hDistinct : before.installed.Distinct)
    (h : Routine.Run (By fine) (Placer.sync wanted).run before [] outcome now []) : ∃ ids, outcome = .ok ids := by
  have hLives : Routine.Run Backend.Lives (Placer.sync wanted).run before [] outcome now [] :=
    h.weaken fun _ _ _ _ => lives_of_fine hPresent
  obtain ⟨ids, hOk, -⟩ := hLives.satisfies (Placer.sync_moves wanted hDistinct [])
  exact ⟨ids, hOk⟩

theorem setFilters_ok {wanted : ExceptionFilters} {before now : Placer} {outcome : Except Error Unit}
    (h : Routine.Run (By fine) (Placer.setFilters wanted).run before [] outcome now []) : outcome = .ok () := by
  have hLives : Routine.Run Backend.Lives (Placer.setFilters wanted).run before [] outcome now [] :=
    h.weaken fun _ _ _ _ => lives_of_fine hPresent
  obtain ⟨_, hOk, -⟩ := hLives.satisfies (Placer.setFilters_kept wanted before [])
  exact hOk

theorem Syncs.yields {wanted : BreakpointSet} {before now : Placer} {ids : List Int}
    (h : Syncs fine wanted before ids now) (hDistinct : before.installed.Distinct) :
    ids = now.verified ∧ now.installed.Distinct := by
  have hLives : Routine.Run Backend.Lives (Placer.sync wanted).run before [] (.ok ids) now [] :=
    h.weaken fun _ _ _ _ => lives_of_fine hPresent
  obtain ⟨_, hEq, hIds, hMoved⟩ := hLives.satisfies (Placer.sync_moves wanted hDistinct [])
  cases hEq
  exact ⟨hIds, hMoved.distinct⟩

theorem SetsFilters.installed {wanted : ExceptionFilters} {before now : Placer}
    (h : SetsFilters fine wanted before now) : now.installed = before.installed := by
  have hLives : Routine.Run Backend.Lives (Placer.setFilters wanted).run before [] (.ok ()) now [] :=
    h.weaken fun _ _ _ _ => lives_of_fine hPresent
  obtain ⟨_, -, hInstalled⟩ := hLives.satisfies (Placer.setFilters_kept wanted before [])
  exact hInstalled

include hFine

theorem passes_rehookBreakpoints :
    rehookBreakpoints.Passes (keeping answered fine) (fun _ φ => φ = rests) rests := by
  refine fun d _ => ⟨_, .looks, ?_⟩
  refine ⟨trivial, fun d hDistinct => ⟨fun hFree => ?_, nofun⟩⟩
  have hNobody : d.placerUser = none := by simpa using hFree
  refine ⟨_, .takes hNobody, ?_⟩
  refine Routine.Passes.bind (r := onPlacer _) ((passes_onPlacer hFine (Placer.sync_unwaiting _) _ _ _).mono ?_)
  rintro outcome _ ⟨now, rfl, hRun⟩
  obtain ⟨ids, rfl⟩ := sync_ok hPresent (hDistinct hNobody) hRun
  intro d hNow
  obtain rfl := hNow
  exact ⟨_, .completes hRun, fun d _ => ⟨_, .leaves, fun d _ => ⟨_, .reports, fun d _ => ⟨_, .finishes, rfl⟩⟩⟩⟩

theorem passes_rehookFilters : rehookFilters.Passes (keeping answered fine) (fun _ φ => φ = rests) rests := by
  refine fun d _ => ⟨_, .looksFilters, ?_⟩
  refine ⟨trivial, fun d _ => ⟨fun hFree => ?_, nofun⟩⟩
  refine ⟨_, .takesFilters (by simpa using hFree), ?_⟩
  refine Routine.Passes.bind (r := onPlacer _) ((passes_onPlacer hFine (Placer.setFilters_unwaiting _) _ _ _).mono ?_)
  rintro outcome _ ⟨now, rfl, hRun⟩
  obtain rfl := setFilters_ok hPresent hRun
  exact fun d _ => ⟨_, .leavesFilters hRun, rfl⟩

omit hFine hPresent in
/-- Whatever is asked before the client is looked at. -/
theorem passes_beforehand {β : Type} {w : Work α} {k : α → Work β} {post : Except Error β → KeeperPhase → Prop}
    (h : w.run.Within asking fun _ => True) (hFails : ∀ e, post (.error e) starts)
    (hNext : ∀ a, (k a).run.Passes (keeping answered fine) post starts) :
    (w >>= k).run.Passes (keeping answered fine) post starts := by
  have hKept : w.run.Passes (keeping answered fine) (fun _ φ => φ = starts) starts := by
    refine h.passes_in rfl ?_ ?_ ?_ rfl
    · rintro _ rfl
      exact trivial
    · rintro _ d _ rfl - rfl
      exact ⟨_, .idles, rfl⟩
    · rintro _ d _ a rfl - ⟨c, rfl⟩ -
      exact ⟨_, .asks, rfl⟩
  refine Attempt.passes_bind (hKept.mono ?_)
  rintro (e | a) _ rfl
  · exact hFails e
  · exact hNext a

/-- The beginning: it fails before it has looked at what the client wants, or brings the placer up to date. -/
theorem passes_start :
    start.run.Passes (keeping answered fine)
      (fun outcome φ => outcome = .ok () ∧ φ = rests ∨ (∃ e, outcome = .error e) ∧ φ = starts) starts := by
  have hAsk : ∀ {β : Type} (q : Query β), (ask q).run.Within asking fun _ => True := fun q =>
    Attempt.within_mapError.mpr ((within_query q).mono fun _ _ => trivial)
  have hPlace : ∀ r, (exchange (placeRequest r)).run.Within asking fun _ => True := fun r =>
    Attempt.within_mapError.mpr ((within_onWire (within_place r)).mono fun _ _ => trivial)
  have hFails : ∀ e : Error, (fun (outcome : Except Error Unit) φ => outcome = .ok () ∧ φ = rests ∨
      (∃ e, outcome = .error e) ∧ φ = starts) (.error e) starts := fun e => .inr ⟨⟨e, rfl⟩, rfl⟩
  refine passes_beforehand (hAsk _) hFails fun version => ?_
  refine passes_beforehand (Attempt.within_lift.mpr ⟨fun _ => rfl, trivial⟩) hFails fun _ => ?_
  refine passes_beforehand (hPlace _) hFails fun _ => passes_beforehand (hPlace _) hFails fun _ => ?_
  refine passes_beforehand (Attempt.within_lift.mpr fun d => ⟨rfl, trivial⟩) hFails fun d => ?_
  -- The machine is stopped first if it was attached to; what follows is the same.
  cases d.origin
  case' attached => refine passes_beforehand (hAsk Query.suspendAll) hFails fun _ => ?_
  all_goals
    refine Attempt.passes_bind (Attempt.passes_lift fun d hDistinct => ⟨_, .looksAlone, ?_⟩)
    refine Attempt.passes_bind ((passes_onPlacer hFine (Placer.sync_unwaiting _) _ _ _).mono ?_)
    rintro outcome _ ⟨now, rfl, hRun⟩
    obtain ⟨ids, rfl⟩ := sync_ok hPresent hDistinct hRun
    refine Attempt.passes_bind (Attempt.passes_lift fun d hNow => ⟨_, .looksOn hRun, ?_⟩)
    refine Attempt.passes_bind ((passes_onPlacer hFine (Placer.setFilters_unwaiting _) _ _ _).mono ?_)
    rintro outcome _ ⟨after, rfl, hRun⟩
    obtain rfl := setFilters_ok hPresent hRun
    exact fun d _ => ⟨_, .reportsAlone hRun, fun d _ => ⟨_, .finishesAlone, fun d _ => ⟨_, .opens, .inl ⟨rfl, rfl⟩⟩⟩⟩

end Passes

end JvmDebug.Debuggee
