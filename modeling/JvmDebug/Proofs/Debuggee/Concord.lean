import JvmDebug.Proofs.Debuggee.Keeping
import JvmDebug.Proofs.Debuggee.Pumping

/-!
# The marks and the placer

Pump and rehook both work on the placer, one at a time, and tell the book what has code only after they have left it:
the pump marks what it has found, the rehook replaces all marks. Whoever comes to the placer when everything is told
leaves them in concord.
-/

namespace JvmDebug.Debuggee
set_option autoImplicit false

open PumpPhase (free)

variable {α : Type}

/-! ## What is still to be told -/

/-- Until it ends or waits, an activity leaves the marks as they are. -/
def Silent : Activity α → Prop
  | .done _ | .wait .. => True
  | .atomic change next => ∀ d, (change d).book.verified = d.book.verified ∧ Silent (next d)
  | .call _ next => ∀ a, Silent (next a)
  | .note _ next => Silent next

namespace PumpPhase

/-- What is found and not marked yet. -/
def owed (g : PumpPhase) : List Int :=
  match g.hand with
  | .owes found => found.map (·.1)
  | .marked _ _ rest => rest.map (·.1)
  | .holds .. => []

def locks (g : PumpPhase) : Bool :=
  match g.hand with
  | .holds .. => true
  | .owes _ | .marked .. => false

theorem fits_of_away (g : PumpPhase) (hAway : g.locks = false) (d : Debuggee) : g.fits d := by
  obtain ⟨log, hand⟩ := g
  cases hand with
  | holds => cases hAway
  | _ => trivial

end PumpPhase

namespace KeeperPhase

/-- All that is to be marked. -/
def owed? : KeeperPhase → Option (List Int)
  | placed _ p => some p.verified
  | owes _ ids => some ids
  | _ => none

end KeeperPhase

/-- A debuggee with these marks and this placer. -/
def withMarks (verified : List Int) (p : Placer) : Debuggee :=
  { origin := .attached, book := { verified }, placer := p }

variable {r : Activity α} {log : List Note} {g g' : PumpPhase} {φ φ' : KeeperPhase} {d d' : Debuggee}
  {asked : Option (Asked World)} {id : Int} {line : UInt32} {rest : List (Int × UInt32)}
  {errors : Jdwp.Error → Prop} {fine : Fine} {answered : (c : Call) → Answer c → Prop}

theorem PumpPhase.Moves.of_owes (h : PumpPhase.Moves errors ⟨log, .owes ((id, line) :: rest)⟩ asked d d' g') :
    asked = none ∧ d'.book = d.book.markVerified id := by
  cases h
  exact ⟨rfl, rfl⟩

theorem PumpPhase.Moves.of_marked (h : PumpPhase.Moves errors ⟨log, .marked id line rest⟩ asked d d' g') :
    asked.isSome = true ∧ g'.hand = .owes rest := by
  cases h
  exact ⟨rfl, rfl⟩

theorem KeeperPhase.Moves.of_owes {w : BreakpointSet} {ids : List Int}
    (h : KeeperPhase.Moves fine (.owes w ids) asked d d' φ') :
    asked = none ∧ (d' = d ∧ φ' = .owes w ids ∨ d'.book.verified = ids) := by
  cases h with
  | idles => exact ⟨rfl, .inl ⟨rfl, rfl⟩⟩
  | reports => exact ⟨rfl, .inr rfl⟩

theorem KeeperPhase.Moves.of_placed {w : BreakpointSet} {p : Placer}
    (h : KeeperPhase.Moves fine (.placed w p) asked d d' φ') :
    asked = none ∧ (φ' = .placed w p ∨ φ' = .owes w p.verified) := by
  cases h with
  | idles => exact ⟨rfl, .inl rfl⟩
  | leaves => exact ⟨rfl, .inr rfl⟩

section Pump

variable {post : α → PumpPhase → Prop} (hPost : ∀ a g, post a g → g.owed = [])
include hPost

theorem not_silent_of_found (h : r.Passes (pumping StillThere) post ⟨log, .owes ((id, line) :: rest)⟩) : ¬Silent r := by
  -- Where nothing is marked yet, the mark is seen.
  let d := withMarks [] ⟨{}, ⟨""⟩, [], [], none⟩
  intro hSilent
  cases r with
  | done a => cases hPost a _ h
  | atomic change next =>
    obtain ⟨g', hMoves, -⟩ := h d trivial
    have hMarked := (hSilent d).1
    rw [hMoves.of_owes.2] at hMarked
    cases hMarked
  | wait => cases h.1
  | call c next =>
    obtain ⟨a, ha⟩ := exists_reply StillThere c
    obtain ⟨g', hMoves, -⟩ := h d trivial a ha
    cases hMoves.of_owes.1
  | note x next =>
    obtain ⟨g', hMoves, -⟩ := h d trivial
    cases congrArg BreakpointBook.verified hMoves.of_owes.2

theorem not_silent_of_marked (h : r.Passes (pumping StillThere) post ⟨log, .marked id line rest⟩) (hRest : rest ≠ []) :
    ¬Silent r := by
  let d := withMarks [] ⟨{}, ⟨""⟩, [], [], none⟩
  intro hSilent
  cases r with
  | done a => exact hRest (List.map_eq_nil_iff.mp (hPost a _ h))
  | atomic change next =>
    obtain ⟨g', hMoves, -⟩ := h d trivial
    cases hMoves.of_marked.1
  | wait => exact h.1
  | call c next =>
    obtain ⟨a, ha⟩ := exists_reply StillThere c
    obtain ⟨⟨log', hand⟩, hMoves, hPasses⟩ := h d trivial a ha
    obtain ⟨⟨id', line'⟩, others, rfl⟩ := List.exists_cons_of_ne_nil hRest
    obtain rfl : hand = _ := hMoves.of_marked.2
    exact not_silent_of_found hPost hPasses (hSilent a)
  | note x next =>
    obtain ⟨g', hMoves, -⟩ := h d trivial
    cases hMoves.of_marked.1

/-- A pump that is silent and not at the placer has marked all that it has found. -/
theorem owed_of_silent (h : r.Passes (pumping StillThere) post g) (hAway : g.locks = false) (hSilent : Silent r) :
    g.owed = [] := by
  obtain ⟨log, hand⟩ := g
  cases hand with
  | holds => cases hAway
  | owes found =>
    cases found with
    | nil => rfl
    | cons x rest => exact absurd hSilent (not_silent_of_found hPost h)
  | marked id line rest =>
    by_contra hRest
    exact not_silent_of_marked hPost h (fun hNone => hRest (by rw [hNone]; rfl)) hSilent

end Pump

section Keeper

variable {post : α → KeeperPhase → Prop} (hPost : ∀ a φ, post a φ → φ.owed? = none)
include hPost

theorem not_silent_of_owes {w : BreakpointSet} {ids : List Int}
    (h : r.Passes (keeping (Replies StillThere) fine) post (.owes w ids)) : ¬Silent r := by
  -- Where other breakpoints are marked, it is seen that the marks are replaced.
  let d := withMarks (0 :: ids) ⟨{}, ⟨""⟩, [], [], none⟩
  have hOther : d.book.verified ≠ ids := List.cons_ne_self 0 ids
  induction r with
  | done a => cases hPost a _ h
  | atomic change next ih =>
    intro hSilent
    obtain ⟨φ', hMoves, hPasses⟩ := h d trivial
    rcases hMoves.of_owes.2 with ⟨-, rfl⟩ | hReported
    · exact ih d hPasses (hSilent d).2
    · exact hOther ((hSilent d).1.symm.trans hReported)
  | wait => exact h.1.elim
  | call c next =>
    obtain ⟨a, ha⟩ := exists_reply StillThere c
    obtain ⟨φ', hMoves, -⟩ := h d trivial a ha
    cases hMoves.of_owes.1
  | note x next ih =>
    intro hSilent
    obtain ⟨φ', hMoves, hPasses⟩ := h d trivial
    rcases hMoves.of_owes.2 with ⟨-, rfl⟩ | hReported
    · exact ih hPasses hSilent
    · exact hOther hReported

theorem not_silent_of_placed {w : BreakpointSet} {p : Placer}
    (h : r.Passes (keeping (Replies StillThere) fine) post (.placed w p)) : ¬Silent r := by
  let d := withMarks [] p
  induction r with
  | done a => cases hPost a _ h
  | atomic change next ih =>
    intro hSilent
    obtain ⟨φ', hMoves, hPasses⟩ := h d rfl
    rcases hMoves.of_placed.2 with rfl | rfl
    · exact ih d hPasses (hSilent d).2
    · exact not_silent_of_owes hPost hPasses (hSilent d).2
  | wait => exact h.1.elim
  | call c next =>
    obtain ⟨a, ha⟩ := exists_reply StillThere c
    obtain ⟨φ', hMoves, -⟩ := h d rfl a ha
    cases hMoves.of_placed.1
  | note x next ih =>
    intro hSilent
    obtain ⟨φ', hMoves, hPasses⟩ := h d rfl
    rcases hMoves.of_placed.2 with rfl | rfl
    · exact ih hPasses hSilent
    · exact not_silent_of_owes hPost hPasses hSilent

/-- A rehook that is silent has nothing to report. -/
theorem owed?_of_silent (h : r.Passes (keeping (Replies StillThere) fine) post φ) (hSilent : Silent r) :
    φ.owed? = none := by
  cases φ with
  | placed => exact absurd hSilent (not_silent_of_placed hPost h)
  | owes => exact absurd hSilent (not_silent_of_owes hPost h)
  | _ => rfl

end Keeper

/-! ## What the marks tell -/

/-- The placer of which the marks tell. -/
def shown (g : PumpPhase) (φ : KeeperPhase) (d : Debuggee) : Placer :=
  match g.hand with
  | .holds before _ => before
  | .owes _ | .marked .. => φ.placer d

theorem shown_of_away (hAway : g.locks = false) (φ : KeeperPhase) (d : Debuggee) : shown g φ d = φ.placer d := by
  obtain ⟨log, hand⟩ := g
  cases hand with
  | holds => cases hAway
  | _ => rfl

/-- Whoever is at the placer is there alone, and has found everything told. -/
structure Concord (g : PumpPhase) (φ : KeeperPhase) (d : Debuggee) : Prop where
  pump : g.fits d
  keeper : φ.fits d
  together : φ.isAlone = false
  user : d.placerUser = if g.locks then some .pump else if φ.locks then some .rehook else none
  apart : φ.locks = true ∨ φ.owed?.isSome = true → g.locks = false ∧ g.owed = []
  distinct : (shown g φ d).installed.Distinct
  told : φ.owed? = none → Placer.Gains g.owed d.book.verified (shown g φ d).verified
  owing : ∀ ids, φ.owed? = some ids → ∀ id, id ∈ ids ↔ id ∈ d.placer.verified

/-- Nobody is at the placer, and what was found there is told. -/
structure Settled (g : PumpPhase) (φ : KeeperPhase) : Prop where
  marked : g.owed = []
  reported : φ.owed? = none

theorem Concord.free (h : Concord g φ d) (hFree : d.placerUser = none) : g.locks = false ∧ φ.locks = false := by
  have hUser := h.user
  rw [hFree] at hUser
  cases hPump : g.locks <;> cases hKeeper : φ.locks <;> simp [hPump, hKeeper] at hUser ⊢

/-- While the pump is at the placer, the rehook is not, and owes nothing. -/
theorem Concord.keeper_away (h : Concord g φ d) (hHolds : g.locks = true) : φ.locks = false ∧ φ.owed? = none := by
  have hApart : ¬(φ.locks = true ∨ φ.owed?.isSome = true) := by
    intro hKeeper
    rw [(h.apart hKeeper).1] at hHolds
    cases hHolds
  simpa using hApart

theorem Gains.of_marked {id : Int} {ids after : List Int} {b : BreakpointBook}
    (h : Placer.Gains (id :: ids) b.verified after) : Placer.Gains ids (b.markVerified id).verified after := by
  intro other
  rw [h other, BreakpointBook.markVerified]
  split
  · next hMarked =>
    rw [List.mem_cons]
    constructor
    · rintro (hBefore | rfl | hMore)
      · exact .inl hBefore
      · exact .inl hMarked
      · exact .inr hMore
    · exact Or.imp_right .inr
  · rw [List.mem_append, List.mem_singleton, List.mem_cons, or_assoc]

theorem Concord.pump_moves (h : Concord g φ d) (hMoves : PumpPhase.Moves StillThere g asked d d' g')
    (hTold : d.placerUser = none → d'.placerUser ≠ none → Settled g φ) : Concord g' φ d' := by
  cases hMoves with
  | aside hAside =>
    obtain ⟨types, detailField, pendingSteps, rfl⟩ := hAside
    exact { h with }
  | asks | publishes | asksThere | resolves => exact { h with }
  | takes hFree =>
    have hSettled := hTold hFree (Option.some_ne_none _)
    obtain ⟨-, hAway⟩ := h.free hFree
    have hHere : φ.placer d = d.placer := φ.placer_of_away h.together hAway d
    have hDistinct : d.placer.installed.Distinct := hHere ▸ h.distinct
    refine ⟨rfl, φ.fits_of_away h.together hAway nofun, h.together, rfl, ?_, hDistinct, fun hNone => ?_, ?_⟩
    · simp [hAway, hSettled.reported]
    · have hMarks : Placer.Gains [] d.book.verified (φ.placer d).verified := h.told hNone
      rw [hHere] at hMarks
      exact hMarks
    · simp [hSettled.reported]
  | places p =>
    obtain ⟨hAway, hNone⟩ := h.keeper_away rfl
    refine { h with pump := rfl, keeper := φ.fits_of_away h.together hAway fun hFree => ?_, owing := ?_ }
    · have hUser : d.placerUser = some .pump := h.user
      rw [hUser] at hFree
      cases hFree
    · simp [hNone]
  | leaves hPrepares =>
    obtain ⟨hAway, hNone⟩ := h.keeper_away rfl
    obtain ⟨found, rfl, hFinds⟩ := hPrepares.finds
    obtain ⟨hMoved, hGains⟩ := hFinds h.distinct
    obtain rfl : d.placer = _ := h.pump
    have hThere := φ.placer_of_away h.together hAway { d with placerUser := none }
    have hDistinct : (φ.placer { d with placerUser := none }).installed.Distinct := by
      rw [hThere]
      exact hMoved.distinct
    have hMarks : Placer.Gains (found.map (·.1)) d.book.verified (φ.placer { d with placerUser := none }).verified := by
      rw [hThere]
      exact (h.told hNone).trans hGains
    refine ⟨trivial, φ.fits_of_away h.together hAway fun _ => hMoved.distinct, h.together, ?_, ?_, hDistinct,
      fun _ => hMarks, ?_⟩
    · simp [PumpPhase.locks, hAway]
    · simp [hAway, hNone]
    · simp [hNone]
  | marks =>
    refine { h with apart := fun hKeeper => ?_, told := fun hNone => Gains.of_marked (h.told hNone) }
    cases (h.apart hKeeper).2

/-- The rehook comes to the placer. -/
theorem Concord.takes (h : Concord g φ d) (hFree : d.placerUser = none) (hSettled : Settled g φ)
    (hHere : φ.placer d = d.placer) (errand : Errand) :
    Concord g (.works false errand d.placer d.placer) { d with placerUser := some .rehook } := by
  obtain ⟨hAway, -⟩ := h.free hFree
  have hShown : shown g φ d = d.placer := (shown_of_away hAway φ d).trans hHere
  have hThere : shown g (.works false errand d.placer d.placer) { d with placerUser := some .rehook } = d.placer :=
    shown_of_away hAway _ _
  refine ⟨g.fits_of_away hAway _, rfl, rfl, ?_, fun _ => ⟨hAway, hSettled.marked⟩, ?_, fun _ => ?_, nofun⟩
  · simp [KeeperPhase.locks, hAway]
  · rw [hThere, ← hShown]
    exact h.distinct
  · rw [hThere, ← hShown]
    exact h.told hSettled.reported

theorem Concord.keeper_moves (h : Concord g φ d)
    (hMoves : KeeperPhase.Moves (Backend.Telling StillThere) φ asked d d' φ')
    (hTold : d.placerUser = none → d'.placerUser ≠ none → Settled g φ) : Concord g φ' d' := by
  have hPresent : ∀ c a, Backend.Telling StillThere c a → Backend.Present c a := fun _ _ => present_of_telling
  cases hMoves with
  | idles | asksThere => exact h
  | asks | looksAlone | looksOn | reportsAlone | finishesAlone | opens => cases h.together
  | looks =>
    refine { h with keeper := fun hFree => ?_ }
    have hDistinct := h.distinct
    rw [shown_of_away (h.free hFree).1] at hDistinct
    exact hDistinct
  | looksFilters | finishes => exact { h with }
  | takes hFree => exact h.takes hFree (hTold hFree (Option.some_ne_none _)) rfl _
  | takesFilters hFree => exact h.takes hFree (hTold hFree (Option.some_ne_none _)) rfl _
  | @places alone errand before d p =>
    have hLocks : (KeeperPhase.works alone errand before d.placer).locks = true := by
      rw [KeeperPhase.locks, show alone = false from h.together]
      rfl
    exact { h with pump := g.fits_of_away (h.apart (.inl hLocks)).1 _, keeper := rfl, owing := by rintro _ ⟨⟩ }
  | @completes w ids before now d hSyncs =>
    obtain ⟨hAway, -⟩ := h.apart (.inl rfl)
    obtain rfl : d.placer = now := h.keeper
    have hBefore : shown g (.works false (.sync w) before d.placer) d = before := shown_of_away hAway _ _
    have hNow : shown g (.placed w d.placer) d = d.placer := shown_of_away hAway _ _
    refine { h with apart := fun _ => h.apart (.inl rfl), distinct := ?_, told := by rintro ⟨⟩, owing := ?_ }
    · rw [hNow]
      exact (hSyncs.yields hPresent (hBefore ▸ h.distinct)).2
    · rintro _ ⟨⟩ id
      exact Iff.rfl
  | leaves =>
    obtain ⟨hAway, hMarked⟩ := h.apart (.inl rfl)
    refine { h with keeper := trivial, user := ?_, apart := fun _ => ⟨hAway, hMarked⟩, told := by rintro ⟨⟩ }
    simp [KeeperPhase.locks, hAway]
  | @leavesFilters w before now d hSets =>
    obtain ⟨hAway, hMarked⟩ := h.apart (.inl rfl)
    obtain rfl : d.placer = now := h.keeper
    have hInstalled := hSets.installed hPresent
    have hBefore : shown g (.works false (.filters w none) before d.placer) d = before := shown_of_away hAway _ _
    have hNow : shown g .rests { d with placerUser := none } = d.placer := shown_of_away hAway _ _
    refine ⟨g.fits_of_away hAway _, trivial, rfl, ?_, ?_, ?_, fun _ => ?_, by rintro _ ⟨⟩⟩
    · simp [KeeperPhase.locks, hAway]
    · simp [KeeperPhase.locks, KeeperPhase.owed?]
    · rw [hNow, hInstalled, ← hBefore]
      exact h.distinct
    · have hVerified : d.placer.verified = before.verified := by rw [Placer.verified, hInstalled, Placer.verified]
      rw [hNow, hVerified, ← hBefore]
      exact h.told rfl
  | @reports w ids d =>
    obtain ⟨hAway, hMarked⟩ := h.apart (.inr rfl)
    have hNow : shown g (.reported false w) { d with book := d.book.putVerified ids } = d.placer :=
      shown_of_away hAway _ _
    refine { h with
      apart := by simp [KeeperPhase.locks, KeeperPhase.owed?]
      told := fun _ id => ?_
      owing := by rintro _ ⟨⟩ }
    rw [hNow, hMarked, ← h.owing ids rfl]
    simp [BreakpointBook.putVerified]

/-- The marks are what the placer has, and nobody is there. -/
structure Agreed (d : Debuggee) : Prop where
  nobody : d.placerUser = none
  distinct : d.placer.installed.Distinct
  marks : ∀ id, d.book.isVerified id = true ↔ id ∈ d.placer.verified

theorem Agreed.concord (h : Agreed d) : Concord (free []) .rests d where
  pump := trivial
  keeper := trivial
  together := rfl
  user := h.nobody
  apart := by simp [KeeperPhase.locks, KeeperPhase.owed?]
  distinct := h.distinct
  told _ id := by
    have hMarks : id ∈ d.placer.verified ↔ id ∈ d.book.verified := by
      rw [← h.marks, BreakpointBook.isVerified, decide_eq_true_iff]
    exact hMarks.trans (or_iff_left List.not_mem_nil).symm
  owing := nofun

theorem Concord.agreed (h : Concord g φ d) (hSettled : Settled g φ) (hNobody : d.placerUser = none) : Agreed d := by
  obtain ⟨hPump, hKeeper⟩ := h.free hNobody
  have hShown : shown g φ d = d.placer := (shown_of_away hPump _ _).trans (φ.placer_of_away h.together hKeeper _)
  have hTold := h.told hSettled.reported
  rw [hShown, hSettled.marked] at hTold
  refine ⟨hNobody, hShown ▸ h.distinct, fun id => ?_⟩
  rw [hTold, BreakpointBook.isVerified, decide_eq_true_iff]
  exact (or_iff_left List.not_mem_nil).symm

end JvmDebug.Debuggee
