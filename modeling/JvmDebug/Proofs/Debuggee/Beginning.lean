import JvmDebug.Proofs.Debuggee.Concord
import JvmDebug.Proofs.Debuggee.UpToDate

/-!
# The beginning

The beginning works on the placer before anybody else knows it. When it is over, the marks are what the placer has.
-/

namespace JvmDebug.Debuggee
set_option autoImplicit false

open PumpPhase (free)

variable {φ φ' : KeeperPhase} {d d' : Debuggee} {asked : Option (Asked World)}

/-- A machine that is there, and a client that changes breakpoints and filters meanwhile. -/
def beginning : Setting Unit Unit Debuggee World Unit fun _ => Except Error Unit where
  takes _ _ d r d' := d.rehooking = false ∧ r = start.run ∧ d' = d
  answers _ c a _ := Replies StillThere c a
  keep _ d := d
  outside d _ d' _ := ∃ w : Wish, d' = w.change d

namespace Beginning

/-- What is to be reported once the filters are set is what the placer had before. -/
def Reports (before : Placer) : Errand → Prop
  | .filters _ (some (_, ids)) => ids = before.verified
  | .filters _ none | .sync _ => True

/-- What is true while nobody else knows the placer. -/
def Alone (φ : KeeperPhase) (d : Debuggee) : Prop :=
  match φ with
  | .starts => d.placerUser = none ∧ d.placer.installed.Distinct
  | .works _ errand before now =>
    d.placerUser = none ∧ d.placer = now ∧ before.installed.Distinct ∧ Reports before errand
  | .reported .. | .opening => Agreed d
  | _ => False

def Holds (φ : KeeperPhase) (d : Debuggee) : Prop :=
  if φ.isAlone then Alone φ d else Concord (free []) φ d

theorem Alone.moves (h : Alone φ d) (hAlone : φ.isAlone = true)
    (hMoves : KeeperPhase.Moves (Backend.Telling StillThere) φ asked d d' φ') : Holds φ' d' := by
  have hPresent : ∀ c a, Backend.Telling StillThere c a → Backend.Present c a := fun _ _ => present_of_telling
  cases hMoves with
  | idles => exact (if_pos hAlone).mpr h
  | asks => exact h
  | looksAlone =>
    obtain ⟨hNobody, hDistinct⟩ := h
    exact ⟨hNobody, rfl, hDistinct, trivial⟩
  | looksOn hSyncs =>
    obtain ⟨hNobody, hNow, hDistinct, -⟩ := h
    obtain ⟨hIds, hDistinct'⟩ := hSyncs.yields hPresent hDistinct
    exact ⟨hNobody, hNow, hDistinct', hIds⟩
  | @reportsAlone w ids filters before now d hSets =>
    obtain ⟨hNobody, rfl, hDistinct, rfl⟩ := h
    have hInstalled := hSets.installed hPresent
    have hVerified : d.placer.verified = before.verified := by rw [Placer.verified, hInstalled, Placer.verified]
    change Agreed { d with book := d.book.putVerified before.verified }
    refine ⟨hNobody, hInstalled ▸ hDistinct, fun id => ?_⟩
    rw [hVerified, BreakpointBook.isVerified, decide_eq_true_iff]
    exact Iff.rfl
  | finishesAlone => exact { (show Agreed d from h) with }
  | opens => exact Agreed.concord { (show Agreed d from h) with }
  | @places alone errand before d p =>
    obtain ⟨hNobody, -, hRest⟩ := h
    exact (if_pos hAlone).mpr ⟨hNobody, rfl, hRest⟩
  | asksThere => exact (if_pos hAlone).mpr h
  | looks | looksFilters | takes | takesFilters | completes | leaves | leavesFilters | reports | finishes =>
    cases hAlone

/-- Where nobody else is, whoever comes to the placer finds everything told. -/
theorem settled_of_takes (hMoves : KeeperPhase.Moves (Backend.Telling StillThere) φ asked d d' φ')
    (hFree : d.placerUser = none) (hTaken : d'.placerUser ≠ none) : Settled (free []) φ := by
  cases hMoves with
  | takes | takesFilters => exact ⟨rfl, rfl⟩
  | leaves | leavesFilters => exact absurd rfl hTaken
  | _ => exact absurd hFree hTaken

theorem Holds.moves (h : Holds φ d) (hMoves : KeeperPhase.Moves (Backend.Telling StillThere) φ asked d d' φ') :
    Holds φ' d' := by
  rw [Holds] at h
  split at h
  · next hAlone => exact h.moves hAlone hMoves
  · have hNext := h.keeper_moves hMoves (settled_of_takes hMoves)
    rwa [Holds, if_neg (by simp [hNext.together])]

theorem alone_of_moves (h : d.rehooking = !φ.isAlone)
    (hMoves : KeeperPhase.Moves (Backend.Telling StillThere) φ asked d d' φ') : d'.rehooking = !φ'.isAlone := by
  cases hMoves with
  | opens => rfl
  | _ => exact h

def concert : Concert beginning fun _ => KeeperPhase where
  phases _ := keeping (Replies StillThere) (Backend.Telling StillThere)
  home _ φ := φ = .rests ∨ φ = .starts
  post _ _ outcome φ := outcome = .ok () ∧ φ = .rests ∨ (∃ e, outcome = .error e) ∧ φ = .starts

theorem Holds.fits (h : Holds φ d) : φ.fits d := by
  rw [Holds] at h
  split at h
  · next hAlone =>
    cases φ with
    | starts => exact h.2
    | works => exact h.2.1
    | reported | opening => trivial
    | _ => cases hAlone
  · exact h.keeper

theorem Holds.wishes (h : Holds φ d) (w : Wish) : Holds φ (w.change d) := by
  rw [Holds] at h ⊢
  split at h
  · next hAlone =>
    rw [if_pos hAlone]
    cases φ with
    | starts | works => cases w <;> exact h
    | reported | opening => cases w <;> exact { (show Agreed d from h) with }
    | _ => cases hAlone
  · next hTogether =>
    rw [if_neg hTogether]
    cases w <;> exact { h with }

theorem keeps : concert.Keeps (fun _ _ => True) fun φ _ d => d.rehooking = !(φ ()).isAlone ∧ Holds (φ ()) d where
  keep _ := rfl
  answered _ _ _ _ _ h := h
  fits := by
    rintro φ past d ⟨⟩ ⟨-, h⟩
    exact h.fits
  takes := by
    rintro φ past d ⟨⟩ ⟨⟩ r _ ⟨hOpen, h⟩ hHome ⟨hClosed, rfl, rfl⟩ -
    have hStarts : φ () = .starts := by
      rcases hHome with hRests | hStarts
      · rw [hClosed, hRests] at hOpen
        cases hOpen
      · exact hStarts
    refine ⟨φ (), ?_, hOpen, h⟩
    rw [hStarts]
    exact passes_start (fun _ => gives_serve) fun _ _ => present_of_telling
  goes := by
    rintro φ past d ⟨⟩ ⟨⟩ asked d' φ' ⟨hOpen, h⟩ hMoves -
    exact ⟨alone_of_moves hOpen hMoves, h.moves hMoves⟩
  done := by
    rintro φ past d ⟨⟩ ⟨⟩ outcome h hPost
    exact ⟨hPost.imp And.right And.right, h⟩
  outside := by
    rintro φ past d ⟨⟩ _ ⟨⟩ ⟨hOpen, h⟩ ⟨w, rfl⟩
    refine ⟨?_, h.wishes w⟩
    cases w <;> exact hOpen

end Beginning

variable {origin : Origin} {index : SourceIndex} {root : Path} {past : List (Moment Unit Unit Debuggee World)}
  {now : Scene Unit Unit Debuggee World Unit fun _ => Except Error Unit}

/-- The beginning leaves the marks as the placer has them. -/
theorem begins_agreed (hLeads : beginning.Leads (.idle (unknown origin index root) ()) past now)
    (hDone : now.busy () = some ((), .done (.ok ()))) : Agreed now.state := by
  have hStart : Beginning.Holds .starts (unknown origin index root) := ⟨rfl, List.Pairwise.nil⟩
  obtain ⟨φ, hPlays, -, hHolds⟩ := hLeads.plays (φ := fun _ => .starts) Beginning.keeps (fun _ => rfl)
    (fun _ => .inr rfl) ⟨rfl, hStart⟩
  have hHere := hPlays ()
  rw [Concert.Plays, hDone] at hHere
  rcases hHere with ⟨-, hRests⟩ | ⟨⟨e, hError⟩, -⟩
  · rw [hRests] at hHolds
    have hConcord : Concord (free []) .rests now.state := hHolds
    exact hConcord.agreed ⟨rfl, rfl⟩ hConcord.user
  · cases hError

end JvmDebug.Debuggee
