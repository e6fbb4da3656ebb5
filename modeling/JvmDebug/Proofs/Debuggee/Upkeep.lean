import JvmDebug.Proofs.Breakpoint.Identity
import JvmDebug.Proofs.Debuggee.Keeping
import JvmDebug.Proofs.Debuggee.Pumping

/-!
# Keeping the placer up to date

The client may change breakpoints and filters at any time, and the pump may be at the placer whenever the keeper is not.
A ledger tells which changes there were, which of them have been seen and which are placed; it is kept whatever is done.
-/

namespace JvmDebug
set_option autoImplicit false

open Jdwp (LoadedClass RequestId)
open BreakpointBook (Change of)

/-- The placer has each source on record once, with the breakpoints and in the revision that are wanted. -/
structure Placer.Carries (p : Placer) (wanted : BreakpointSet) : Prop where
  distinct : p.installed.Distinct
  placed : ∀ q, p.placedWith q = wanted.wanted q

/-- What was placed for an earlier set is true of a later one too, where the revision is the same. -/
theorem Placer.Carries.honest {p : Placer} {before after : List Change} (h : p.Carries (of before).current) :
    p.Honest (of (before ++ after)).current := by
  intro e he hRevision
  have hPlaced := h.placed e.1
  rw [placedWith, h.distinct.find? he, Option.map_some, BreakpointSet.wanted, eq_comm,
    Option.bind_eq_some_iff] at hPlaced
  obtain ⟨breakpoints, hSource, hEntry⟩ := hPlaced
  obtain ⟨n, hEarlier, hEq⟩ := Option.map_eq_some_iff.mp hEntry
  cases hEq
  rw [BreakpointBook.breakpoints_of_later before after hEarlier hRevision]
  exact hSource

namespace Debuggee

/-- Replies of a machine that is there and grants the requests for events. -/
abbrev Willingly (c : Call) (a : Answer c) : Prop := Replies StillThere c a ∧ Grants c a

theorem Syncs.carries {wanted : BreakpointSet} {before now : Placer} {ids : List Int} {earlier later : List Change}
    (h : Syncs Backend.Granting wanted before ids now) (hWanted : wanted = (of (earlier ++ later)).current)
    (hBefore : before.Carries (of earlier).current) :
    now.Carries wanted ∧ now.exception = before.exception := by
  have hLives : Routine.Run Backend.Lives (Placer.sync wanted).run before [] (.ok ids) now [] :=
    h.weaken fun _ _ _ _ => Placer.lives_of_granting
  subst hWanted
  obtain ⟨_, -, -, hMoved⟩ := hLives.satisfies
    (Placer.sync_moved _ (BreakpointBook.tidy_of _) hBefore.distinct hBefore.honest [])
  exact ⟨⟨hMoved.distinct, hMoved.placed⟩, hMoved.exception⟩

theorem SetsFilters.asks {wanted : ExceptionFilters} {before now : Placer}
    (h : SetsFilters Backend.Granting wanted before now) :
    now.installed = before.installed ∧ now.exception.map (·.2) = Placer.asksFor wanted := by
  obtain ⟨_, -, hPost⟩ := h.satisfies (Placer.setFilters_granted wanted before [])
  exact hPost

/-! ## The keeper and the client -/

/-- The jobs of whoever keeps the placer up to date. -/
inductive Upkeep where
  | start
  | rehook

/-- What is taken up for a job. Where both have changed, either may be looked at first. -/
inductive TakesUp : Upkeep → Debuggee → Activity Unit → Prop where
  | start {d : Debuggee} : d.rehooking = false → TakesUp .start d ((fun _ => ()) <$> start.run)
  | breakpoints {d : Debuggee} : hasNewBreakpoints d = true → TakesUp .rehook d rehookBreakpoints
  | filters {d : Debuggee} : hasNewFilters d = true → TakesUp .rehook d rehookFilters

/-- What goes on beside it: the client changes something, or the pump is at the placer for a class. -/
inductive Beside : Debuggee → Debuggee → Prop where
  | wishes {d : Debuggee} (w : Wish) : Beside d (w.change d)
  | prepares {d : Debuggee} {p : Placer} {request : RequestId} {c : LoadedClass}
      {outcome : Except Error (List (Int × UInt32))} : d.rehooking = true → d.placerUser = none →
      Prepares StillThere request c d.placer p outcome → Beside d { d with placer := p }
  | marks {d : Debuggee} (verified : List Int) : Beside d { d with book := d.book.putVerified verified }
  | aside {d d' : Debuggee} : Aside d d' → Beside d d'

def upkeep : Setting Unit Upkeep Debuggee World Unit fun _ => Unit where
  takes _ job d r d' := TakesUp job d r ∧ d' = d
  answers _ c a _ := Willingly c a
  keep _ d := d
  outside d _ d' _ := Beside d d'

/-! ## How far the keeper is -/

namespace Errand

def wanted? : Errand → Option BreakpointSet
  | sync wanted => some wanted
  | filters _ owed => owed.map (·.1)

def filters? : Errand → Option ExceptionFilters
  | sync _ => none
  | filters wanted _ => some wanted

def isSync : Errand → Bool
  | sync _ => true
  | filters .. => false

end Errand

namespace KeeperPhase

/-- The breakpoints that are not reported yet. -/
def wanted? : KeeperPhase → Option BreakpointSet
  | wants wanted | placed wanted _ | owes wanted _ | reported _ wanted => some wanted
  | works _ errand .. => errand.wanted?
  | starts | rests | wantsFilters _ | opening => none

/-- The filters that are not set yet. -/
def filters? : KeeperPhase → Option ExceptionFilters
  | wantsFilters filters => some filters
  | works _ errand .. => errand.filters?
  | _ => none

/-- The breakpoints that were seen last are not placed yet. -/
def isBehind : KeeperPhase → Bool
  | wants _ => true
  | works _ errand .. => errand.isSync
  | _ => false

/-- A sync is under way. -/
def isSyncing : KeeperPhase → Bool
  | works _ errand .. => errand.isSync
  | _ => false

/-- At the placer the keeper remembers what it was like. -/
theorem placer_of_syncing (φ : KeeperPhase) (hSyncing : φ.isSyncing = true) (d d' : Debuggee) :
    φ.placer d = φ.placer d' := by
  cases φ with
  | works => rfl
  | _ => cases hSyncing

end KeeperPhase

/-- The changes of the client, those of them that were seen and those that are placed; the filters that were seen and
those that are set. -/
structure Ledger where
  changes : List Change
  seen : List Change
  placed : List Change
  filters : ExceptionFilters
  asked : ExceptionFilters

/-- What the client has changed, and what of it was seen. -/
structure Ledger.Follows (l : Ledger) (d : Debuggee) : Prop where
  book : d.book.breakpoints = ⟨(of l.changes).current, l.changes.length⟩
  next : d.book.next = (of l.changes).next
  seen : l.seen <+: l.changes
  version : d.seenBreakpoints = l.seen.length
  filters : d.seenFilters ≤ d.book.filters.version
  value : d.seenFilters = d.book.filters.version → d.book.filters.value = l.filters

structure Ledger.Stands (l : Ledger) (φ : KeeperPhase) (d : Debuggee) : Prop where
  follows : l.Follows d
  fits : φ.fits d
  locks : φ.locks = true → d.placerUser = some .rehook
  alone : d.rehooking = !φ.isAlone
  placed : l.placed <+: l.seen
  abreast : φ.isBehind = false → l.placed = l.seen
  carries : (φ.placer d).Carries (of l.placed).current
  wanted : ∀ w, φ.wanted? = some w → w = (of l.seen).current
  synced : d.book.synced ≤ l.seen.length
  reported : φ.wanted? = none → d.book.synced = l.seen.length
  filters : ∀ f, φ.filters? = some f → f = l.filters
  exception : (φ.placer d).exception.map (·.2) = Placer.asksFor l.asked
  asked : φ.filters? = none → l.asked = l.filters

variable {l : Ledger} {φ φ' : KeeperPhase} {d d' : Debuggee} {asked : Option (Asked World)}

theorem Ledger.Follows.current (h : l.Follows d) : d.book.current = (of l.changes).current := by
  rw [BreakpointBook.current, h.book]

/-- Looking at the breakpoints shows all changes that there were. -/
theorem Ledger.Follows.looks (h : l.Follows d) : Follows { l with seen := l.changes } (seeBreakpoints d).2 where
  book := h.book
  next := h.next
  seen := List.prefix_rfl
  version := congrArg Watched.version h.book
  filters := h.filters
  value := h.value

theorem Ledger.Follows.looksFilters (h : l.Follows d) :
    Follows { l with filters := d.book.filters.value } (seeFilters d).2 where
  book := h.book
  next := h.next
  seen := h.seen
  version := h.version
  filters := Nat.le_refl _
  value _ := rfl

/-- What has been seen of the breakpoints counts as many changes as it has in its generation. -/
theorem Ledger.Stands.generation (h : l.Stands φ d) {w : BreakpointSet} (hw : φ.wanted? = some w) :
    w.generation = l.seen.length := by
  rw [h.wanted w hw, BreakpointBook.generation_of]

theorem Ledger.Stands.carries_of_sync (h : l.Stands φ d) {alone : Bool} {w : BreakpointSet} {before now : Placer}
    {ids : List Int} (hφ : φ = .works alone (.sync w) before now) (hSyncs : Syncs Backend.Granting w before ids now) :
    now.Carries (of l.seen).current ∧ now.exception = before.exception := by
  subst hφ
  obtain ⟨later, hSeen⟩ := h.placed
  have hWanted : w = (of l.seen).current := h.wanted w rfl
  exact hWanted ▸ hSyncs.carries (by rw [hWanted, hSeen]) h.carries

theorem Ledger.Stands.carries_of_filters (h : l.Stands φ d) {alone : Bool} {filters : ExceptionFilters}
    {owed : Option (BreakpointSet × List Int)} {before now : Placer}
    (hφ : φ = .works alone (.filters filters owed) before now)
    (hSets : SetsFilters Backend.Granting filters before now) :
    now.Carries (of l.placed).current ∧ now.exception.map (·.2) = Placer.asksFor l.filters := by
  subst hφ
  obtain ⟨hInstalled, hAsks⟩ := hSets.asks
  refine ⟨⟨hInstalled ▸ h.carries.distinct, fun q => ?_⟩, ?_⟩
  · rw [Placer.placedWith, hInstalled]
    exact h.carries.placed q
  · rw [hAsks, h.filters filters rfl]

theorem Ledger.Stands.synced_of_reported (h : l.Stands φ d) {w : BreakpointSet} (hw : φ.wanted? = some w) :
    (d.book.putSynced w.generation).synced = w.generation := by
  change max d.book.synced w.generation = w.generation
  exact Nat.max_eq_right (h.generation hw ▸ h.synced)

/-- Whatever the keeper does, it keeps to its ledger. -/
theorem Ledger.Stands.moves (h : l.Stands φ d) (hMoves : KeeperPhase.Moves Backend.Granting φ asked d d' φ') :
    ∃ l' : Ledger, l'.Stands φ' d' := by
  cases hMoves with
  | idles | asks | asksThere => exact ⟨l, h⟩
  | looksAlone =>
    -- All changes have been seen now, but what is placed is as before.
    refine ⟨{ l with seen := l.changes }, { h with
      follows := h.follows.looks, fits := rfl, placed := h.placed.trans h.follows.seen, abreast := nofun
      synced := Nat.le_trans h.synced h.follows.seen.length_le, reported := nofun, wanted := ?_ }⟩
    rintro _ ⟨⟩
    exact h.follows.current
  | looks =>
    refine ⟨{ l with seen := l.changes }, { h with
      follows := h.follows.looks, fits := fun _ => h.carries.distinct, placed := h.placed.trans h.follows.seen
      abreast := nofun, synced := Nat.le_trans h.synced h.follows.seen.length_le, reported := nofun, wanted := ?_ }⟩
    rintro _ ⟨⟩
    exact h.follows.current
  | looksOn hSyncs =>
    obtain ⟨hCarries, hException⟩ := h.carries_of_sync rfl hSyncs
    refine ⟨{ l with filters := d.book.filters.value, placed := l.seen }, { h with
      follows := { h.follows.looksFilters with }, placed := List.prefix_rfl, abreast := fun _ => rfl
      carries := hCarries, exception := hException ▸ h.exception, asked := nofun, reported := nofun, filters := ?_ }⟩
    rintro _ ⟨⟩
    rfl
  | reportsAlone hSets =>
    obtain ⟨hCarries, hAsks⟩ := h.carries_of_filters rfl hSets
    have hNow : d.placer = _ := h.fits
    exact ⟨{ l with asked := l.filters }, { h with
      follows := { h.follows with }, fits := trivial, carries := hNow ▸ hCarries, exception := hNow ▸ hAsks
      asked := fun _ => rfl, filters := nofun }⟩
  | finishesAlone =>
    have hSynced := (h.synced_of_reported rfl).trans (h.generation rfl)
    exact ⟨l, { h with
      follows := { h.follows with }, synced := Nat.le_of_eq hSynced, reported := fun _ => hSynced, wanted := nofun }⟩
  | opens => exact ⟨l, { h with follows := { h.follows with }, alone := rfl }⟩
  | looksFilters =>
    refine ⟨{ l with filters := d.book.filters.value }, { h with
      follows := h.follows.looksFilters, fits := trivial, asked := nofun, filters := ?_ }⟩
    rintro _ ⟨⟩
    rfl
  | takes hFree => exact ⟨l, { h with follows := { h.follows with }, fits := rfl, locks := fun _ => rfl }⟩
  | takesFilters hFree => exact ⟨l, { h with follows := { h.follows with }, fits := rfl, locks := fun _ => rfl }⟩
  | places p =>
    -- The ledger goes by the placer as it was before the work.
    exact ⟨l, { h with follows := { h.follows with }, fits := rfl }⟩
  | completes hSyncs =>
    obtain ⟨hCarries, hException⟩ := h.carries_of_sync rfl hSyncs
    have hNow : d.placer = _ := h.fits
    exact ⟨{ l with placed := l.seen }, { h with
      follows := { h.follows with }, placed := List.prefix_rfl, abreast := fun _ => rfl, carries := hNow ▸ hCarries
      exception := (congrArg (Option.map (·.2)) (hNow ▸ hException)).trans h.exception }⟩
  | leaves => exact ⟨l, { h with follows := { h.follows with }, fits := trivial, locks := nofun }⟩
  | leavesFilters hSets =>
    obtain ⟨hCarries, hAsks⟩ := h.carries_of_filters rfl hSets
    have hNow : d.placer = _ := h.fits
    exact ⟨{ l with asked := l.filters }, { h with
      follows := { h.follows with }, fits := trivial, locks := nofun, carries := hNow ▸ hCarries
      exception := hNow ▸ hAsks, asked := fun _ => rfl, filters := nofun }⟩
  | reports => exact ⟨l, { h with follows := { h.follows with } }⟩
  | finishes =>
    have hSynced := (h.synced_of_reported rfl).trans (h.generation rfl)
    exact ⟨l, { h with
      follows := { h.follows with }, synced := Nat.le_of_eq hSynced, reported := fun _ => hSynced, wanted := nofun }⟩

/-- The client makes one more change, which has not been seen yet. -/
theorem Ledger.Follows.sets (h : l.Follows d) (source : Source) (requested : List RequestedBreakpoint) :
    Follows { l with changes := l.changes ++ [⟨source, requested⟩] }
      { d with book := (d.book.set source requested).2 } where
  book := by
    have hSet : (d.book.set source requested).2.current = (of (l.changes ++ [⟨source, requested⟩])).current := by
      rw [BreakpointBook.of_snoc]
      change (d.book.current.replace _ _ _).1 = ((of l.changes).current.replace _ _ _).1
      rw [h.current, h.next]
    have hVersion : d.book.breakpoints.version = l.changes.length := congrArg Watched.version h.book
    rw [List.length_append, List.length_singleton, ← hSet, ← hVersion]
    rfl
  next := by
    rw [BreakpointBook.of_snoc]
    change (d.book.current.replace _ _ _).2.2 = ((of l.changes).current.replace _ _ _).2.2
    rw [h.current, h.next]
  seen := h.seen.trans (List.prefix_append ..)
  version := h.version
  filters := h.filters
  value := h.value

theorem Ledger.Follows.setsFilters (h : l.Follows d) (filters : ExceptionFilters) :
    l.Follows { d with book := d.book.setFilters filters } := by
  have hCases : d.book.filters.putIfNew filters = d.book.filters ∨
      d.book.filters.putIfNew filters = ⟨filters, d.book.filters.version + 1⟩ := by
    rw [Watched.putIfNew]
    split
    · exact .inl rfl
    · exact .inr rfl
  refine { h with filters := ?_, value := ?_ }
  · change d.seenFilters ≤ (d.book.filters.putIfNew filters).version
    rcases hCases with hSame | hNew
    · rw [hSame]
      exact h.filters
    · rw [hNew]
      exact Nat.le_succ_of_le h.filters
  · change d.seenFilters = (d.book.filters.putIfNew filters).version → (d.book.filters.putIfNew filters).value = _
    rcases hCases with hSame | hNew
    · rw [hSame]
      exact h.value
    · rw [hNew]
      intro hSeen
      exact absurd (hSeen ▸ h.filters) (Nat.not_succ_le_self _)

/-- What the client and the pump do leaves true what the keeper goes by. -/
theorem Ledger.Stands.beside (h : l.Stands φ d) (hBeside : Beside d d') : ∃ l' : Ledger, l'.Stands φ d' := by
  cases hBeside with
  | wishes w =>
    cases w with
    | breakpoints source requested => exact ⟨_, { h with follows := h.follows.sets source requested }⟩
    | filters filters => exact ⟨l, { h with follows := h.follows.setsFilters filters }⟩
  | prepares hOpen hFree hPrepares =>
    obtain ⟨_, -, hFinds⟩ := hPrepares.finds
    have hTogether : φ.isAlone = false := by simpa [hOpen] using h.alone
    have hAway : φ.locks = false := by
      by_contra hLocks
      have hTaken := h.locks (by simpa using hLocks)
      rw [hFree] at hTaken
      cases hTaken
    have hHere := φ.placer_of_away hTogether hAway
    obtain ⟨hMoved, -⟩ := hFinds (hHere d ▸ h.carries.distinct)
    refine ⟨l, { h with follows := { h.follows with }, fits := ?_, carries := ?_, exception := ?_ }⟩
    · exact φ.fits_of_away hTogether hAway fun _ => hMoved.distinct
    · rw [hHere]
      exact ⟨hMoved.distinct, fun q => (hMoved.placed q).trans (hHere d ▸ h.carries.placed q)⟩
    · rw [hHere, hMoved.exception]
      exact hHere d ▸ h.exception
  | marks verified => exact ⟨l, { h with follows := { h.follows with } }⟩
  | aside hAside =>
    obtain ⟨types, detailField, pendingSteps, rfl⟩ := hAside
    exact ⟨l, { h with follows := { h.follows with } }⟩

end Debuggee
end JvmDebug
