import JvmDebug.Proofs.Debuggee.Upkeep
import JvmDebug.Proofs.Routine.Replay

/-!
# No change of the client is lost

The beginning looks at breakpoints and filters, and the rehook looks again as long as there is something that it has not
seen; it sees only what is newest then. So once the rehook has nothing left to do, the machine has what the client
wants, and what is reported as done has been done.
-/

namespace JvmDebug.Debuggee
set_option autoImplicit false

open BreakpointBook (of)

abbrev Past := List (Moment Unit Upkeep Debuggee World)

/-- A sync of these breakpoints, which were what the client wanted, has been completed. -/
def Completed (wanted : BreakpointSet) (past : Past) : Prop :=
  (∃ e ∈ past, e.before.book.current = wanted) ∧
    ∃ first e between e' since ids, past = first ++ e :: between ++ e' :: since ∧
      Syncs Backend.Granting wanted e.after.placer ids e'.before.placer ∧
      ∀ q, e'.before.placer.placedWith q = wanted.wanted q

theorem Completed.snoc {wanted : BreakpointSet} {past : Past} (h : Completed wanted past)
    (e : Moment Unit Upkeep Debuggee World) : Completed wanted (past ++ [e]) := by
  obtain ⟨⟨x, hx, hWanted⟩, first, y, between, z, since, ids, rfl, hRest⟩ := h
  exact ⟨⟨x, List.mem_append_left _ hx, hWanted⟩, first, y, between, z, since ++ [e], ids, by simp, hRest⟩

variable {l : Ledger} {φ φ' : KeeperPhase} {d d' : Debuggee} {asked : Option (Asked World)} {past : Past}
  {e : Moment Unit Upkeep Debuggee World}

/-- What has been done for what is wanted. -/
structure Accounts (φ : KeeperPhase) (past : Past) (d : Debuggee) : Prop where
  held : ∀ w, φ.wanted? = some w → ∃ e ∈ past, e.before.book.current = w
  begun : φ.isSyncing = true → ∃ first e since, past = first ++ e :: since ∧ e.after.placer = φ.placer d
  completed : ∀ w, φ.wanted? = some w → φ.isBehind = false → Completed w past
  done : d.book.synced = 0 ∨ ∃ w, d.book.synced ≤ w.generation ∧ Completed w past
  grows : ∀ e ∈ past, e.before.book.synced ≤ e.after.book.synced

/-- What was done before stays done. -/
theorem Accounts.snoc (h : Accounts φ past d) (hGrows : e.before.book.synced ≤ e.after.book.synced) :
    Accounts φ (past ++ [e]) d where
  held w hw := by
    obtain ⟨x, hx, hWanted⟩ := h.held w hw
    exact ⟨x, List.mem_append_left _ hx, hWanted⟩
  begun hSyncing := by
    obtain ⟨first, x, since, rfl, hAfter⟩ := h.begun hSyncing
    exact ⟨first, x, since ++ [e], by simp, hAfter⟩
  completed w hw hBehind := (h.completed w hw hBehind).snoc e
  done := h.done.imp_right fun ⟨w, hLe, hCompleted⟩ => ⟨w, hLe, hCompleted.snoc e⟩
  grows x hx := by
    rcases List.mem_append.mp hx with hx | hx
    · exact h.grows x hx
    · rw [List.mem_singleton.mp hx]
      exact hGrows

/-- A sync that comes to its end has been completed. -/
theorem Accounts.completed_of_sync (h : Accounts φ past d) (hStands : l.Stands φ d) {alone : Bool} {w : BreakpointSet}
    {before now : Placer} {ids : List Int} (hφ : φ = .works alone (.sync w) before now)
    (hSyncs : Syncs Backend.Granting w before ids now) (hBefore : e.before = d) : Completed w (past ++ [e]) := by
  obtain ⟨hCarries, -⟩ := hStands.carries_of_sync hφ hSyncs
  rw [← hStands.wanted w (by rw [hφ]; rfl)] at hCarries
  subst hφ hBefore
  obtain ⟨x, hx, hWanted⟩ := h.held w rfl
  obtain ⟨first, y, since, rfl, hAfter⟩ := h.begun rfl
  have hNow : e.before.placer = now := hStands.fits
  refine ⟨⟨x, List.mem_append_left _ hx, hWanted⟩, first, y, since, e, [], ids, by simp, ?_, ?_⟩
  · rw [hAfter, hNow]
    exact hSyncs
  · rw [hNow]
    exact hCarries.placed

theorem KeeperPhase.Moves.synced_le {fine : Fine} (hMoves : Moves fine φ asked d d' φ') :
    d.book.synced ≤ d'.book.synced := by
  cases hMoves with
  | finishes | finishesAlone => exact Nat.le_max_left ..
  | _ => exact Nat.le_refl _

theorem Beside.synced_eq (hBeside : Beside d d') : d'.book.synced = d.book.synced := by
  cases hBeside with
  | wishes w => cases w <;> rfl
  | aside hAside =>
    obtain ⟨_, _, _, rfl⟩ := hAside
    rfl
  | prepares | marks => rfl

/-- Whatever the keeper does, its accounts hold. -/
theorem Accounts.moves (h : Accounts φ past d) (hStands : l.Stands φ d)
    (hMoves : KeeperPhase.Moves Backend.Granting φ asked d d' φ') (hBefore : e.before = d) (hAfter : e.after = d') :
    Accounts φ' (past ++ [e]) d' := by
  have hLater : Accounts φ (past ++ [e]) d := h.snoc (by rw [hBefore, hAfter]; exact hMoves.synced_le)
  have hSeen : ∀ w, some d.book.current = some w → ∃ x ∈ past ++ [e], x.before.book.current = w := by
    rintro _ ⟨⟩
    exact ⟨e, List.mem_append_right _ (List.mem_singleton_self e), by rw [hBefore]⟩
  cases hMoves with
  | idles | asks | asksThere => exact hLater
  | looksAlone =>
    exact { hLater with held := hSeen, begun := fun _ => ⟨past, e, [], rfl, by rw [hAfter]; rfl⟩, completed := nofun }
  | looks => exact { hLater with held := hSeen, begun := nofun, completed := nofun }
  | looksOn hSyncs =>
    refine { hLater with held := hLater.held, begun := nofun, completed := ?_ }
    rintro _ ⟨⟩ -
    exact h.completed_of_sync hStands rfl hSyncs hBefore
  | reportsAlone => exact { hLater with begun := nofun }
  | finishesAlone =>
    have hCompleted := hLater.completed _ rfl rfl
    refine { hLater with held := nofun, begun := nofun, completed := nofun, done := .inr ⟨_, ?_, hCompleted⟩ }
    exact Nat.le_of_eq (hStands.synced_of_reported rfl)
  | opens => exact { hLater with }
  | looksFilters => exact { hLater with held := nofun, begun := nofun, completed := nofun }
  | takes => exact { hLater with begun := fun _ => ⟨past, e, [], rfl, by rw [hAfter]; rfl⟩, completed := nofun }
  | takesFilters => exact { hLater with begun := nofun }
  | places p => exact { hLater with }
  | completes hSyncs =>
    refine { hLater with begun := nofun, completed := ?_ }
    rintro _ ⟨⟩ -
    exact h.completed_of_sync hStands rfl hSyncs hBefore
  | leaves => exact { hLater with begun := nofun }
  | leavesFilters => exact { hLater with held := nofun, begun := nofun, completed := nofun }
  | reports => exact { hLater with begun := nofun }
  | finishes =>
    have hCompleted := hLater.completed _ rfl rfl
    refine { hLater with held := nofun, begun := nofun, completed := nofun, done := .inr ⟨_, ?_, hCompleted⟩ }
    exact Nat.le_of_eq (hStands.synced_of_reported rfl)

theorem Accounts.beside (h : Accounts φ past d) (hBeside : Beside d d') (hBefore : e.before = d)
    (hAfter : e.after = d') : Accounts φ (past ++ [e]) d' := by
  have hSame := hBeside.synced_eq
  have hLater : Accounts φ (past ++ [e]) d := h.snoc (Nat.le_of_eq (by rw [hBefore, hAfter, hSame]))
  refine { hLater with begun := fun hSyncing => ?_, done := hSame.symm ▸ hLater.done }
  rw [φ.placer_of_syncing hSyncing d' d]
  exact hLater.begun hSyncing

/-! ## Every run -/

namespace Upkeep

def concert : Concert upkeep fun _ => KeeperPhase where
  phases _ := keeping Willingly Backend.Granting
  home _ φ := φ = .rests ∨ φ = .starts
  post _ _ _ φ := φ = .rests ∨ φ = .starts

structure Holds (φ : KeeperPhase) (past : Past) (d : Debuggee) : Prop where
  stands : ∃ l : Ledger, l.Stands φ d
  accounts : Accounts φ past d

theorem Holds.stays (h : Holds φ past d) (hSame : e.after = e.before) : Holds φ (past ++ [e]) d :=
  ⟨h.stands, h.accounts.snoc (Nat.le_of_eq (by rw [hSame]))⟩

theorem passes {job : Upkeep} {r : Activity Unit} (hTakes : TakesUp job d r) (h : Holds φ past d)
    (hHome : φ = .rests ∨ φ = .starts) :
    r.Passes (keeping Willingly Backend.Granting) (fun _ φ => φ = .rests ∨ φ = .starts) φ := by
  have hFine : ∀ c, (onWire (Backend.serve c)).Gives Willingly (Backend.Granting c) := fun _ => gives_serve_granting
  have hPresent : ∀ c a, Backend.Granting c a → Backend.Present c a := fun _ _ h => h.1
  obtain ⟨l, hStands⟩ := h.stands
  have hOpen := hStands.alone
  cases hTakes with
  | start hClosed =>
    rcases hHome with rfl | rfl
    · rw [hClosed] at hOpen
      cases hOpen
    · exact Routine.Passes.map ((passes_start hFine hPresent).mono fun _ _ => Or.imp And.right And.right)
  | breakpoints hNew =>
    rcases hHome with rfl | rfl
    · exact (passes_rehookBreakpoints hFine hPresent).mono fun _ _ => .inl
    · rw [hasNewBreakpoints, hOpen] at hNew
      cases hNew
  | filters hNew =>
    rcases hHome with rfl | rfl
    · exact (passes_rehookFilters hFine hPresent).mono fun _ _ => .inl
    · rw [hasNewFilters, hOpen] at hNew
      cases hNew

theorem keeps : concert.Keeps (fun _ _ => True) fun φ past d => Holds (φ ()) past d where
  keep _ := rfl
  answered _ _ _ _ _ h := h
  fits := by
    rintro φ past d ⟨⟩ h
    obtain ⟨l, hStands⟩ := h.stands
    exact hStands.fits
  takes := by
    rintro φ past d ⟨⟩ job r _ h hHome ⟨hTakes, rfl⟩ -
    exact ⟨φ (), passes hTakes h hHome, h.stays rfl⟩
  goes := by
    rintro φ past d ⟨⟩ job asked d' φ' h hMoves -
    obtain ⟨l, hStands⟩ := h.stands
    exact ⟨hStands.moves hMoves, h.accounts.moves hStands hMoves rfl rfl⟩
  done := by
    rintro φ past d ⟨⟩ job a h hHome
    exact ⟨hHome, h.stays rfl⟩
  outside := by
    rintro φ past d ⟨⟩ d' ⟨⟩ h hBeside
    obtain ⟨l, hStands⟩ := h.stands
    exact ⟨hStands.beside hBeside, h.accounts.beside hBeside rfl rfl⟩

end Upkeep

/-- A debuggee of which nothing is known yet. -/
def unknown (origin : Origin) (index : SourceIndex) (root : Path) : Debuggee :=
  { origin, book := {}, placer := { index, root } }

/-- Nothing that the client wants is left to be done. -/
structure UpToDate (d : Debuggee) : Prop where
  breakpoints : d.placer.Carries d.book.current
  exception : d.placer.exception.map (·.2) = Placer.asksFor d.book.filters.value
  synced : d.book.synced = d.book.current.generation

/-- What is true wherever a run has come to: the debuggee is up to date once the rehook has nothing to take up, what is
reported has been completed, and nothing is taken back. -/
structure LosesNothing (past : Past) (now : Scene Unit Upkeep Debuggee World Unit fun _ => Unit) : Prop where
  upToDate : now.busy () = none → now.state.rehooking = true → hasNewBreakpoints now.state = false →
    hasNewFilters now.state = false → UpToDate now.state
  completed : ∀ g ≥ 1, now.state.book.isSynced g = true → ∃ w, g ≤ w.generation ∧ Completed w past
  grows : ∀ e ∈ past, e.before.book.synced ≤ e.after.book.synced

variable {origin : Origin} {index : SourceIndex} {root : Path}
  {now : Scene Unit Upkeep Debuggee World Unit fun _ => Unit}

theorem holds_unknown : Upkeep.Holds .starts [] (unknown origin index root) where
  stands := ⟨⟨[], [], [], {}, {}⟩,
    { follows := ⟨rfl, rfl, List.prefix_rfl, rfl, Nat.le_refl _, fun _ => rfl⟩
      fits := List.Pairwise.nil, locks := nofun, alone := rfl, placed := List.prefix_rfl, abreast := fun _ => rfl
      carries := ⟨List.Pairwise.nil, fun _ => rfl⟩, wanted := nofun, synced := Nat.le_refl _, reported := fun _ => rfl
      filters := nofun, exception := rfl, asked := fun _ => rfl }⟩
  accounts := ⟨nofun, nofun, nofun, .inl rfl, List.forall_mem_nil _⟩

theorem Ledger.Stands.upToDate (h : l.Stands .rests d) (hBreakpoints : hasNewBreakpoints d = false)
    (hFilters : hasNewFilters d = false) : UpToDate d := by
  have hOpen : d.rehooking = true := h.alone
  have hVersion : d.book.breakpoints.version = d.seenBreakpoints := by
    simpa [hasNewBreakpoints, hOpen] using hBreakpoints
  have hSeenFilters : d.book.filters.version = d.seenFilters := by simpa [hasNewFilters, hOpen] using hFilters
  -- The client has made as many changes as were seen.
  have hLength : l.seen.length = l.changes.length := by
    rw [← h.follows.version, ← hVersion]
    exact congrArg Watched.version h.follows.book
  have hAll : l.seen = l.changes := h.follows.seen.eq_of_length hLength
  have hCurrent : d.book.current = (of l.seen).current := by rw [h.follows.current, hAll]
  refine ⟨?_, ?_, ?_⟩
  · rw [hCurrent, ← h.abreast rfl]
    exact h.carries
  · rw [h.follows.value hSeenFilters.symm, ← h.asked rfl]
    exact h.exception
  · rw [hCurrent, BreakpointBook.generation_of]
    exact h.reported rfl

theorem loses_nothing (hLeads : upkeep.Leads (.idle (unknown origin index root) ()) past now) :
    LosesNothing past now := by
  obtain ⟨φ, hPlays, hHolds⟩ := hLeads.plays (φ := fun _ => .starts) Upkeep.keeps (fun _ => rfl) (fun _ => .inr rfl)
    holds_unknown
  refine ⟨fun hFree hOpen hBreakpoints hFilters => ?_, fun g hSome hSynced => ?_, hHolds.accounts.grows⟩
  · have hHome := hPlays ()
    rw [Concert.Plays, hFree] at hHome
    obtain ⟨l, hStands⟩ := hHolds.stands
    rcases hHome with hRests | hStarts
    · rw [hRests] at hStands
      exact hStands.upToDate hBreakpoints hFilters
    · have hAlone := hStands.alone
      rw [hStarts, hOpen] at hAlone
      cases hAlone
  · have hLe : g ≤ now.state.book.synced := by simpa [BreakpointBook.isSynced] using hSynced
    rcases hHolds.accounts.done with hNone | ⟨w, hDone, hCompleted⟩
    · omega
    · exact ⟨w, Nat.le_trans hLe hDone, hCompleted⟩

/-- Nobody needs to wait for the generation before the first change, of which nothing has been completed yet. -/
theorem isSynced_unbegun : ∃ now, upkeep.Leads (.idle (unknown .attached {} ⟨"/w"⟩) ()) [] now ∧
    now.state.book.isSynced 0 = true ∧ ¬∃ w, 0 ≤ w.generation ∧ Completed w [] := by
  refine ⟨_, .nil, rfl, ?_⟩
  rintro ⟨w, -, ⟨e, he, -⟩, -⟩
  cases he

/-! Changes while the beginning is under way -/

/-- A machine that does whatever it is asked to, and knows no class. -/
def grants (_ : Jdwp.Command) : Except Jdwp.Error Jdwp.Reply := .ok ⟨0, 0, List.replicate 20 0⟩

theorem willingly_grants (c : Jdwp.Command) : Willingly (.command c) (grants c) := by
  refine ⟨nofun, ?_⟩
  rintro r rfl
  exact ⟨0, rfl⟩

def obliging : Script upkeep Upkeep Wish where
  take?
    | _, .start, d => if d.rehooking = false then some (.start, (fun _ => ()) <$> start.run, d) else none
    | _, .rehook, d =>
      if hasNewBreakpoints d = true then some (.rehook, rehookBreakpoints, d)
      else if hasNewFilters d = true then some (.rehook, rehookFilters, d)
      else none
  answer?
    | (), .command c => some (grants c, ())
    | (), .publish _ => some ((), ())
    | (), .exitCode => some (none, ())
    | (), .kill => some (.ok (), ())
  come?
    | w, d, () => some (w.change d, ())
  takes {_ hint d _ _ _} h := by
    cases hint with
    | start =>
      dsimp only at h
      split at h
      · next hClosed =>
        cases h
        exact ⟨.start hClosed, rfl⟩
      · cases h
    | rehook =>
      dsimp only at h
      split at h
      · next hNew =>
        cases h
        exact ⟨.breakpoints hNew, rfl⟩
      · split at h
        · next hNew =>
          cases h
          exact ⟨.filters hNew, rfl⟩
        · cases h
  answers {_ c _ _} hAnswer := by
    cases c with
    | command c =>
      cases hAnswer
      exact willingly_grants c
    | _ => exact ⟨trivial, trivial⟩
  outside {w _ _ _ _} h := by
    cases h
    exact .wishes w

def goesOn (steps : Nat) : List (Cue Unit Upkeep Wish) := List.replicate steps (.goesOn ())

def source : Source := .ofPath ⟨"/w/A.java"⟩

def lineThree : RequestedBreakpoint := ⟨⟨source, 3, none⟩, none⟩

/-- The beginning has looked at both already when the client changes them; the rehook comes to each of them. -/
def changesLate : List (Cue Unit Upkeep Wish) :=
  .takesUp () .start :: goesOn 14 ++
    [.outside (.breakpoints source [lineThree]), .outside (.filters ⟨true, false⟩)] ++ goesOn 2 ++
    .isDone () :: .takesUp () .rehook :: goesOn 13 ++ .isDone () :: .takesUp () .rehook :: goesOn 8 ++ [.isDone ()]

theorem loses_nothing_late : ∃ past now, upkeep.Leads (.idle (unknown .attached {} ⟨"/w"⟩) ()) past now ∧
    now.state.book.current.generation = 1 ∧ UpToDate now.state ∧ ∃ w, 1 ≤ w.generation ∧ Completed w past := by
  obtain ⟨past, now, hLeads, hCheck⟩ := obliging.leads_of_check changesLate (.idle (unknown .attached {} ⟨"/w"⟩) ())
    (fun _ now => (now.busy ()).isNone && (now.state.rehooking && (!hasNewBreakpoints now.state &&
      (!hasNewFilters now.state && (decide (now.state.book.current.generation = 1) && now.state.book.isSynced 1)))))
    (by decide +kernel)
  simp only [Bool.and_eq_true, Bool.not_eq_true', Option.isNone_iff_eq_none, decide_eq_true_eq] at hCheck
  obtain ⟨hFree, hOpen, hBreakpoints, hFilters, hGeneration, hSynced⟩ := hCheck
  have hAll := loses_nothing hLeads
  exact ⟨past, now, hLeads, hGeneration, hAll.upToDate hFree hOpen hBreakpoints hFilters,
    hAll.completed 1 (Nat.le_refl 1) hSynced⟩

end JvmDebug.Debuggee
