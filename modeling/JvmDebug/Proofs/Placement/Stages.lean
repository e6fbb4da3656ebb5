import JvmDebug.Proofs.Placement.Aims
import JvmDebug.Proofs.Placement.Sync

/-!
# The stages of placing

All that a placer does for sources comes in stages: one is cleared, placed anew, or placed in one more class. A stage
has the answers to its calls, and with these it says what the placer turns into. On a machine that may refuse calls but
does not go, a sync and a report go from stage to stage until they are done.
-/

namespace JvmDebug.Placer
set_option autoImplicit false

open Jdwp (LoadedClass RequestId EventKind)
open Backend (History Interleaved Alive)

inductive Stage where
  | clear (path : Path) (revision : Nat) (locations watches : List (RequestId × Except Jdwp.Error Unit))
  | install (path : Path) (revision : Nat) (breakpoints : List Breakpoint) (searches : List Search)
  | visit (path : Path) (revision : Nat) (tour : Tour) (found : List (Int × UInt32))

namespace Stage

def calls : Stage → History
  | .clear _ _ locations watches =>
    locations.map (fun x => .answered (.clearBreakpoint x.1) x.2) ++ watches.map fun x => .answered (.clearWatch x.1) x.2
  | .install _ _ _ searches => searches.flatMap (·.calls)
  | .visit _ _ tour _ => tour.calls

/-- A stage of a sync: what is stale is cleared, and what is wanted is placed. -/
def Of (wanted : BreakpointSet) : Stage → Prop
  | .clear path revision _ _ => wanted.revisions.find? path ≠ some revision
  | .install path revision breakpoints _ =>
    (path, breakpoints) ∈ wanted.bySource ∧ revision = (wanted.revisions.find? path).getD 0
  | .visit .. => False

end Stage

/-- What one stage makes of a placer. -/
inductive Turns (p : Placer) : Stage → Placer → Prop where
  | clear {path : Path} {i : Installed} {locations watches : List (RequestId × Except Jdwp.Error Unit)} :
      p.installed.find? path = some i → locations.map (·.1) = i.placements.map (·.request) →
      watches.map (·.1) = i.watches →
      Turns p (.clear path i.revision locations watches)
        { p with installed := PathMap.erase p.installed path, watches := p.watches.filter (·.1 ∉ i.watches) }
  | install {path : Path} {revision : Nat} {breakpoints : List Breakpoint} {searches : List Search} :
      p.installed.find? path = none → searches.map (·.name) = p.candidates path → (∀ s ∈ searches, s.About breakpoints) →
      Turns p (.install path revision breakpoints searches)
        ((p.watching path (searches.flatMap (·.watches))).put path
          (Installed.grow { revision, breakpoints } (searches.flatMap (·.aims)) (searches.flatMap (·.watches))))
  | visit {path : Path} {i : Installed} {tour : Tour} :
      (path, i) ∈ p.installed → tour.aims.map (·.breakpoint) = i.breakpoints →
      Turns p (.visit path i.revision tour (gained i.verified tour.aims))
        ((p.take path).2.put path (i.grow tour.aims []))

inductive Goes (p : Placer) : List Stage → Placer → Prop where
  | nil : Goes p [] p
  | snoc {stages : List Stage} {stage : Stage} {p₁ p' : Placer} :
      Goes p stages p₁ → Turns p₁ stage p' → Goes p (stages ++ [stage]) p'

variable {path : Path} {stages stages' : List Stage} {stage : Stage} {wanted : BreakpointSet} {p p₁ p' : Placer}
  {h h₁ h' : History}

theorem Goes.trans (hFirst : Goes p stages p₁) (hSecond : Goes p₁ stages' p') : Goes p (stages ++ stages') p' := by
  induction hSecond with
  | nil => simpa using hFirst
  | snoc _ hTurns ih =>
    rw [← List.append_assoc]
    exact ih.snoc hTurns

theorem Goes.single (hTurns : Turns p stage p') : Goes p [stage] p' :=
  (Goes.snoc .nil hTurns : Goes p ([] ++ [stage]) p')

theorem Turns.distinct (hTurns : Turns p stage p') (hDistinct : p.installed.Distinct) : p'.installed.Distinct := by
  cases hTurns with
  | @clear path _ _ _ _ _ _ => exact hDistinct.erase path
  | install hNone _ _ =>
    simp only [put, installed_watching]
    exact hDistinct.insert _ hNone
  | @visit path i tour _ _ =>
    apply (hDistinct.erase path).insert
    simp [PathMap.find?_erase]

theorem Goes.distinct (hGoes : Goes p stages p') (hDistinct : p.installed.Distinct) : p'.installed.Distinct := by
  induction hGoes with
  | nil => exact hDistinct
  | snoc _ hTurns ih => exact hTurns.distinct ih

/-- A placer went through some stages while the machine answered their calls. -/
structure Passes (p : Placer) (h : History) (stages : List Stage) (p' : Placer) (h' : History) : Prop where
  goes : Goes p stages p'
  calls : Backend.calls h' = Backend.calls h ++ stages.flatMap (·.calls)

theorem Passes.refl : Passes p h [] p h := ⟨.nil, (List.append_nil _).symm⟩

theorem Passes.trans (hFirst : Passes p h stages p₁ h₁) (hSecond : Passes p₁ h₁ stages' p' h') :
    Passes p h (stages ++ stages') p' h' where
  goes := hFirst.goes.trans hSecond.goes
  calls := by rw [hSecond.calls, hFirst.calls, List.flatMap_append, List.append_assoc]

theorem Passes.single (hTurns : Turns p stage p') (hCalls : Backend.calls h' = Backend.calls h ++ stage.calls) :
    Passes p h [stage] p' h' :=
  ⟨.single hTurns, by simpa using hCalls⟩

/-! ## Clearing -/

theorem clearLocations_passes (rs : List RequestId) (p : Placer) (h : History) :
    Succeeds (Interleaved Alive) (fun _ p' h' => ∃ answers : List (RequestId × Except Jdwp.Error Unit),
      answers.map (·.1) = rs ∧ p' = p ∧
      Backend.calls h' = Backend.calls h ++ answers.map fun x => .answered (.clearBreakpoint x.1) x.2)
      (clearLocations rs) p h := by
  induction rs generalizing h with
  | nil => exact Succeeds.pure ⟨[], rfl, rfl, (List.append_nil _).symm⟩
  | cons r rest ih =>
    have hRest : ∀ (answer : Except Jdwp.Error Unit) (h₁ : History), Interleaved Alive h (.clearBreakpoint r) answer h₁ →
        Succeeds (Interleaved Alive) (fun _ p' h' => ∃ answers : List (RequestId × Except Jdwp.Error Unit),
          answers.map (·.1) = r :: rest ∧ p' = p ∧
          Backend.calls h' = Backend.calls h ++ answers.map fun x => .answered (.clearBreakpoint x.1) x.2)
          (clearLocations rest) p h₁ := by
      intro answer h₁ hAnswer
      apply Succeeds.mono _ (ih h₁)
      rintro _ p' h' ⟨answers, rfl, rfl, hCalls⟩
      refine ⟨(r, answer) :: answers, rfl, rfl, ?_⟩
      rw [hCalls, hAnswer.calls, List.append_assoc]
      rfl
    apply Succeeds.bind
    apply Succeeds.try_
    intro answer h₁ hAnswer
    constructor
    · rintro _ rfl
      exact hRest _ h₁ hAnswer
    · rintro e rfl
      exact ⟨hAnswer.tolerable rfl, hRest _ h₁ hAnswer⟩

theorem clearWatches_passes (rs : List RequestId) (p : Placer) (h : History) :
    Succeeds (Interleaved Alive) (fun _ p' h' => ∃ answers : List (RequestId × Except Jdwp.Error Unit),
      answers.map (·.1) = rs ∧ p' = { p with watches := p.watches.filter (·.1 ∉ rs) } ∧
      Backend.calls h' = Backend.calls h ++ answers.map fun x => .answered (.clearWatch x.1) x.2)
      (clearWatches rs) p h := by
  induction rs generalizing p h with
  | nil => exact Succeeds.pure ⟨[], rfl, by simp, (List.append_nil _).symm⟩
  | cons r rest ih =>
    have hRest : ∀ (answer : Except Jdwp.Error Unit) (h₁ : History), Interleaved Alive h (.clearWatch r) answer h₁ →
        Succeeds (Interleaved Alive) (fun _ p' h' => ∃ answers : List (RequestId × Except Jdwp.Error Unit),
          answers.map (·.1) = r :: rest ∧ p' = { p with watches := p.watches.filter (·.1 ∉ r :: rest) } ∧
          Backend.calls h' = Backend.calls h ++ answers.map fun x => .answered (.clearWatch x.1) x.2)
          (clearWatches rest) (p.dropWatch r) h₁ := by
      intro answer h₁ hAnswer
      apply Succeeds.mono _ (ih (p.dropWatch r) h₁)
      rintro _ p' h' ⟨answers, rfl, rfl, hCalls⟩
      refine ⟨(r, answer) :: answers, rfl, by simp [dropWatch, Bool.and_comm, beq_eq_decide], ?_⟩
      rw [hCalls, hAnswer.calls, List.append_assoc]
      rfl
    apply Succeeds.bind
    apply Succeeds.lift
    apply Succeeds.bind
    apply Succeeds.try_
    intro answer h₁ hAnswer
    constructor
    · rintro _ rfl
      exact hRest _ h₁ hAnswer
    · rintro e rfl
      exact ⟨hAnswer.tolerable rfl, hRest _ h₁ hAnswer⟩

/-- A source that is on record in a revision that is not wanted is cleared, and one that is not on record is not. -/
theorem clearSource_passes (hStale : ∀ i, p.installed.find? path = some i → wanted.revisions.find? path ≠ some i.revision)
    (h : History) :
    Succeeds (Interleaved Alive) (fun _ p' h' => p'.installed = PathMap.erase p.installed path ∧
      ∃ stages, Passes p h stages p' h' ∧ ∀ stage ∈ stages, stage.Of wanted) (clearSource path) p h := by
  apply Succeeds.bind
  apply Succeeds.modifyGet
  cases hFind : p.installed.find? path with
  | none =>
    have hErase := PathMap.erase_eq_self hFind
    have hTaken : p.take path = (none, p) := by rw [take, hErase, hFind]
    rw [hTaken]
    exact Succeeds.pure ⟨hErase.symm, [], .refl, by simp⟩
  | some i =>
    have hTaken : p.take path = (some i, { p with installed := PathMap.erase p.installed path }) := by rw [take, hFind]
    rw [hTaken]
    apply Succeeds.bind
    apply Succeeds.note
    apply Succeeds.bind
    apply Succeeds.mono _ (clearLocations_passes _ _ h)
    rintro _ _ h₁ ⟨locations, hLocations, rfl, hCalls₁⟩
    apply Succeeds.mono _ (clearWatches_passes _ _ h₁)
    rintro _ _ h' ⟨watches, hWatches, rfl, hCalls'⟩
    refine ⟨rfl, [.clear path i.revision locations watches], .single (.clear hFind hLocations hWatches) ?_, ?_⟩
    · rw [hCalls', hCalls₁, List.append_assoc]
      rfl
    · intro stage hStage
      rw [List.mem_singleton.mp hStage]
      exact hStale i hFind

theorem clearSources_passes (paths : List Path)
    (hStale : ∀ path ∈ paths, ∀ i, p.installed.find? path = some i → wanted.revisions.find? path ≠ some i.revision)
    (h : History) :
    Succeeds (Interleaved Alive) (fun _ p' h' => ∃ stages, Passes p h stages p' h' ∧ ∀ stage ∈ stages, stage.Of wanted)
      (clearSources paths) p h := by
  induction paths generalizing p h with
  | nil => exact Succeeds.pure ⟨[], .refl, by simp⟩
  | cons path rest ih =>
    rw [List.forall_mem_cons] at hStale
    apply Succeeds.bind
    apply Succeeds.mono _ (clearSource_passes hStale.1 h)
    rintro _ p₁ h₁ ⟨hErased, stages, hFirst, hOf⟩
    have hStill : ∀ path ∈ rest, ∀ i, p₁.installed.find? path = some i →
        wanted.revisions.find? path ≠ some i.revision := by
      intro q hq i hFind
      rw [hErased, PathMap.find?_erase] at hFind
      split at hFind
      · cases hFind
      · exact hStale.2 q hq i hFind
    apply Succeeds.mono _ (ih hStill h₁)
    rintro _ p' h' ⟨stages', hRest, hOf'⟩
    exact ⟨stages ++ stages', hFirst.trans hRest, List.forall_mem_append.mpr ⟨hOf, hOf'⟩⟩

theorem stale_of_mem (hDistinct : p.installed.Distinct) (hPath : path ∈ p.stale wanted) {i : Installed}
    (hFind : p.installed.find? path = some i) : wanted.revisions.find? path ≠ some i.revision := by
  obtain ⟨e, he, rfl⟩ := List.mem_map.mp hPath
  obtain ⟨he, hStale⟩ := List.mem_filter.mp he
  rw [hDistinct.find? he] at hFind
  cases hFind
  simpa using hStale

/-! ## Placing -/

theorem installCandidates_passes (path relative : Path) (revision : Nat) (breakpoints : List Breakpoint)
    (hNone : p.installed.find? path = none) (h : History) :
    Succeeds (Interleaved Alive)
      (fun _ p' h' => ∃ searches, Passes p h [.install path revision breakpoints searches] p' h')
      (installCandidates path relative (p.candidates path) revision breakpoints) p h := by
  apply Succeeds.bind
  apply Succeeds.lift
  apply Routine.Ensures.mono _ (placeCandidates_makes path (p.candidates path) { revision, breakpoints } p h)
  rintro ⟨_, i⟩ p₁ h₁ ⟨_, rfl, searches, hNames, hAbout, hMakes⟩
  apply Succeeds.bind
  apply Succeeds.pure
  apply Succeeds.bind
  apply Succeeds.note
  apply Succeeds.lift
  refine ⟨searches, .single ?_ hMakes.calls⟩
  have hSource : i = _ := hMakes.source
  rw [hSource, hMakes.placer]
  exact .install hNone hNames hAbout

theorem installSource_passes (path : Path) (revision : Nat) (breakpoints : List Breakpoint)
    (hNone : p.installed.find? path = none) (h : History) :
    Succeeds (Interleaved Alive)
      (fun _ p' h' => ∃ searches, Passes p h [.install path revision breakpoints searches] p' h')
      (installSource path revision breakpoints) p h := by
  have hInstall := installCandidates_passes path (path.relativeTo p.root) revision breakpoints hNone h
  apply Succeeds.bind
  apply Succeeds.get
  change Succeeds _ _ (if (p.candidates path).isEmpty = true then _ else _) p h
  split
  · exact Succeeds.bind (Succeeds.note hInstall)
  · exact hInstall

theorem installMissing_passes (sources : PathMap (List Breakpoint)) (hSources : ∀ e ∈ sources, e ∈ wanted.bySource)
    (p : Placer) (h : History) :
    Succeeds (Interleaved Alive) (fun _ p' h' => ∃ stages, Passes p h stages p' h' ∧ ∀ stage ∈ stages, stage.Of wanted)
      (installMissing wanted sources) p h := by
  induction sources generalizing p h with
  | nil => exact Succeeds.pure ⟨[], .refl, by simp⟩
  | cons source rest ih =>
    rw [List.forall_mem_cons] at hSources
    apply Succeeds.bind
    apply Succeeds.get
    dsimp only
    split
    · next hNone =>
      rw [Option.isNone_iff_eq_none] at hNone
      apply Succeeds.bind
      apply Succeeds.mono _ (installSource_passes source.1 _ source.2 hNone h)
      rintro _ p₁ h₁ ⟨searches, hFirst⟩
      apply Succeeds.mono _ (ih hSources.2 p₁ h₁)
      rintro _ p' h' ⟨stages, hRest, hOf⟩
      refine ⟨_ :: stages, hFirst.trans hRest, List.forall_mem_cons.mpr ⟨?_, hOf⟩⟩
      exact ⟨hSources.1, rfl⟩
    · exact ih hSources.2 p h

theorem sync_passes (hDistinct : p.installed.Distinct) (wanted : BreakpointSet) (h : History) :
    Succeeds (Interleaved Alive) (fun ids p' h' => ids = p'.verified ∧
      ∃ stages, Passes p h stages p' h' ∧ ∀ stage ∈ stages, stage.Of wanted) (sync wanted) p h := by
  apply Succeeds.bind
  apply Succeeds.get
  apply Succeeds.bind
  apply Succeeds.mono _ (clearSources_passes (p.stale wanted) (fun _ hPath _ => stale_of_mem hDistinct hPath) h)
  rintro _ p₁ h₁ ⟨stages, hCleared, hOf⟩
  apply Succeeds.bind
  apply Succeeds.mono _ (installMissing_passes wanted.bySource (fun _ he => he) p₁ h₁)
  rintro _ p' h' ⟨stages', hFilled, hOf'⟩
  apply Succeeds.bind
  apply Succeeds.get
  apply Succeeds.pure
  exact ⟨rfl, stages ++ stages', hCleared.trans hFilled, List.forall_mem_append.mpr ⟨hOf, hOf'⟩⟩

/-! ## A report of a prepared class -/

/-- A report of a watch that is not on record changes nothing; else the source of the watch is placed in the class. -/
inductive Takes (r : RequestId) (c : LoadedClass) (p : Placer) (h : History) :
    List Stage → List (Int × UInt32) → Placer → History → Prop where
  | nothing : (∀ e ∈ p.installed, r ∉ e.2.watches) → Takes r c p h [] [] p h
  | visit {path : Path} {i : Installed} {tour : Tour} {h' : History} : (path, i) ∈ p.installed → r ∈ i.watches →
      tour.cls = c → tour.aims.map (·.breakpoint) = i.breakpoints → Backend.calls h' = Backend.calls h ++ tour.calls →
      Takes r c p h [.visit path i.revision tour (gained i.verified tour.aims)] (gained i.verified tour.aims)
        ((p.take path).2.put path (i.grow tour.aims [])) h'

variable {r : RequestId} {c : LoadedClass} {found : List (Int × UInt32)}

theorem Takes.passes (hTakes : Takes r c p h stages found p' h') : Passes p h stages p' h' := by
  cases hTakes with
  | nothing _ => exact .refl
  | visit hi _ _ hAims hCalls => exact .single (.visit hi hAims) hCalls

theorem classPrepared_takes (r : RequestId) (c : LoadedClass) (hDistinct : p.installed.Distinct)
    (hMap : p.watches.Perm (p.installed.flatMap fun e => e.2.watches.map (·, e.1))) (h : History) :
    Succeeds (Interleaved Alive) (fun found p' h' => ∃ stages, Takes r c p h stages found p' h')
      (classPrepared r c) p h := by
  apply Succeeds.bind
  apply Succeeds.modifyGet
  rcases takeWatched_of_map hDistinct hMap r with ⟨hNone, hTaken⟩ | ⟨path, i, hi, hr, hTaken⟩
  · rw [hTaken]
    exact Succeeds.pure ⟨[], .nothing hNone⟩
  · rw [hTaken]
    apply Succeeds.bind
    apply Succeeds.lift
    apply Routine.Ensures.mono _ (placeInClass_makes path c i (p.take path).2 h)
    rintro ⟨_, i'⟩ p₁ h' ⟨_, rfl, aims, hAims, rfl, hMakes⟩
    apply Succeeds.bind
    apply Succeeds.lift
    have hSource : i' = _ := hMakes.source
    have hTakes : Takes r c p h [.visit path i.revision ⟨c, aims⟩ (gained i.verified aims)] (gained i.verified aims)
        ((p.take path).2.put path (i.grow aims [])) h' := .visit hi hr rfl hAims hMakes.calls
    rw [hSource, hMakes.placer, watching_nil]
    exact ⟨_, rfl, _, hTakes⟩

end JvmDebug.Placer
