import JvmDebug.Proofs.Placement.Interrupting
import JvmDebug.Proofs.Placement.Owning
import JvmDebug.Proofs.Placement.Replay

/-!
# Placing on a machine that refuses calls

Whichever calls a machine refuses, as long as it does not go: no sync and no report fails, and the books of the placer
agree with what the machine has granted. A run is told as the stages that the placer went through, which account for
every call that was made.
-/

namespace JvmDebug
set_option autoImplicit false

open Jdwp (LoadedClass Location RequestId)
open Backend (History Interleaved Alive Fresh sets)
open Placer (Stage Turns Goes Passes Takes)

/-! ## Revisions -/

namespace Placer

/-- A source is placed in a revision once: one that is still wanted is the one in which its source stands. -/
structure Dated (wanted : BreakpointSet) (stages : List Stage) (p : Placer) : Prop where
  below : ∀ n ∈ Stage.revisions stages, n ≤ wanted.generation
  standing : ∀ n ∈ Stage.revisions stages, ∀ q, wanted.revisions.find? q = some n →
    ∃ i, p.installed.find? q = some i ∧ i.revision = n
  once : (Stage.revisions stages).Nodup

variable {wanted wanted' : BreakpointSet} {stages more : List Stage} {stage : Stage} {p p' : Placer} {path : Path}

theorem dated_nil : Dated wanted [] p := ⟨by simp [Stage.revisions], by simp [Stage.revisions], List.nodup_nil⟩

theorem Dated.same (hDated : Dated wanted stages p) (hSame : Stage.revisions (stages ++ [stage]) = Stage.revisions stages)
    (hKept : ∀ q i, wanted.revisions.find? q = some i.revision → p.installed.find? q = some i →
      ∃ i', p'.installed.find? q = some i' ∧ i'.revision = i.revision) : Dated wanted (stages ++ [stage]) p' := by
  refine ⟨?_, ?_, ?_⟩
  · rw [hSame]
    exact hDated.below
  · intro n hn q hWanted
    rw [hSame] at hn
    obtain ⟨i, hFind, rfl⟩ := hDated.standing n hn q hWanted
    exact hKept q i hWanted hFind
  · rw [hSame]
    exact hDated.once

theorem Dated.install {i : Installed} (hDated : Dated wanted stages p) (hTidy : wanted.Tidy) (hApart : wanted.Apart)
    (hWanted : wanted.revisions.find? path = some i.revision) (hNone : p.installed.find? path = none)
    (hAdded : Stage.revisions (stages ++ [stage]) = Stage.revisions stages ++ [i.revision])
    (hFind : ∀ q, p'.installed.find? q = if path == q then some i else p.installed.find? q) :
    Dated wanted (stages ++ [stage]) p' := by
  have hNew : i.revision ∉ Stage.revisions stages := by
    intro hOld
    obtain ⟨_, hSome, -⟩ := hDated.standing i.revision hOld path hWanted
    rw [hNone] at hSome
    cases hSome
  refine ⟨?_, ?_, ?_⟩
  · rw [hAdded, List.forall_mem_append, List.forall_mem_singleton]
    exact ⟨hDated.below, hTidy.dated path i.revision hWanted⟩
  · intro n hn q hq
    rw [hFind]
    by_cases hKey : (path == q) = true
    · rw [← PathMap.find?_congr _ hKey, hWanted] at hq
      cases hq
      exact ⟨i, if_pos hKey, rfl⟩
    · rw [if_neg hKey]
      rw [hAdded] at hn
      rcases List.mem_append.mp hn with hn | hn
      · exact hDated.standing n hn q hq
      · rw [List.mem_singleton.mp hn] at hq
        exact absurd (hApart path q i.revision hWanted hq) hKey
  · rw [hAdded, List.nodup_append]
    refine ⟨hDated.once, List.nodup_singleton _, ?_⟩
    rintro n hn _ hEq rfl
    rw [List.mem_singleton.mp hEq] at hn
    exact hNew hn

theorem Turns.dated (hTurns : Turns p stage p') (hOf : stage.Of wanted) (hTidy : wanted.Tidy) (hApart : wanted.Apart)
    (hDated : Dated wanted stages p) : Dated wanted (stages ++ [stage]) p' := by
  cases hTurns with
  | @clear path i locations watches hHere _ _ =>
    apply hDated.same
    · simp [Stage.revisions, Stage.revision?]
    · intro q j hWanted hFind
      -- What is cleared stands in a revision that is not wanted.
      have hOther : (path == q) = false := by
        rw [Bool.eq_false_iff]
        intro hKey
        rw [← PathMap.find?_congr _ hKey, hHere] at hFind
        cases hFind
        rw [← PathMap.find?_congr _ hKey] at hWanted
        exact hOf hWanted
      exact ⟨j, by simp [PathMap.find?_erase, hOther, hFind], rfl⟩
  | @install path revision breakpoints searches hNone _ _ =>
    obtain ⟨hSource, hRevision⟩ := hOf
    have hKeyed := hTidy.keyed path
    rw [hTidy.distinct.find? hSource, Option.isSome_some, Option.isSome_iff_exists] at hKeyed
    obtain ⟨n, hWanted⟩ := hKeyed
    rw [hWanted, Option.getD_some] at hRevision
    subst hRevision
    apply hDated.install hTidy hApart (i := Installed.grow { revision, breakpoints } (searches.flatMap (·.aims))
      (searches.flatMap (·.watches))) hWanted hNone
    · simp [Stage.revisions, Stage.revision?]
    · intro q
      simp only [put, PathMap.find?_insert, installed_watching]
  | visit _ _ => exact hOf.elim

theorem Goes.dated (hGoes : Goes p more p') (hOf : ∀ stage ∈ more, stage.Of wanted) (hTidy : wanted.Tidy)
    (hApart : wanted.Apart) (hDated : Dated wanted stages p) : Dated wanted (stages ++ more) p' := by
  induction hGoes with
  | nil => rwa [List.append_nil]
  | @snoc more stage p₁ p' hGoes hTurns ih =>
    rw [List.forall_mem_append, List.forall_mem_singleton] at hOf
    rw [← List.append_assoc]
    exact hTurns.dated hOf.2 hTidy hApart (ih hOf.1)

theorem Dated.visit {i : Installed} {tour : Tour} {found : List (Int × UInt32)} {aims : List Aim}
    (hDated : Dated wanted stages p) (hDistinct : p.installed.Distinct) (hi : (path, i) ∈ p.installed) :
    Dated wanted (stages ++ [.visit path i.revision tour found]) ((p.take path).2.put path (i.grow aims [])) := by
  apply hDated.same
  · simp [Stage.revisions, Stage.revision?]
  · intro q j _ hFind
    simp only [put, take, PathMap.find?_insert, PathMap.find?_erase]
    by_cases hKey : (path == q) = true
    · rw [← PathMap.find?_congr _ hKey, hDistinct.find? hi] at hFind
      cases hFind
      exact ⟨_, if_pos hKey, rfl⟩
    · rw [if_neg hKey, if_neg hKey]
      exact ⟨j, hFind, rfl⟩

end Placer

/-! ## A run, stage by stage -/

namespace World

/-- One deed, the stages that the placer goes through in it, and what comes of it. A sync and a report end well. -/
inductive Unfolds (w : World) : Deed → List Stage → World → Prop where
  | set (source : Source) (requested : List RequestedBreakpoint) :
      Unfolds w (.set source requested) [] { w with book := (w.book.set source requested).2 }
  | sync {stages : List Stage} {p : Placer} {h : History} :
      Routine.Run (Interleaved Alive) (Placer.sync w.book.current).run w.placer w.history (.ok p.verified) p h →
      Passes w.placer w.history stages p h → (∀ stage ∈ stages, stage.Of w.book.current) →
      Unfolds w .sync stages { w with placer := p, history := h }
  | report {r : RequestId} {c : LoadedClass} {stages : List Stage} {found : List (Int × UInt32)} {p : Placer}
      {h : History} :
      Routine.Run (Interleaved Alive) (Placer.classPrepared r c).run w.placer w.history (.ok found) p h →
      Takes r c w.placer w.history stages found p h →
      Unfolds w (.report r c) stages { w with placer := p, history := h, given := w.given ++ [(r, c)] }
  | prepare (name : String) (c : LoadedClass) :
      Unfolds w (.prepare name c) [] { w with history := w.history ++ [.prepared name c] }

/-- The stages of a run, deed by deed. -/
inductive Chronicle (start : World) : List Deed → List Stage → World → Prop where
  | nil : Chronicle start [] [] start
  | snoc {deeds : List Deed} {deed : Deed} {stages more : List Stage} {w w' : World} :
      Chronicle start deeds stages w → Unfolds w deed more w' → Chronicle start (deeds ++ [deed]) (stages ++ more) w'

variable {index : SourceIndex} {root : Path} {allowed : World → Deed → Prop} {w w' : World} {deeds : List Deed}
  {deed : Deed} {stages more : List Stage}

theorem Unfolds.does (hUnfolds : Unfolds w deed more w') : Does (Interleaved Alive) w deed w' := by
  cases hUnfolds with
  | set source requested => exact .set w source requested
  | sync hRun _ _ => exact .sync hRun
  | report hRun _ => exact .report hRun
  | prepare name c => exact .prepare w name c

theorem Unfolds.passes (hUnfolds : Unfolds w deed more w') : Passes w.placer w.history more w'.placer w'.history := by
  cases hUnfolds with
  | set source requested => exact .refl
  | sync _ hPasses _ => exact hPasses
  | report _ hTakes => exact hTakes.passes
  | prepare name c => exact ⟨.nil, (Backend.calls_preparing [(name, c)]).trans (List.append_nil _).symm⟩

theorem Unfolds.stems (hUnfolds : Unfolds w deed more w') : ∀ e ∈ w'.placer.installed, Stems w e := by
  intro e he
  cases hUnfolds with
  | set source requested => exact .inl ⟨e, he, BEq.rfl, rfl⟩
  | sync _ hPasses hOf =>
    rcases hPasses.goes.origin hOf he with he | he
    · exact .inl ⟨e, he, BEq.rfl, rfl⟩
    · exact .inr ⟨_, he, BEq.rfl, rfl⟩
  | report _ hTakes =>
    cases hTakes with
    | nothing _ => exact .inl ⟨e, he, BEq.rfl, rfl⟩
    | @visit path i tour _ hi _ _ _ _ =>
      rcases PathMap.mem_insert_of_none (Placer.find?_erase_self path w.placer.installed) he with rfl | he
      · exact .inl ⟨(path, i), hi, BEq.rfl, rfl⟩
      · exact .inl ⟨e, (PathMap.mem_erase.mp he).1, BEq.rfl, rfl⟩
  | prepare name c => exact .inl ⟨e, he, BEq.rfl, rfl⟩

/-- What a run keeps true while calls may be refused. -/
structure Kept (index : SourceIndex) (root : Path) (stages : List Stage) (w : World) : Prop where
  passes : Passes (new index root).placer [] stages w.placer w.history
  fresh : (Backend.issued w.history).Nodup
  tidy : w.book.current.Tidy
  apart : w.book.current.Apart
  dated : Placer.Dated w.book.current stages w.placer
  owned : Owned w

theorem kept_new : Kept index root [] (new index root) :=
  ⟨.refl, List.nodup_nil, BreakpointSet.tidy_empty, BreakpointSet.apart_empty, Placer.dated_nil, owned_new index root⟩

namespace Kept

theorem distinct (hKept : Kept index root stages w) : w.placer.installed.Distinct :=
  hKept.passes.goes.distinct List.Pairwise.nil

theorem calls (hKept : Kept index root stages w) : Backend.calls w.history = stages.flatMap (·.calls) :=
  hKept.passes.calls

theorem nodup_sets (hKept : Kept index root stages w) : (sets (stages.flatMap (·.calls))).Nodup := by
  rw [← hKept.calls, Backend.sets_calls]
  exact Backend.nodup_sets hKept.fresh

theorem watches (hKept : Kept index root stages w) : w.placer.watches.Perm w.placer.watchMap :=
  hKept.passes.goes.watches_perm rfl rfl hKept.nodup_sets

/-- The requests on record are those that were granted and that no call was made to clear. -/
theorem held (hKept : Kept index root stages w) : w.placer.held.Perm (Backend.uncleared w.history) := by
  have hHeld := (hKept.passes.goes.held_perm rfl hKept.nodup_sets).1
  rwa [← hKept.calls, Backend.uncleared, Backend.sets_calls, Backend.clearings_calls] at hHeld

end Kept

theorem nodup_issued_of_answer {h h' : History} {c : Backend.Call} {a : Backend.Answer c}
    (hOnce : (Backend.issued h).Nodup) (hAnswer : Interleaved Alive h c a h') : (Backend.issued h').Nodup := by
  obtain ⟨classes, rfl, -, hFresh⟩ := hAnswer
  have hSame : Backend.issued (h ++ Backend.preparing classes) = Backend.issued h := by
    rw [← Backend.issued_calls, Backend.calls_preparing, Backend.issued_calls]
  exact Backend.nodup_issued_snoc (by rwa [hSame]) hFresh

theorem Does.fresh (hDoes : Does (Interleaved Alive) w deed w') (hOnce : (Backend.issued w.history).Nodup) :
    (Backend.issued w'.history).Nodup := by
  have hStep : ∀ h c a h', (Backend.issued h).Nodup → Interleaved Alive h c a h' → (Backend.issued h').Nodup :=
    fun _ _ _ _ => nodup_issued_of_answer
  cases hDoes with
  | set source requested => exact hOnce
  | sync hRun => exact hRun.keeps hStep hOnce
  | report hRun => exact hRun.keeps hStep hOnce
  | prepare name c =>
    have hSame : Backend.issued (w.history ++ [.prepared name c]) = Backend.issued w.history :=
      Backend.issued_append.trans (List.append_nil _)
    rwa [hSame]

theorem Unfolds.dated (hUnfolds : Unfolds w deed more w') (hKept : Kept index root stages w) :
    Placer.Dated w'.book.current (stages ++ more) w'.placer := by
  cases hUnfolds with
  | set source requested =>
    rw [List.append_nil]
    refine ⟨fun n hn => ?_, fun n hn q hWanted => ?_, hKept.dated.once⟩
    · have hNext := BreakpointSet.generation_replace w.book.current source.path requested w.book.next
      exact Nat.le_trans (hKept.dated.below n hn) (Nat.le_trans (Nat.le_succ _) (Nat.le_of_eq hNext.symm))
    · obtain ⟨-, hOld, -⟩ := BreakpointSet.find?_replace_of_old (hKept.dated.below n hn) hWanted
      exact hKept.dated.standing n hn q hOld
  | sync _ hPasses hOf => exact hPasses.goes.dated hOf hKept.tidy hKept.apart hKept.dated
  | report _ hTakes =>
    cases hTakes with
    | nothing _ =>
      rw [List.append_nil]
      exact hKept.dated
    | visit hi _ _ _ _ => exact hKept.dated.visit hKept.distinct hi
  | prepare name c =>
    rw [List.append_nil]
    exact hKept.dated

theorem Kept.step (hKept : Kept index root stages w) (hUnfolds : Unfolds w deed more w') :
    Kept index root (stages ++ more) w' := by
  have hDoes := hUnfolds.does
  refine ⟨hKept.passes.trans hUnfolds.passes, hDoes.fresh hKept.fresh, hDoes.tidy hKept.tidy, ?_, hUnfolds.dated hKept,
    hKept.owned.stemming hUnfolds.stems hDoes⟩
  rcases hDoes.book with hBook | ⟨source, requested, -, hBook⟩
  · rw [hBook]
    exact hKept.apart
  · rw [hBook]
    exact hKept.apart.replace hKept.tidy source.path requested w.book.next

theorem Does.unfolds (hDoes : Does (Interleaved Alive) w deed w') (hKept : Kept index root stages w) :
    ∃ more, Unfolds w deed more w' := by
  cases hDoes with
  | set source requested => exact ⟨[], .set source requested⟩
  | sync hRun =>
    obtain ⟨ids, rfl, rfl, more, hPasses, hOf⟩ :=
      hRun.satisfies (Placer.sync_passes hKept.distinct w.book.current w.history)
    exact ⟨more, .sync hRun hPasses hOf⟩
  | @report r c _ _ _ hRun =>
    obtain ⟨found, rfl, more, hTakes⟩ :=
      hRun.satisfies (Placer.classPrepared_takes r c hKept.distinct hKept.watches w.history)
    exact ⟨more, .report hRun hTakes⟩
  | prepare name c => exact ⟨[], .prepare name c⟩

/-- Every run on a machine that does not go can be told stage by stage. -/
theorem Reaches.chronicle (hReaches : Reaches (Interleaved Alive) allowed (new index root) deeds w) :
    ∃ stages, Chronicle (new index root) deeds stages w ∧ Kept index root stages w := by
  induction hReaches with
  | nil => exact ⟨[], .nil, kept_new⟩
  | snoc _ _ hDoes ih =>
    obtain ⟨stages, hChronicle, hKept⟩ := ih
    obtain ⟨more, hUnfolds⟩ := hDoes.unfolds hKept
    exact ⟨stages ++ more, hChronicle.snoc hUnfolds, hKept.step hUnfolds⟩

/-! ## What reports yield -/

theorem exists_of_mem_gained {known : List Int} {aims : List Aim} {id : Int} (hId : id ∈ (gained known aims).map (·.1)) :
    ∃ a ∈ aims, a.breakpoint.id = id := by
  have hFresh := (nodup_gained known aims).2 id hId
  obtain ⟨a, ha, hSame, -⟩ := (known_or_gained_iff.mp (List.mem_append_right known hId)).resolve_left hFresh
  exact ⟨a, ha, hSame⟩

/-- A number of a source is not that of a breakpoint of another source that has code. -/
theorem Kept.not_verified_elsewhere (hKept : Kept index root stages w) {path : Path} {i : Installed}
    (hi : (path, i) ∈ w.placer.installed) {id : Int} (hId : id ∈ i.breakpoints.map (·.id)) :
    id ∉ (PathMap.erase w.placer.installed path).flatMap (·.2.verified) := by
  intro hOther
  obtain ⟨e, he, hVerified⟩ := List.mem_flatMap.mp hOther
  obtain ⟨he, hApart⟩ := PathMap.mem_erase.mp he
  have hHere : Owns w path id := .inr ⟨(path, i), hi, BEq.rfl, hId⟩
  have hThere : Owns w e.1 id := .inr ⟨e, he, BEq.rfl, hKept.passes.goes.breakpoint_of_verified rfl he hVerified⟩
  have hKey := hKept.owned.apart _ _ _ hThere hHere
  rw [hApart] at hKey
  cases hKey

/-- A report yields each breakpoint that has code from then on and had none before, and yields it once. -/
theorem Kept.gains (hKept : Kept index root stages w) {r : RequestId} {c : LoadedClass} {found : List (Int × UInt32)}
    {p : Placer} {h : History} (hTakes : Takes r c w.placer w.history more found p h) :
    (found.map (·.1)).Nodup ∧ ∀ id, id ∈ found.map (·.1) ↔ id ∈ p.verified ∧ id ∉ w.placer.verified := by
  cases hTakes with
  | nothing _ =>
    constructor
    · exact List.nodup_nil
    · simp
  | @visit path i tour _ hi _ _ hAims _ =>
    obtain ⟨hOnce, hFresh⟩ := nodup_gained i.verified tour.aims
    refine ⟨hOnce, fun id => ?_⟩
    have hBefore := (hKept.distinct.perm_erase_of_mem hi).flatMap_right (·.2.verified)
    have hAfter := (PathMap.insert_perm (i.grow tour.aims []) (Placer.find?_erase_self path w.placer.installed)).flatMap_right
      (·.2.verified)
    have hOwn : id ∈ (gained i.verified tour.aims).map (·.1) →
        id ∉ (PathMap.erase w.placer.installed path).flatMap (·.2.verified) := by
      intro hId
      obtain ⟨a, ha, rfl⟩ := exists_of_mem_gained hId
      apply hKept.not_verified_elsewhere hi
      rw [← hAims, List.map_map]
      exact List.mem_map_of_mem ha
    have hVerified : id ∈ w.placer.verified ↔
        id ∈ i.verified ∨ id ∈ (PathMap.erase w.placer.installed path).flatMap (·.2.verified) := by
      rw [Placer.verified, hBefore.mem_iff, List.flatMap_cons, List.mem_append]
    have hVerified' : id ∈ ((w.placer.take path).2.put path (i.grow tour.aims [])).verified ↔
        (id ∈ i.verified ∨ id ∈ (gained i.verified tour.aims).map (·.1)) ∨
          id ∈ (PathMap.erase w.placer.installed path).flatMap (·.2.verified) := by
      rw [← List.mem_append, ← List.mem_append]
      exact hAfter.mem_iff
    rw [hVerified, hVerified', not_or]
    constructor
    · intro hId
      exact ⟨.inl (.inr hId), hFresh id hId, hOwn hId⟩
    · rintro ⟨(hOld | hNew) | hOther, hNotHere, hNotOther⟩
      · exact absurd hOld hNotHere
      · exact hNew
      · exact absurd hOther hNotOther

/-- The books of a placer agree with the answers that the machine gave, stage by stage. -/
structure Agrees (stages : List Stage) (w : World) : Prop where
  calls : Backend.calls w.history = stages.flatMap (·.calls)
  verified : ∀ id, id ∈ w.placer.verified ↔ ∃ q aims, (Stage.since stages).find? q = some aims ∧
    ∃ a ∈ aims, a.breakpoint.id = id ∧ ∃ l r, (l, .ok r) ∈ a.requests
  watches : w.placer.watches.Perm w.placer.watchMap
  held : w.placer.held.Perm (Backend.uncleared w.history)
  once : (stages.flatMap (·.yields)).Nodup

/-- A report on a machine that answers in any way. If it fails, the source of the watch stays on record, with all that
was granted for it. -/
theorem Kept.interrupted (hKept : Kept index root stages w) {rule : Backend.Rule} {r : RequestId} {c : LoadedClass}
    {e : Error} {p : Placer} {h : History}
    (hRun : Routine.Run (Interleaved rule) (Placer.classPrepared r c).run w.placer w.history (.error e) p h) :
    ∃ path i i', (path, i) ∈ w.placer.installed ∧ r ∈ i.watches ∧
      Placer.Interrupted path i w.placer w.history i' p h := by
  rcases Placer.takeWatched_of_map hKept.distinct hKept.watches r with ⟨-, hTaken⟩ | ⟨path, i, hi, hr, hTaken⟩
  · have hNothing : Routine.Ensures (Interleaved rule) (fun outcome _ _ => outcome = .ok [])
        (Placer.classPrepared r c).run w.placer w.history := by
      apply Placer.bind_modifyGet_ensures
      rw [hTaken]
      exact rfl
    cases hRun.satisfies hNothing
  · obtain ⟨i', hInterrupted⟩ := hRun.satisfies (Placer.classPrepared_interrupted hTaken c w.history)
    exact ⟨path, i, i', hi, hr, hInterrupted⟩

/-- Whichever calls are refused: no sync and no report fails, the books agree with what was granted and not cleared, and
a report yields just what has code from then on. What the end of the machine cuts short stays on record. -/
theorem survives_refusals (hReaches : Reaches (Interleaved Alive) Anything (new index root) deeds w) :
    ∃ stages, Chronicle (new index root) deeds stages w ∧ Agrees stages w ∧
      Placer.Succeeds (Interleaved Alive) (fun ids p _ => ids = p.verified) (Placer.sync w.book.current) w.placer
        w.history ∧
      (∀ r c, Placer.Succeeds (Interleaved Alive) (fun found p _ => (found.map (·.1)).Nodup ∧
        ∀ id, id ∈ found.map (·.1) ↔ id ∈ p.verified ∧ id ∉ w.placer.verified) (Placer.classPrepared r c) w.placer
        w.history) ∧
      ∀ rule r c e p h,
        Routine.Run (Interleaved rule) (Placer.classPrepared r c).run w.placer w.history (.error e) p h →
        ∃ path i i', (path, i) ∈ w.placer.installed ∧ r ∈ i.watches ∧
          Placer.Interrupted path i w.placer w.history i' p h := by
  obtain ⟨stages, hChronicle, hKept⟩ := hReaches.chronicle
  have hAgrees : Agrees stages w := {
    calls := hKept.calls
    verified := hKept.passes.goes.mem_verified_iff rfl
    watches := hKept.watches
    held := hKept.held
    once := (hKept.passes.goes.yielded rfl hKept.dated.once).once }
  refine ⟨stages, hChronicle, hAgrees, ?_, fun r c => ?_, fun rule r c e p h hRun => hKept.interrupted hRun⟩
  · exact Placer.Succeeds.mono (fun _ _ _ hSynced => hSynced.1)
      (Placer.sync_passes hKept.distinct w.book.current w.history)
  · apply Placer.Succeeds.mono _ (Placer.classPrepared_takes r c hKept.distinct hKept.watches w.history)
    rintro found p h ⟨more, hTakes⟩
    exact hKept.gains hTakes

/-! A machine that refuses some calls -/

def refusal : (c : Backend.Call) → Backend.Answer c
  | .loadedClasses _ | .lineLocations .. | .setBreakpoint _ | .clearBreakpoint _ | .setWatch _ | .clearWatch _
  | .setException .. | .clearException _ => .error (.rejected 35)

/-- Refuses the calls of some kinds, and answers the others as they are. -/
def balk (refuses : Backend.Call → Bool) (lines : LoadedClass → UInt32 → List Location) (c : Backend.Call) :
    StateT History Option (Backend.Answer c) := fun h =>
  if refuses c then some (refusal c, h ++ [.answered c (refusal c)]) else Backend.obey lines (fun _ => []) c h

variable {refuses : Backend.Call → Bool} {lines : LoadedClass → UInt32 → List Location}

theorem balk_interleaved (c : Backend.Call) (h : History) (a : Backend.Answer c) (h' : History)
    (hAnswer : (balk refuses lines c).run h = some (a, h')) : Interleaved Alive h c a h' := by
  change (if refuses c = true then _ else Backend.obey lines (fun _ => []) c h) = some (a, h') at hAnswer
  split at hAnswer
  · cases hAnswer
    refine ⟨[], by simp [Backend.preparing], ?_⟩
    constructor
    · cases c <;> rintro _ ⟨⟩ <;> rfl
    · cases c <;> rintro _ ⟨⟩
  · apply Interleaved.weaken _ h c a h' (Backend.obey_interleaved c h a h' hAnswer)
    exact fun _ _ hFaithful => (Backend.Faithful.willing _ _ hFaithful).alive

def balkedSync (refuses : Backend.Call → Bool) (lines : LoadedClass → UInt32 → List Location) (w : World) :
    Option World :=
  (ended ((Routine.advance (balk refuses lines) (fun _ p => p) (Placer.sync w.book.current).run w.placer).run
    w.history)).map fun (placer, history) => { w with placer, history }

theorem does_of_balkedSync (hSync : balkedSync refuses lines w = some w') : Does (Interleaved Alive) w .sync w' := by
  obtain ⟨⟨p, h⟩, hEnded, rfl⟩ := Option.map_eq_some_iff.mp hSync
  unfold ended at hEnded
  split at hEnded
  · next hDone =>
    cases hEnded
    exact .sync (Routine.Run.of_advance balk_interleaved hDone)
  · cases hEnded

def refusesWatches : Backend.Call → Bool
  | .setBreakpoint l => l.index == 0
  | .setWatch _ => true
  | _ => false

def twoLocations (c : LoadedClass) (_ : UInt32) : List Location := [⟨c.typeTag, c.id, 7, 0⟩, ⟨c.typeTag, c.id, 7, 4⟩]

/-- Of the two locations of a line one is refused, and so is the watch; the breakpoint has code all the same. -/
theorem survives_refused_watches : ∃ w stages, Agrees stages w ∧ (w.placer.verified, w.placer.held) = ([1], [(.breakpoint, 1)]) ∧
    w.history.countP (·.refusal?.isSome) = 2 ∧
    Placer.Succeeds (Interleaved Alive) (fun ids p _ => ids = p.verified) (Placer.sync w.book.current) w.placer
      w.history := by
  let start := Sample.start ["A"]
  let asked : World := { start with
    history := [.prepared "A" ⟨1, 10⟩], book := (start.book.set Sample.source [Sample.breakpointAt 3]).2 }
  have hPrepared : Reaches (Interleaved Alive) Anything start [.prepare "A" ⟨1, 10⟩]
      { start with history := [.prepared "A" ⟨1, 10⟩] } :=
    Reaches.nil.snoc trivial (.prepare start "A" ⟨1, 10⟩)
  have hAsked : Reaches (Interleaved Alive) Anything start
      [.prepare "A" ⟨1, 10⟩, .set Sample.source [Sample.breakpointAt 3]] asked :=
    hPrepared.snoc trivial (.set _ Sample.source [Sample.breakpointAt 3])
  have hSynced : (balkedSync refusesWatches twoLocations asked).any (fun w : World =>
      decide ((w.placer.verified, w.placer.held) = ([1], [(.breakpoint, 1)]) ∧
        w.history.countP (·.refusal?.isSome) = 2)) = true := by
    decide +kernel
  obtain ⟨w, hw, hTest⟩ := (Option.any_eq_true ..).mp hSynced
  obtain ⟨hPlacer, hRefused⟩ := of_decide_eq_true hTest
  obtain ⟨stages, -, hAgrees, hSucceeds, -⟩ := survives_refusals (hAsked.snoc trivial (does_of_balkedSync hw))
  exact ⟨w, stages, hAgrees, hPlacer, hRefused, hSucceeds⟩

end World
end JvmDebug
