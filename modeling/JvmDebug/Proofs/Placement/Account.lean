import Mathlib.Tactic.Choose
import JvmDebug.Proofs.Placement.World

/-!
# What was placed, and why

On a faithful machine, what is placed for a source is what its breakpoints ask for in certain classes: those that were
loaded under its candidates when these were looked up, and those that its watches have reported since. An account of a
source names the moments at which its candidates were looked up.
-/

namespace JvmDebug
set_option autoImplicit false

open Jdwp (LoadedClass Location RequestId)
open Backend (History Interleaved Willing Faithful Obeyed liveWatches loaded)

/-- What breakpoints ask for in a class. -/
def spotsIn (lines : LoadedClass → UInt32 → List Location) (breakpoints : List Breakpoint) (c : LoadedClass) :
    List (Int × Location) :=
  breakpoints.flatMap fun b => (lines c b.line).map (b.id, ·)

/-- The lines of some of the breakpoints have code in a class. -/
def HasCode (lines : LoadedClass → UInt32 → List Location) (breakpoints : List Breakpoint) (c : LoadedClass) : Prop :=
  ∃ b ∈ breakpoints, lines c b.line ≠ []

/-- The moment at which a candidate was looked up. -/
structure Lookup where
  name : String
  moment : History

namespace Lookup

def found (l : Lookup) : List LoadedClass := loaded l.moment l.name

def In (l : Lookup) (h : History) : Prop := l.moment ++ [.answered (.loadedClasses l.name) (.ok l.found)] <+: h

def patterns (l : Lookup) : List String := (if l.found = [] then [l.name] else []) ++ [Placer.nestedPattern l.name]

end Lookup

variable {lines : LoadedClass → UInt32 → List Location} {h h' m : History} {names : List String} {i : Installed}
  {breakpoints : List Breakpoint} {c : LoadedClass}

theorem mem_spotsIn {id : Int} {l : Location} :
    (id, l) ∈ spotsIn lines breakpoints c ↔ ∃ b ∈ breakpoints, b.id = id ∧ l ∈ lines c b.line := by
  simp only [spotsIn, List.mem_flatMap, List.mem_map, Prod.mk.injEq]
  constructor
  · rintro ⟨b, hb, l', hl, rfl, rfl⟩
    exact ⟨b, hb, rfl, hl⟩
  · rintro ⟨b, hb, rfl, hl⟩
    exact ⟨b, hb, l, hl, rfl, rfl⟩

theorem spotsIn_ne_nil_iff : spotsIn lines breakpoints c ≠ [] ↔ HasCode lines breakpoints c := by
  simp [spotsIn, HasCode]

theorem eq_of_mem_spotsIn {c' : LoadedClass} {spot : Int × Location} (hOwn : Backend.Own lines)
    (hSpot : spot ∈ spotsIn lines breakpoints c) (hSpot' : spot ∈ spotsIn lines breakpoints c') : c = c' := by
  obtain ⟨b, -, -, hl⟩ := mem_spotsIn.mp hSpot
  obtain ⟨b', -, -, hl'⟩ := mem_spotsIn.mp hSpot'
  exact hOwn.eq hl hl'

/-! What a sync places -/

theorem Visit.spots_of_holds {v : Visit} (hLines : v.lines.map (·.1) = breakpoints)
    (hTrue : ∀ f ∈ v.findings, ∃ m, f.Holds lines m) : v.spots = spotsIn lines breakpoints v.cls := by
  rw [Visit.spots, spotsIn, ← hLines, List.flatMap_map]
  refine List.flatMap_congr fun e he => ?_
  obtain ⟨m, hHolds⟩ := hTrue _ (List.mem_map_of_mem he)
  have hSame : e.2 = lines v.cls e.1.line := hHolds
  rw [hSame]

/-- The surveys of candidates, as lookups. -/
theorem Placer.Placed.lookups (hPlaced : Placer.Placed names h i h') (hObeyed : Obeyed (Faithful lines) h') :
    ∃ lookups : List Lookup, lookups.map (·.name) = names ∧
      (∀ l ∈ lookups, h <+: l.moment ∧ l.In h') ∧
      i.placements.map (·.spot) = (lookups.flatMap (·.found)).flatMap (spotsIn lines i.breakpoints) ∧
      ∃ watched : List (RequestId × String), i.watches = watched.map (·.1) ∧
        watched.map (·.2) = lookups.flatMap (·.patterns) ∧ ∀ w ∈ watched, w ∈ liveWatches h' := by
  obtain ⟨-, -, surveys, watched, g, g', hg, ⟨k, rfl⟩, hg', hCover, hTold, hSpots, hWatches, hPatterns, hLive⟩ := hPlaced
  rw [Backend.findings_append] at hTold
  have hTold := List.append_cancel_left hTold
  have hMoments : ∀ s ∈ surveys, ∀ f ∈ s.findings,
      ∃ m x, g <+: m ∧ m ++ [x] <+: h' ∧ x.finding? = some f ∧ f.Holds lines m := fun s hs f hf =>
    hObeyed.exists_moment hg' (hTold ▸ List.mem_flatMap.mpr ⟨s, hs, hf⟩)
  have hLookups : ∀ s ∈ surveys, ∃ m, g <+: m ∧ (⟨s.name, m⟩ : Lookup).In h' ∧
      s.visits.map (·.cls) = loaded m s.name := by
    intro s hs
    obtain ⟨m, x, hg, hx, hFinding, hHolds⟩ := hMoments s hs _ List.mem_cons_self
    have hFound : s.visits.map (·.cls) = loaded m s.name := hHolds
    rw [Backend.eq_of_finding?_classes hFinding, hFound] at hx
    exact ⟨m, hg, hx, hFound⟩
  choose! moment hMoment using hLookups
  have hFound : surveys.flatMap (fun s => loaded (moment s) s.name) = surveys.flatMap fun s => s.visits.map (·.cls) :=
    List.flatMap_congr fun s hs => (hMoment s hs).2.2.symm
  refine ⟨surveys.map fun s => ⟨s.name, moment s⟩, ?_, ?_, ?_, watched, hWatches, ?_, fun w hw => hLive.subset hw⟩
  · rw [← hCover.names, List.map_map]
    rfl
  · intro l hl
    obtain ⟨s, hs, rfl⟩ := List.mem_map.mp hl
    exact ⟨hg.trans (hMoment s hs).1, (hMoment s hs).2.1⟩
  · rw [hSpots, List.flatMap_map]
    change _ = (surveys.flatMap fun s => loaded (moment s) s.name).flatMap _
    rw [hFound, List.flatMap_assoc]
    refine List.flatMap_congr fun s hs => ?_
    rw [Survey.spots, List.flatMap_map]
    refine List.flatMap_congr fun v hv => Visit.spots_of_holds (hCover.lines s hs v hv) fun f hf => ?_
    obtain ⟨m, -, -, -, -, hHolds⟩ := hMoments s hs f (List.mem_cons_of_mem _ (List.mem_flatMap.mpr ⟨v, hv, hf⟩))
    exact ⟨m, hHolds⟩
  · rw [hPatterns, List.flatMap_map]
    refine List.flatMap_congr fun s hs => ?_
    rw [Survey.patterns, Lookup.patterns, Lookup.found, ← (hMoment s hs).2.2]
    simp

/-! The account of a source -/

namespace World

variable {answers : Answering Backend History} {w w' : World} {deeds : List Deed} {deed : Deed} {path : Path}
  {i' : Installed} {lookups : List Lookup} {r : RequestId} {c : LoadedClass}

/-- The classes that the watches of a source have reported. -/
def reportedTo (w : World) (i : Installed) : List LoadedClass := (w.given.filter (·.1 ∈ i.watches)).map (·.2)

/-- The classes in which the breakpoints of a source were placed, in this order. -/
def visited (w : World) (i : Installed) (lookups : List Lookup) : List LoadedClass :=
  lookups.flatMap (·.found) ++ w.reportedTo i

/-- How a source came to be placed as it is. -/
structure Account (lines : LoadedClass → UInt32 → List Location) (w : World) (path : Path) (i : Installed)
    (lookups : List Lookup) : Prop where
  names : lookups.map (·.name) = w.placer.candidates path
  past : ∀ l ∈ lookups, l.In w.history
  spots : i.placements.map (·.spot) = (w.visited i lookups).flatMap (spotsIn lines i.breakpoints)
  watches : ∃ watched : List (RequestId × String), i.watches = watched.map (·.1) ∧
    watched.map (·.2) = lookups.flatMap (·.patterns) ∧ ∀ x ∈ watched, x ∈ liveWatches w.history

theorem mem_reportedTo : c ∈ w.reportedTo i ↔ ∃ r ∈ i.watches, (r, c) ∈ w.given := by
  simp only [reportedTo, List.mem_map, List.mem_filter, decide_eq_true_eq]
  constructor
  · rintro ⟨⟨r, c'⟩, ⟨hGiven, hr⟩, rfl⟩
    exact ⟨r, hr, hGiven⟩
  · rintro ⟨r, hr, hGiven⟩
    exact ⟨(r, c), ⟨hGiven, hr⟩, rfl⟩

theorem Account.mem_spots (hAccount : Account lines w path i lookups) {id : Int} {l : Location} :
    (∃ x ∈ i.placements, x.breakpoint = id ∧ x.location = l) ↔
      ∃ c ∈ w.visited i lookups, (id, l) ∈ spotsIn lines i.breakpoints c := by
  have hSpots : (id, l) ∈ i.placements.map (·.spot) ↔ ∃ x ∈ i.placements, x.breakpoint = id ∧ x.location = l := by
    simp [Placement.spot]
  rw [← hSpots, hAccount.spots, List.mem_flatMap]

theorem Account.prepared (hAccount : Account lines w path i lookups) {l : Lookup} (hl : l ∈ lookups)
    (hFound : c ∈ l.found) : (l.name, c) ∈ Backend.preparations w.history := by
  obtain ⟨k, hk⟩ := (List.prefix_append ..).trans (hAccount.past l hl)
  rw [← hk, Backend.preparations_append]
  exact List.mem_append_left _ (Backend.mem_loaded.mp hFound)

/-! Every deed keeps the accounts -/

theorem Does.obeyed (hDoes : Does (Interleaved (Faithful lines)) w deed w') (hObeyed : Obeyed (Faithful lines) w.history) :
    Obeyed (Faithful lines) w'.history := by
  cases hDoes with
  | set _ _ => exact hObeyed
  | sync hRun => exact hRun.keeps (Obeyed.keep Faithful.free) hObeyed
  | report hRun => exact hRun.keeps (Obeyed.keep Faithful.free) hObeyed
  | prepare name c => exact hObeyed.snoc (Faithful.free w.history name c)

theorem reportedTo_of_given {given : List (RequestId × LoadedClass)} (hGiven : w'.given = w.given ++ given)
    (i : Installed) : w'.reportedTo i = w.reportedTo i ++ (given.filter (·.1 ∈ i.watches)).map (·.2) := by
  rw [reportedTo, hGiven, List.filter_append, List.map_append, reportedTo]

theorem Moves.candidates (hMoves : Moves w deed w') : w'.placer.candidates path = w.placer.candidates path := by
  rw [Placer.candidates, Placer.candidates, hMoves.index, hMoves.root]

theorem Moves.watches_stand (hMoves : Moves w deed w') (he : (path, i) ∈ w'.placer.installed)
    {watched : List (RequestId × String)} (hWatches : i.watches = watched.map (·.1))
    (hLive : ∀ x ∈ watched, x ∈ liveWatches w.history) : ∀ x ∈ watched, x ∈ liveWatches w'.history := by
  intro x hx
  have hRequest : x.1 ∈ i.requests := by
    rw [Installed.requests, hWatches]
    exact List.mem_append_right _ (List.mem_map_of_mem hx)
  exact hMoves.order.sound.watch_same hMoves.history (hLive x hx) (hMoves.order.recorded.mem_live he x.1 hRequest)

theorem Account.keep (hAccount : Account lines w path i lookups) (hMoves : Moves w deed w')
    (he : (path, i) ∈ w'.placer.installed) (hReported : w'.reportedTo i = w.reportedTo i) :
    Account lines w' path i lookups := by
  obtain ⟨hNames, hPast, hSpots, watched, hWatches, hPatterns, hLive⟩ := hAccount
  refine ⟨hNames.trans hMoves.candidates.symm, fun l hl => (hPast l hl).trans hMoves.history, ?_, watched, hWatches,
    hPatterns, hMoves.watches_stand he hWatches hLive⟩
  rw [hSpots, visited, visited, hReported]

theorem Account.visit (hAccount : Account lines w path i lookups) (hMoves : Moves w (.report r c) w')
    (he : (path, i') ∈ w'.placer.installed) (hGiven : w'.given = w.given ++ [(r, c)]) (hr : r ∈ i.watches)
    (hVisited : Placer.Visited c i w.history i' w'.history) (hObeyed : Obeyed (Faithful lines) w'.history) :
    Account lines w' path i' lookups := by
  obtain ⟨hNames, hPast, hSpots, watched, hWatches, hPatterns, hLive⟩ := hAccount
  obtain ⟨new, v, rfl, hLines, hPlacements, hNew, -, -, hTold⟩ := hVisited.placed
  have hWatches' := hVisited.watches.trans hWatches
  refine ⟨hNames.trans hMoves.candidates.symm, fun l hl => (hPast l hl).trans hMoves.history, ?_, watched, hWatches',
    hPatterns, hMoves.watches_stand he hWatches' hLive⟩
  have hAsked : v.spots = spotsIn lines i.breakpoints v.cls := by
    refine Visit.spots_of_holds hLines fun f hf => ?_
    obtain ⟨k, hk⟩ := hMoves.history
    have hAll : w.history ++ k <+: w'.history := ⟨[], by rw [List.append_nil, hk]⟩
    rw [← hk, Backend.findings_append] at hTold
    rw [← List.append_cancel_left hTold] at hf
    obtain ⟨m, -, -, -, -, hHolds⟩ := hObeyed.exists_moment hAll hf
    exact ⟨m, hHolds⟩
  have hReported : w'.reportedTo i' = w.reportedTo i ++ [v.cls] := by
    rw [reportedTo_of_given hGiven, reportedTo, reportedTo, hVisited.watches]
    simp [hr]
  rw [hPlacements, List.map_append, hSpots, hNew, hAsked, hVisited.breakpoints, visited, visited, hReported]
  simp

/-- Every source that is placed has an account, and every report that was taken up was made. -/
structure Accounted (lines : LoadedClass → UInt32 → List Location) (w : World) : Prop where
  sane : Sane w
  obeyed : Obeyed (Faithful lines) w.history
  given : ∀ x, w.given.count x ≤ (Backend.reports w.history).count x
  accounts : ∀ e ∈ w.placer.installed, ∃ lookups, Account lines w e.1 e.2 lookups

theorem Accounted.mem_reports (hAccounted : Accounted lines w) {x : RequestId × LoadedClass} (hx : x ∈ w.given) :
    x ∈ Backend.reports w.history :=
  List.count_pos_iff.mp (Nat.lt_of_lt_of_le (List.count_pos_iff.mpr hx) (hAccounted.given x))

theorem Moves.reported (hMoves : Moves w deed w') (hGiven : w'.given = w.given ++ deed.given)
    (hHonest : Honest w deed) (hBefore : ∀ x, w.given.count x ≤ (Backend.reports w.history).count x)
    (x : RequestId × LoadedClass) : w'.given.count x ≤ (Backend.reports w'.history).count x := by
  obtain ⟨k, hk⟩ := hMoves.history
  rw [hGiven, ← hk, Backend.reports_append, List.count_append, List.count_append]
  refine Nat.le_trans ?_ (Nat.le_add_right ..)
  cases deed with
  | report r c =>
    by_cases hx : x = (r, c)
    · subst hx
      have hLess : w.given.count (r, c) < (Backend.reports w.history).count (r, c) := hHonest
      simpa [Deed.given] using Nat.succ_le_of_lt hLess
    · simpa [Deed.given, List.count_singleton, Ne.symm hx] using hBefore x
  | _ => exact hBefore x

theorem reportedTo_of_other (hGiven : w'.given = w.given ++ deed.given)
    (hOther : ∀ r c, deed = .report r c → r ∉ i.watches) : w'.reportedTo i = w.reportedTo i := by
  rw [reportedTo_of_given hGiven]
  cases deed with
  | report r c => simp [Deed.given, hOther r c rfl]
  | _ => simp [Deed.given]

theorem Accounted.reportedTo_fresh (hAccounted : Accounted lines w)
    (hFresh : ∀ r ∈ i.watches, r ∉ Backend.issued w.history) : w.reportedTo i = [] := by
  rw [reportedTo, List.map_eq_nil_iff, List.filter_eq_nil_iff]
  rintro ⟨r, c⟩ hx hr
  have hIssued := Backend.issued_of_mem_reports (hAccounted.mem_reports hx)
  exact hFresh r (by simpa using hr) hIssued

/-- A sync gives an account of what it places, by lookups that it made. -/
theorem Accounted.placed {e : Path × Installed} (hAccounted : Accounted lines w)
    (hDoes : Does (Interleaved (Faithful lines)) w .sync w')
    (hFulfils : Placer.Fulfils w.book.current.bySource w.book.current.revisions (w.placer.candidates e.1) w.history e
      w'.history) :
    ∃ lookups, Account lines w' e.1 e.2 lookups ∧ w'.reportedTo e.2 = [] ∧ ∀ l ∈ lookups, w.history <+: l.moment := by
  have hMoves := hDoes.willing.moves hAccounted.sane.order
  obtain ⟨lookups, hNames, hMoments, hSpots, hWatches⟩ := hFulfils.placed.lookups (hDoes.obeyed hAccounted.obeyed)
  have hNone : w'.reportedTo e.2 = [] := by
    rw [reportedTo_of_other hDoes.given (by simp)]
    exact hAccounted.reportedTo_fresh fun r hr => hFulfils.placed.fresh r (List.mem_append_right _ hr)
  refine ⟨lookups, ⟨hNames.trans hMoves.candidates.symm, fun l hl => (hMoments l hl).2, ?_, hWatches⟩, hNone,
    fun l hl => (hMoments l hl).1⟩
  rw [hSpots, visited, hNone, List.append_nil]

theorem Accounted.carry {e : Path × Installed} (hAccounted : Accounted lines w)
    (hDoes : Does (Interleaved (Faithful lines)) w deed w') (hOther : deed ≠ .sync) (he : e ∈ w'.placer.installed) :
    ∃ i, (e.1, i) ∈ w.placer.installed ∧ e.2.watches = i.watches ∧
      ∀ lookups, Account lines w e.1 i lookups → Account lines w' e.1 e.2 lookups := by
  have hMoves := hDoes.willing.moves hAccounted.sane.order
  cases hMoves.comes e he with
  | kept hKept _ hNone =>
    exact ⟨e.2, hKept, rfl, fun _ hAccount => hAccount.keep hMoves he (reportedTo_of_other hDoes.given hNone)⟩
  | placed hSync _ => exact absurd hSync hOther
  | visited hReport hi hr hVisited =>
    subst hReport
    exact ⟨_, hi, hVisited.watches, fun _ hAccount =>
      hAccount.visit hMoves he hDoes.given hr hVisited (hDoes.obeyed hAccounted.obeyed)⟩

theorem Accounted.step (hAccounted : Accounted lines w) (hHonest : Honest w deed)
    (hDoes : Does (Interleaved (Faithful lines)) w deed w') : Accounted lines w' := by
  have hDoes' := hDoes.willing
  have hMoves := hDoes'.moves hAccounted.sane.order
  have hObeyed := hDoes.obeyed hAccounted.obeyed
  refine ⟨hAccounted.sane.step hDoes', hObeyed, hMoves.reported hDoes.given hHonest hAccounted.given, fun e he => ?_⟩
  by_cases hSync : deed = .sync
  · subst hSync
    cases hMoves.comes e he with
    | kept hKept _ hOther =>
      obtain ⟨lookups, hAccount⟩ := hAccounted.accounts e hKept
      exact ⟨lookups, hAccount.keep hMoves he (reportedTo_of_other hDoes.given hOther)⟩
    | placed _ hFulfils =>
      obtain ⟨lookups, hAccount, -⟩ := hAccounted.placed hDoes hFulfils
      exact ⟨lookups, hAccount⟩
    | visited hReport _ _ _ => cases hReport
  · obtain ⟨i, hi, -, hCarry⟩ := hAccounted.carry hDoes hSync he
    obtain ⟨lookups, hAccount⟩ := hAccounted.accounts _ hi
    exact ⟨lookups, hCarry lookups hAccount⟩

theorem Reaches.accounted {index : SourceIndex} {root : Path}
    (hReaches : Reaches (Interleaved (Faithful lines)) Honest (new index root) deeds w) : Accounted lines w := by
  refine hReaches.keeps (Accounted lines) ⟨sane_new index root, Obeyed.nil, fun x => ?_, fun e he => ?_⟩
    fun _ _ _ hAccounted hHonest hDoes => hAccounted.step hHonest hDoes
  · exact Nat.zero_le _
  · cases he

end World
end JvmDebug
