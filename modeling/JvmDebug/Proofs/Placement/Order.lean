import JvmDebug.Proofs.Placement.Replay
import JvmDebug.Proofs.Placement.Stops

/-!
# Before a class is prepared, or after it

If the breakpoints of a source are placed before a class is prepared, the watches of the source report it; if after, the
class is found under its name. These are not the same classes: those of nested classes and lambdas are watched for, but
not looked up, and a second class under a name that was found is looked up, but not watched for.
-/

namespace JvmDebug.World
set_option autoImplicit false

open Jdwp (LoadedClass Location RequestId)
open Backend (History Interleaved Willing Faithful Own covers preparations reports watching liveWatches)

variable {answers : Answering Backend History} {lines : LoadedClass → UInt32 → List Location}
  {allowed : World → Deed → Prop} {w w' v : World} {deeds since : List Deed} {q : Path} {name : String}
  {c : LoadedClass} {source : Source} {requested : List RequestedBreakpoint} {index : SourceIndex} {root : Path}

/-! What some deeds leave as it is -/

/-- Nothing is done but that reports are taken up. -/
def Listening (deeds : List Deed) : Prop := ∀ deed ∈ deeds, ∃ r c, deed = .report r c

theorem touched_append (hNoSet : ∀ source requested, .set source requested ∉ since) (hNoSync : .sync ∉ since) :
    touched (deeds ++ since) = touched deeds := by
  induction since using List.reverseRecOn with
  | nil => rw [List.append_nil]
  | append_singleton since deed ih =>
    rw [← List.append_assoc, touched_snoc, ih (fun source requested hMem => hNoSet source requested
      (List.mem_append_left _ hMem)) fun hMem => hNoSync (List.mem_append_left _ hMem)]
    have hLast : deed ∈ since ++ [deed] := List.mem_append_right _ (List.mem_singleton_self _)
    cases deed with
    | set source requested => exact absurd hLast (hNoSet source requested)
    | sync => exact absurd hLast hNoSync
    | report r c => rfl
    | prepare name c => rfl

theorem Reaches.same_book (hReaches : Reaches answers allowed w since w')
    (hNoSet : ∀ source requested, .set source requested ∉ since) : w'.book = w.book := by
  induction hReaches with
  | nil => rfl
  | snoc _ _ hDoes ih =>
    have hBefore := ih fun source requested hMem => hNoSet source requested (List.mem_append_left _ hMem)
    rcases hDoes.book with hBook | ⟨source, requested, rfl, -⟩
    · exact hBook.trans hBefore
    · exact absurd (List.mem_append_right _ (List.mem_singleton_self _)) (hNoSet source requested)

theorem Listening.no_set (hListening : Listening deeds) (source : Source) (requested : List RequestedBreakpoint) :
    .set source requested ∉ deeds := by
  intro hMem
  obtain ⟨r, c, hEq⟩ := hListening _ hMem
  cases hEq

theorem Listening.no_sync (hListening : Listening deeds) : .sync ∉ deeds := by
  intro hMem
  obtain ⟨r, c, hEq⟩ := hListening _ hMem
  cases hEq

theorem Reaches.onward (hReaches : Reaches (Interleaved Willing) allowed w since w') (hSane : Sane w) :
    w.history <+: w'.history ∧ ∀ q, w'.placer.candidates q = w.placer.candidates q := by
  have hKept := hReaches.keeps
    (fun v => Sane v ∧ w.history <+: v.history ∧ ∀ q, v.placer.candidates q = w.placer.candidates q)
    ⟨hSane, List.prefix_rfl, fun _ => rfl⟩ ?_
  · exact hKept.2
  · rintro v deed v' ⟨hSane, hHistory, hCandidates⟩ - hDoes
    have hMoves := hDoes.moves hSane.order
    exact ⟨hSane.step hDoes, hHistory.trans hMoves.history, fun q => hMoves.candidates.trans (hCandidates q)⟩

theorem Reaches.prepared (hReaches : Reaches (Interleaved Willing) allowed w (.prepare name c :: since) w')
    (hSane : Sane w) : w.history ++ [.prepared name c] <+: w'.history := by
  obtain ⟨v, hFirst, hRest⟩ := (show Reaches _ _ w ([.prepare name c] ++ since) w' from hReaches).split
  obtain ⟨-, hDoes⟩ := hFirst.single
  have hSane' := hSane.step hDoes
  cases hDoes
  exact (hRest.onward hSane').1

theorem Accounted.carry_all (hAccounted : Accounted lines w)
    (hReaches : Reaches (Interleaved (Faithful lines)) Honest w since w') (hNoSync : .sync ∉ since) :
    Accounted lines w' ∧ ∀ e ∈ w'.placer.installed, ∃ i, (e.1, i) ∈ w.placer.installed ∧ e.2.watches = i.watches ∧
      ∀ lookups, Account lines w e.1 i lookups → Account lines w' e.1 e.2 lookups := by
  induction hReaches with
  | nil => exact ⟨hAccounted, fun e he => ⟨e.2, he, rfl, fun _ hAccount => hAccount⟩⟩
  | snoc _ hHonest hDoes ih =>
    obtain ⟨hBefore, hCarry⟩ := ih fun hMem => hNoSync (List.mem_append_left _ hMem)
    refine ⟨hBefore.step hHonest hDoes, fun e he => ?_⟩
    have hOther : _ ≠ Deed.sync := fun hEq => hNoSync (List.mem_append_right _ (List.mem_singleton.mpr hEq.symm))
    obtain ⟨i, hi, hWatches, hLast⟩ := hBefore.carry hDoes hOther he
    obtain ⟨j, hj, hWatches', hFirst⟩ := hCarry _ hi
    exact ⟨j, hj, hWatches.trans hWatches', fun lookups hAccount => hLast lookups (hFirst lookups hAccount)⟩

/-! The two orders -/

/-- The breakpoints of a source are set and placed, then a class is prepared, and all reports of it are taken up. -/
structure Later (lines : LoadedClass → UInt32 → List Location) (w : World) (source : Source)
    (requested : List RequestedBreakpoint) (name : String) (c : LoadedClass) (w' : World) : Prop where
  reaches : ∃ listening, Listening listening ∧ Reaches (Interleaved (Faithful lines)) Honest w
    ([.set source requested] ++ ([.sync] ++ .prepare name c :: listening)) w'
  only : preparations w'.history = preparations w.history ++ [(name, c)]
  delivered : ∀ r, (r, c) ∈ reports w'.history → (r, c) ∈ w'.given

/-- A class is prepared, then the breakpoints of a source are set and placed; any reports may be taken up meanwhile. -/
structure Earlier (lines : LoadedClass → UInt32 → List Location) (w : World) (source : Source)
    (requested : List RequestedBreakpoint) (name : String) (c : LoadedClass) (w' : World) : Prop where
  reaches : ∃ before between, Listening before ∧ Listening between ∧ Reaches (Interleaved (Faithful lines)) Honest w
    ((.prepare name c :: before) ++ ([.set source requested] ++ (between ++ [.sync]))) w'
  only : preparations w'.history = preparations w.history ++ [(name, c)]

theorem preparations_prepared (h : History) :
    preparations (h ++ [.prepared name c]) = preparations h ++ [(name, c)] := by
  simp [preparations, Backend.Happening.preparation?]

theorem preparations_between {g h h' : History} {classes : List (String × LoadedClass)} (hBefore : g <+: h)
    (hAfter : h <+: h') (hFirst : preparations g = classes) (hLast : preparations h' = classes) :
    preparations h = classes := by
  have hMore : classes <+: preparations h := hFirst ▸ hBefore.filterMap _
  have hLess : preparations h <+: classes := hLast ▸ hAfter.filterMap _
  exact (hMore.eq_of_length_le hLess.length_le).symm

/-- New watches of a source report a class that is prepared next, if a pattern of theirs matches its name. -/
theorem Account.mem_reportedTo_iff {i : Installed} {lookups : List Lookup} {m : History} (hAccounted : Accounted lines w')
    (hAccount : Account lines w' q i lookups) (hFresh : ∀ r ∈ i.watches, r ∉ Backend.issued w.history)
    (hThere : ∀ r ∈ i.watches, r ∈ (liveWatches m).map (·.1))
    (hBefore : w.history <+: m) (hPrepared : m ++ [.prepared name c] <+: w'.history)
    (hOnly : preparations w'.history = preparations w.history ++ [(name, c)])
    (hDelivered : ∀ r, (r, c) ∈ reports w'.history → (r, c) ∈ w'.given) (d : LoadedClass) :
    d ∈ w'.reportedTo i ↔ d = c ∧ ∃ p ∈ lookups.flatMap (·.patterns), covers p name = true := by
  obtain ⟨watched, hWatches, hPatterns, hLive⟩ := hAccount.watches
  have hSound := hAccounted.sane.order.sound
  rw [mem_reportedTo, hWatches, ← hPatterns]
  constructor
  · rintro ⟨r, hr, hGiven⟩
    obtain ⟨x, hx, rfl⟩ := List.mem_map.mp hr
    -- The watch is new, so that it has reported nothing from before; and nothing else was prepared since.
    have hAfter : w.history <+: w'.history := hBefore.trans ((List.prefix_append ..).trans hPrepared)
    obtain ⟨g, other, hSince, hMoment, hWatching⟩ :=
      Backend.since_of_mem_reports hAfter (hFresh x.1 (hWatches ▸ hr)) (hAccounted.mem_reports hGiven)
    obtain ⟨k, rfl⟩ := hSince
    have hNext : preparations (w.history ++ k ++ [.prepared other d]) <+: preparations w.history ++ [(name, c)] :=
      hOnly ▸ hMoment.filterMap _
    rw [preparations_prepared, Backend.preparations_append, List.append_assoc, List.prefix_append_right_inj] at hNext
    have hSame := hNext.subset (List.mem_append_right _ (List.mem_singleton_self (other, d)))
    cases List.mem_singleton.mp hSame
    have hPast : w.history ++ k <+: w'.history := (List.prefix_append ..).trans hMoment
    exact ⟨rfl, x.2, List.mem_map_of_mem hx, hSound.covers_of_watching hPast (hLive x hx) hWatching⟩
  · rintro ⟨rfl, p, hp, hCovers⟩
    obtain ⟨x, hx, rfl⟩ := List.mem_map.mp hp
    have hOwn : x.1 ∈ i.watches := hWatches ▸ List.mem_map_of_mem hx
    obtain ⟨y, hy, hSame⟩ := List.mem_map.mp (hThere x.1 hOwn)
    rw [hSound.eq_of_watch ((List.prefix_append ..).trans hPrepared) hy (hLive x hx) hSame] at hy
    have hWatching : x.1 ∈ watching m name := List.mem_map_of_mem (List.mem_filter.mpr ⟨hy, hCovers⟩)
    exact ⟨x.1, List.mem_map_of_mem hx, hDelivered x.1 (Backend.mem_reports.mpr ⟨m, name, hPrepared, hWatching⟩)⟩

/-- A source that was set, and then placed while nothing was prepared, is placed in what was loaded under a candidate,
and in what its new watches have reported since. -/
theorem Reaches.placedIn {v v' : World} {reported : LoadedClass → Prop}
    (hReaches : Reaches (Interleaved (Faithful lines)) Honest (new index root) deeds v)
    (hTouched : source.path ∈ touched deeds) (hBook : v.book = (w.book.set source requested).2)
    (hSync : Reaches (Interleaved (Faithful lines)) Honest v [.sync] v')
    (hQuiet : preparations v'.history = preparations v.history)
    (hSince : Reaches (Interleaved (Faithful lines)) Honest v' since w')
    (hNoSet : ∀ source requested, .set source requested ∉ since) (hNoSync : .sync ∉ since)
    (hReported : ∀ i lookups, Account lines w' source.path i lookups →
      (∀ r ∈ i.watches, r ∉ Backend.issued v.history ∧ r ∈ (liveWatches v'.history).map (·.1)) →
      (∀ name, (∃ p ∈ lookups.flatMap (·.patterns), covers p name = true) ↔ Awaits v source.path name) →
      ∀ d, d ∈ w'.reportedTo i ↔ reported d) :
    PlacedIn lines w' source.path (w.stored source requested) fun d => Found v source.path d ∨ reported d := by
  have hReaches' := hReaches.trans hSync
  have hAccounted := hReaches.accounted
  have hDoes := hSync.single.2
  obtain ⟨hAccounted', hCarry⟩ := hReaches'.accounted.carry_all hSince hNoSync
  have hBook' : w'.book = (w.book.set source requested).2 :=
    (hSince.same_book hNoSet).trans ((hSync.same_book (by simp)).trans hBook)
  have hAgrees : w'.placer.placedWith source.path = w'.book.current.wanted source.path := by
    refine (hReaches'.trans hSince).willing.agrees _ ?_
    rw [touched_append hNoSet hNoSync, touched_snoc]
    exact fun t ht => nomatch ht
  obtain ⟨hBreakpoints, hThere⟩ := placed_of_set hAccounted'.sane.order hBook' hAgrees
  refine placedIn_of_visited hBreakpoints hThere fun e he hKey => ?_
  obtain ⟨i, hi, hWatches, hAccount⟩ := hCarry e he
  have hFulfils := hReaches.willing.fulfils hDoes.willing hTouched hi
    (BEq.symm hKey)
  have hWanted := hFulfils.wanted
  rw [hBook] at hWanted
  have hPath : e.1 = source.path := eq_of_mem_set hWanted hKey
  obtain ⟨lookups, hPlaced, -, hFound, hAwaits⟩ := hAccounted.placed_quiet hDoes hFulfils hQuiet
  obtain ⟨watched, hSame, -, hLive⟩ := hPlaced.watches
  have hNew : ∀ r ∈ e.2.watches, r ∉ Backend.issued v.history ∧ r ∈ (liveWatches v'.history).map (·.1) := by
    intro r hr
    rw [hWatches] at hr
    refine ⟨hFulfils.placed.fresh r (List.mem_append_right _ hr), ?_⟩
    rw [hSame] at hr
    obtain ⟨x, hx, rfl⟩ := List.mem_map.mp hr
    exact List.mem_map_of_mem (hLive x hx)
  rw [hPath] at hPlaced hAccount hFound hAwaits ⊢
  refine ⟨lookups, hAccount lookups hPlaced, fun d => ?_⟩
  rw [visited, List.mem_append, hFound, hReported e.2 lookups (hAccount lookups hPlaced) hNew hAwaits]

/-- Placed before: in what was loaded under a candidate, and in the class if it is awaited. -/
theorem Later.placedIn (hReaches : Reaches (Interleaved (Faithful lines)) Honest (new index root) deeds w)
    (hLater : Later lines w source requested name c w') : PlacedIn lines w' source.path (w.stored source requested)
      fun d => Found w source.path d ∨ d = c ∧ Awaits w source.path name := by
  obtain ⟨⟨listening, hListening, hRun⟩, hOnly, hDelivered⟩ := hLater
  obtain ⟨w₁, hSet, hRest⟩ := hRun.split
  obtain ⟨w₂, hSync, hPrepare⟩ := hRest.split
  have hReaches₁ := hReaches.trans hSet
  have hReaches' := hReaches₁.trans (hSync.trans hPrepare)
  obtain ⟨-, hFirst⟩ := hSet.single
  cases hFirst
  have hPrepared := hPrepare.willing.prepared (hReaches₁.trans hSync).accounted.sane
  have hBefore : w.history <+: w₂.history := (hSync.willing.onward hReaches₁.accounted.sane).1
  have hQuiet : preparations w₂.history = preparations w.history := by
    have hMore : preparations w.history <+: preparations w₂.history := hBefore.filterMap _
    have hLess : preparations (w₂.history ++ [.prepared name c]) <+: preparations w'.history := hPrepared.filterMap _
    rw [preparations_prepared, hOnly] at hLess
    exact (hMore.eq_of_length_le (by simpa using hLess.length_le)).symm
  have hTouched : source.path ∈ touched (deeds ++ [.set source requested]) := by
    rw [touched_snoc]
    exact List.mem_cons_self
  refine hReaches₁.placedIn hTouched rfl hSync hQuiet hPrepare (by simpa using hListening.no_set)
    (by simpa using hListening.no_sync) fun i lookups hAccount hNew hAwaits d => ?_
  rw [hAccount.mem_reportedTo_iff hReaches'.accounted (fun r hr => (hNew r hr).1) (fun r hr => (hNew r hr).2) hBefore
    hPrepared hOnly hDelivered, hAwaits]
  exact Iff.rfl

theorem Accounted.not_reported {i : Installed} (hAccounted : Accounted lines v) (hDoes : Does answers v .sync w')
    (hFresh : ∀ r ∈ i.watches, r ∉ Backend.issued v.history) (d : LoadedClass) : d ∈ w'.reportedTo i ↔ False := by
  rw [reportedTo_of_other hDoes.given (by simp), hAccounted.reportedTo_fresh hFresh, List.mem_nil_iff]

theorem found_prepared_iff (hCandidates : w'.placer.candidates q = w.placer.candidates q)
    (hAfter : preparations w'.history = preparations w.history ++ [(name, c)]) (d : LoadedClass) :
    Found w' q d ↔ Found w q d ∨ d = c ∧ name ∈ w.placer.candidates q := by
  rw [Found, Found, hCandidates, hAfter]
  simp only [List.mem_append, List.mem_singleton, Prod.mk.injEq, and_or_left, exists_or]
  refine or_congr_right ⟨?_, ?_⟩
  · rintro ⟨m, hm, rfl, rfl⟩
    exact ⟨rfl, hm⟩
  · rintro ⟨rfl, hm⟩
    exact ⟨name, hm, rfl, rfl⟩

/-- Placed after: in what is loaded under a candidate, which the class is if its name is one. -/
theorem Earlier.placedIn (hReaches : Reaches (Interleaved (Faithful lines)) Honest (new index root) deeds w)
    (hEarlier : Earlier lines w source requested name c w') : PlacedIn lines w' source.path (w.stored source requested)
      fun d => Found w source.path d ∨ d = c ∧ name ∈ w.placer.candidates source.path := by
  obtain ⟨⟨before, between, hBefore, hBetween, hRun⟩, hOnly⟩ := hEarlier
  obtain ⟨w₁, hPrepare, hRest⟩ := hRun.split
  obtain ⟨w₂, hSet, hRest⟩ := hRest.split
  obtain ⟨w₃, hListen, hSync⟩ := hRest.split
  have hReaches₁ := hReaches.trans hPrepare
  have hReaches₂ := hReaches₁.trans hSet
  have hReaches₃ := hReaches₂.trans hListen
  obtain ⟨hHistory₁, hCandidates₁⟩ := hPrepare.willing.onward hReaches.accounted.sane
  obtain ⟨hHistory₂, hCandidates₂⟩ := hSet.willing.onward hReaches₁.accounted.sane
  obtain ⟨hHistory₃, hCandidates₃⟩ := hListen.willing.onward hReaches₂.accounted.sane
  have hPrepared : w.history ++ [.prepared name c] <+: w₃.history :=
    (hPrepare.willing.prepared hReaches.accounted.sane).trans (hHistory₂.trans hHistory₃)
  have hAfter : preparations w₃.history = preparations w.history ++ [(name, c)] :=
    preparations_between hPrepared (hSync.willing.onward hReaches₃.accounted.sane).1 (preparations_prepared _) hOnly
  have hBook : w₃.book = (w.book.set source requested).2 := by
    rw [hListen.same_book hBetween.no_set, ← hPrepare.same_book (by simpa using hBefore.no_set)]
    obtain ⟨-, hFirst⟩ := hSet.single
    cases hFirst
    rfl
  have hTouched : source.path ∈ touched (deeds ++ (.prepare name c :: before) ++ [.set source requested] ++ between) := by
    rw [touched_append hBetween.no_set hBetween.no_sync, touched_snoc]
    exact List.mem_cons_self
  have hPlaced := hReaches₃.placedIn hTouched hBook hSync (hOnly.trans hAfter.symm) .nil (by simp) (by simp)
    fun i lookups _ hNew _ => hReaches₃.accounted.not_reported hSync.single.2 fun r hr => (hNew r hr).1
  have hCandidates : w₃.placer.candidates source.path = w.placer.candidates source.path := by
    rw [hCandidates₃, hCandidates₂, hCandidates₁]
  refine hPlaced.congr fun d => ?_
  rw [or_false, found_prepared_iff hCandidates hAfter]

/-- A source is placed with the breakpoints that it has in the book, and these are set again and placed while nothing is
prepared. -/
structure Again (lines : LoadedClass → UInt32 → List Location) (w : World) (source : Source) (i : Installed) (w' : World) :
    Prop where
  placed : (source.path, i) ∈ w.placer.installed
  wanted : w.book.current.bySource.find? source.path = some i.breakpoints
  reaches : Reaches (Interleaved (Faithful lines)) Honest w
    ([.set source (i.breakpoints.map BreakpointSet.again)] ++ [.sync]) w'
  quiet : preparations w'.history = preparations w.history

variable {i : Installed}

theorem stored_again (hWanted : w.book.current.bySource.find? source.path = some i.breakpoints) :
    w.stored source (i.breakpoints.map BreakpointSet.again) = i.breakpoints := by
  change (w.book.current.replace source.path _ w.book.next).2.1 = _
  rw [BreakpointSet.stored_replace, hWanted, Option.getD_some, BreakpointSet.number_again]

theorem Again.placedIn (hReaches : Reaches (Interleaved (Faithful lines)) Honest (new index root) deeds w)
    (hAgain : Again lines w source i w') : PlacedIn lines w' source.path i.breakpoints (Found w source.path) := by
  obtain ⟨-, hWanted, hRun, hQuiet⟩ := hAgain
  obtain ⟨w₁, hSet, hSync⟩ := hRun.split
  have hReaches₁ := hReaches.trans hSet
  obtain ⟨-, hFirst⟩ := hSet.single
  cases hFirst
  have hTouched : source.path ∈ touched (deeds ++ [.set source (i.breakpoints.map BreakpointSet.again)]) := by
    rw [touched_snoc]
    exact List.mem_cons_self
  have hPlaced := hReaches₁.placedIn hTouched rfl hSync hQuiet .nil (by simp) (by simp)
    fun i lookups _ hNew _ => hReaches₁.accounted.not_reported hSync.single.2 fun r hr => (hNew r hr).1
  rw [stored_again hWanted] at hPlaced
  exact hPlaced.congr fun d => iff_of_eq (or_false _)

theorem Account.placedIn {lookups : List Lookup} (hAccounted : Accounted lines w) (hi : (q, i) ∈ w.placer.installed)
    (hAccount : Account lines w q i lookups) : PlacedIn lines w q i.breakpoints (· ∈ w.visited i lookups) := by
  have hOnly : ∀ e ∈ w.placer.installed, (e.1 == q) = true → e = (q, i) := fun e he hKey =>
    hAccounted.sane.order.distinct.eq_of_mem he hi hKey
  refine placedIn_of_visited (fun e he hKey => ?_) (fun _ => ⟨_, hi, BEq.rfl⟩) fun e he hKey => ?_
  · rw [hOnly e he hKey]
  · rw [hOnly e he hKey]
    exact ⟨lookups, hAccount, fun _ => Iff.rfl⟩

theorem Later.keeps_iff {later earlier : World}
    (hReaches : Reaches (Interleaved (Faithful lines)) Honest (new index root) deeds w) (hOwn : Own lines)
    (hNew : ¬ Found w source.path c) (hLater : Later lines w source requested name c later)
    (hEarlier : Earlier lines w source requested name c earlier) :
    Keeps later earlier source.path ∧ Keeps earlier later source.path ↔
      (Awaits w source.path name ↔ name ∈ w.placer.candidates source.path) ∨
        ¬ HasCode lines (w.stored source requested) c := by
  have hPlaced := hLater.placedIn hReaches
  have hPlaced' := hEarlier.placedIn hReaches
  obtain ⟨_, -, hRun⟩ := hLater.reaches
  obtain ⟨_, _, -, -, hRun'⟩ := hEarlier.reaches
  have hSane := (hReaches.trans hRun).willing.sane
  have hSane' := (hReaches.trans hRun').willing.sane
  rw [hPlaced.keeps_iff hPlaced' hOwn hSane hSane', hPlaced'.keeps_iff hPlaced hOwn hSane' hSane]
  constructor
  · rintro ⟨hThere, hBack⟩
    by_cases hCode : HasCode lines (w.stored source requested) c
    · refine .inl ⟨fun hAwaits => ?_, fun hName => ?_⟩
      · exact ((hThere c (.inr ⟨rfl, hAwaits⟩) hCode).resolve_left hNew).2
      · exact ((hBack c (.inr ⟨rfl, hName⟩) hCode).resolve_left hNew).2
    · exact .inr hCode
  · intro hSame
    have hIff : ∀ d, d = c → HasCode lines (w.stored source requested) d →
        (Awaits w source.path name ↔ name ∈ w.placer.candidates source.path) :=
      fun d hd hCode => hSame.resolve_right fun hNone => hNone (hd ▸ hCode)
    refine ⟨fun d hd hCode => ?_, fun d hd hCode => ?_⟩
    · exact hd.imp_right fun ⟨hEq, hAwaits⟩ => ⟨hEq, (hIff d hEq hCode).mp hAwaits⟩
    · exact hd.imp_right fun ⟨hEq, hName⟩ => ⟨hEq, (hIff d hEq hCode).mpr hName⟩

theorem Again.keeps_iff (hReaches : Reaches (Interleaved (Faithful lines)) Honest (new index root) deeds w)
    (hOwn : Own lines) (hAgain : Again lines w source i w') :
    Keeps w w' source.path ↔ ∀ c ∈ w.reportedTo i, HasCode lines i.breakpoints c → Found w source.path c := by
  have hAccounted := hReaches.accounted
  obtain ⟨lookups, hAccount⟩ := hAccounted.accounts _ hAgain.placed
  have hSane' := (hReaches.trans hAgain.reaches).willing.sane
  rw [(hAccount.placedIn hAccounted hAgain.placed).keeps_iff (hAgain.placedIn hReaches) hOwn hAccounted.sane hSane']
  constructor
  · exact fun hAll c hc => hAll c (List.mem_append_right _ hc)
  · intro hAll c hc hCode
    rcases List.mem_append.mp hc with hFound | hReported
    · obtain ⟨l, hl, hFound⟩ := List.mem_flatMap.mp hFound
      exact ⟨l.name, hAccount.names ▸ List.mem_map_of_mem hl, hAccount.prepared hl hFound⟩
    · exact hAll c hReported hCode

/-- It comes to the same in which order a class is prepared and the breakpoints of a source are set exactly if the class
is found where it would have been awaited, or has no code for them. And setting the same breakpoints again loses nothing
exactly if all classes that were reported, and have code for them, are found. -/
theorem keeps_iff_found (hReaches : Reaches (Interleaved (Faithful lines)) Honest (new index root) deeds w)
    (hOwn : Own lines) :
    (∀ source requested name c later earlier, (∀ m, (m, c) ∉ preparations w.history) →
      Later lines w source requested name c later → Earlier lines w source requested name c earlier →
      (Keeps later earlier source.path ∧ Keeps earlier later source.path ↔
        (Awaits w source.path name ↔ name ∈ w.placer.candidates source.path) ∨
          ¬ HasCode lines (w.stored source requested) c)) ∧
    ∀ source i w', Again lines w source i w' → (Keeps w w' source.path ↔
      ∀ c ∈ w.reportedTo i, HasCode lines i.breakpoints c → Found w source.path c) := by
  refine ⟨fun source requested name c later earlier hNew hLater hEarlier => ?_, fun source i w' hAgain => ?_⟩
  · exact hLater.keeps_iff hReaches hOwn (fun ⟨m, _, hPrepared⟩ => hNew m hPrepared) hEarlier
  · exact hAgain.keeps_iff hReaches hOwn

theorem Reaches.find?_of_placed (hReaches : Reaches (Interleaved Willing) allowed (new index root) deeds w)
    (hUntouched : ∀ t ∈ touched deeds, (t == q) = false) (hi : (q, i) ∈ w.placer.installed) :
    w.book.current.bySource.find? q = some i.breakpoints := by
  have hAgrees := hReaches.agrees q hUntouched
  rw [Placer.placedWith, hReaches.sane.order.distinct.find? hi] at hAgrees
  obtain ⟨breakpoints, hFind, hRevision⟩ := Option.bind_eq_some_iff.mp hAgrees.symm
  obtain ⟨n, -, hEq⟩ := Option.map_eq_some_iff.mp hRevision
  cases hEq
  exact hFind

/-- A nested class is prepared after its breakpoints are placed, or before; in the first case they are then set again. -/
theorem nested_runs : ∃ later earlier again i,
    Later Sample.lines (Sample.start ["A"]) Sample.source [Sample.breakpointAt 3] "A$B" ⟨1, 10⟩ later ∧
    Reaches (Interleaved (Faithful Sample.lines)) Honest (Sample.start ["A"])
      [.set Sample.source [Sample.breakpointAt 3], .sync, .prepare "A$B" ⟨1, 10⟩, .report 2 ⟨1, 10⟩] later ∧
    Earlier Sample.lines (Sample.start ["A"]) Sample.source [Sample.breakpointAt 3] "A$B" ⟨1, 10⟩ earlier ∧
    Again Sample.lines later Sample.source i again ∧
    Verifies later Sample.source.path 1 ∧ earlier.placer.verified = [] ∧ again.placer.verified = [] := by
  obtain ⟨later, hTest, hLater⟩ := exists_of_replay Sample.lines (fun _ => []) Honest (Sample.start ["A"])
    [.set Sample.source [Sample.breakpointAt 3], .sync, .prepare "A$B" ⟨1, 10⟩, .report 2 ⟨1, 10⟩]
    (fun w => decide (preparations w.history = [("A$B", ⟨1, 10⟩)] ∧ reports w.history = w.given) &&
      w.placer.installed.any fun e => decide (e.1.text = "/w/A.java" ∧ 1 ∈ e.2.verified) &&
        (replay Sample.lines (fun _ => []) Honest w
          [.set Sample.source (e.2.breakpoints.map BreakpointSet.again), .sync]).any fun w' : World =>
            decide (preparations w'.history = preparations w.history ∧ w'.placer.verified = [])) (by decide +kernel)
  obtain ⟨earlier, hTest', hEarlier⟩ := exists_of_replay Sample.lines (fun _ => []) Honest (Sample.start ["A"])
    [.prepare "A$B" ⟨1, 10⟩, .set Sample.source [Sample.breakpointAt 3], .sync]
    (fun w => decide (preparations w.history = [("A$B", ⟨1, 10⟩)] ∧ w.placer.verified = []))
    (by decide +kernel)
  obtain ⟨hNow, hNext⟩ := (Bool.and_eq_true ..).mp hTest
  obtain ⟨hOnly, hDelivered⟩ := of_decide_eq_true hNow
  obtain ⟨⟨⟨text⟩, i⟩, hi, hEntry⟩ := List.any_eq_true.mp hNext
  obtain ⟨hPlaced, hReplay⟩ := (Bool.and_eq_true ..).mp hEntry
  obtain ⟨hPath, hVerified⟩ := of_decide_eq_true hPlaced
  cases hPath
  obtain ⟨again, hAgain, hLost⟩ := (Option.any_eq_true ..).mp hReplay
  obtain ⟨hQuiet, hNone⟩ := of_decide_eq_true hLost
  obtain ⟨hOnly', hNone'⟩ := of_decide_eq_true hTest'
  refine ⟨later, earlier, again, i, ⟨⟨[.report 2 ⟨1, 10⟩], by simp [Listening], hLater⟩, hOnly, fun r hr => ?_⟩, hLater,
    ⟨⟨[], [], by simp [Listening], by simp [Listening], hEarlier⟩, hOnly'⟩, ⟨hi, ?_, ?_, hQuiet⟩,
    ⟨_, hi, BEq.rfl, hVerified⟩, hNone', hNone⟩
  · rwa [← hDelivered]
  · exact hLater.willing.find?_of_placed (fun t ht => nomatch (ht : t ∈ [])) hi
  · exact reaches_of_replay (Option.mem_def.mp hAgain)

/-- A nested class that would be reported is not found; one that was reported is lost. -/
theorem lost_nested : ∃ later earlier again i,
    Later Sample.lines (Sample.start ["A"]) Sample.source [Sample.breakpointAt 3] "A$B" ⟨1, 10⟩ later ∧
    Earlier Sample.lines (Sample.start ["A"]) Sample.source [Sample.breakpointAt 3] "A$B" ⟨1, 10⟩ earlier ∧
    Again Sample.lines later Sample.source i again ∧
    ¬ Keeps later earlier Sample.source.path ∧ ¬ Keeps later again Sample.source.path ∧
    (Keeps later earlier Sample.source.path ∧ Keeps earlier later Sample.source.path ↔
      (Awaits (Sample.start ["A"]) Sample.source.path "A$B" ↔
        "A$B" ∈ (Sample.start ["A"]).placer.candidates Sample.source.path) ∨
      ¬ HasCode Sample.lines ((Sample.start ["A"]).stored Sample.source [Sample.breakpointAt 3]) ⟨1, 10⟩) ∧
    (Keeps later again Sample.source.path ↔
      ∀ c ∈ later.reportedTo i, HasCode Sample.lines i.breakpoints c → Found later Sample.source.path c) := by
  obtain ⟨later, earlier, again, i, hLater, hReaches, hEarlier, hAgain, hStops, hNone, hNone'⟩ := nested_runs
  refine ⟨later, earlier, again, i, hLater, hEarlier, hAgain, fun hKeeps => ?_, fun hKeeps => ?_, ?_, ?_⟩
  · have hLost := (hKeeps.verified 1 hStops).mem_verified
    simp [hNone] at hLost
  · have hLost := (hKeeps.verified 1 hStops).mem_verified
    simp [hNone'] at hLost
  · exact (keeps_iff_found .nil Sample.own).1 _ _ _ _ _ _ (fun m hm => nomatch hm) hLater hEarlier
  · exact (keeps_iff_found hReaches Sample.own).2 _ _ _ hAgain

end JvmDebug.World
