import JvmDebug.Proofs.Placement.Account
import JvmDebug.Proofs.Placement.Exact

/-!
# Where a source stops

What is placed for a source, as the client sees it: the locations at which it stops for its breakpoints, and the
breakpoints that have code. Both are settled by the classes in which the source was placed. A sync in the course of
which nothing is prepared places a source in the classes that are loaded under its candidates.
-/

namespace JvmDebug.World
set_option autoImplicit false

open Jdwp (LoadedClass Location RequestId)
open Backend (History Interleaved Willing Faithful Own covers loaded preparations)

variable {lines : LoadedClass → UInt32 → List Location} {allowed : World → Deed → Prop} {w w' : World}
  {deeds since : List Deed} {q : Path} {id : Int} {breakpoints : List Breakpoint} {classes classes' : LoadedClass → Prop}

/-- A source stops at a location for a breakpoint. -/
def StopsAt (w : World) (q : Path) (id : Int) (l : Location) : Prop :=
  ∃ e ∈ w.placer.installed, (e.1 == q) = true ∧ ∃ x ∈ e.2.placements, x.breakpoint = id ∧ x.location = l

def Verifies (w : World) (q : Path) (id : Int) : Prop :=
  ∃ e ∈ w.placer.installed, (e.1 == q) = true ∧ id ∈ e.2.verified

/-- No location of a source is lost, and none of its breakpoints that have code. -/
structure Keeps (w w' : World) (q : Path) : Prop where
  locations : ∀ id l, StopsAt w q id l → StopsAt w' q id l
  verified : ∀ id, Verifies w q id → Verifies w' q id

theorem Verifies.mem_verified (hVerifies : Verifies w q id) : id ∈ w.placer.verified := by
  obtain ⟨e, he, -, hId⟩ := hVerifies
  exact List.mem_flatMap.mpr ⟨e, he, hId⟩

theorem Sane.verifies_iff (hSane : Sane w) : Verifies w q id ↔ ∃ l, StopsAt w q id l := by
  constructor
  · rintro ⟨e, he, hKey, hId⟩
    obtain ⟨x, hx, hEq⟩ := List.mem_map.mp ((hSane.verified e he id).mp hId)
    exact ⟨x.location, e, he, hKey, x, hx, hEq, rfl⟩
  · rintro ⟨l, e, he, hKey, x, hx, hEq, -⟩
    exact ⟨e, he, hKey, (hSane.verified e he id).mpr (List.mem_map.mpr ⟨x, hx, hEq⟩)⟩

theorem Sane.keeps_iff (hSane : Sane w) (hSane' : Sane w') :
    Keeps w w' q ↔ ∀ id l, StopsAt w q id l → StopsAt w' q id l := by
  refine ⟨fun hKeeps => hKeeps.locations, fun hLocations => ⟨hLocations, fun id hVerifies => ?_⟩⟩
  obtain ⟨l, hStops⟩ := hSane.verifies_iff.mp hVerifies
  exact hSane'.verifies_iff.mpr ⟨l, hLocations id l hStops⟩

/-! By the classes in which it was placed -/

/-- A source stops where its breakpoints ask for it in some classes. -/
def PlacedIn (lines : LoadedClass → UInt32 → List Location) (w : World) (q : Path) (breakpoints : List Breakpoint)
    (classes : LoadedClass → Prop) : Prop :=
  ∀ id l, StopsAt w q id l ↔ ∃ c, classes c ∧ (id, l) ∈ spotsIn lines breakpoints c

theorem PlacedIn.congr (hPlaced : PlacedIn lines w q breakpoints classes) (hSame : ∀ c, classes c ↔ classes' c) :
    PlacedIn lines w q breakpoints classes' := by
  intro id l
  rw [hPlaced id l]
  exact exists_congr fun c => and_congr_left' (hSame c)

theorem PlacedIn.keeps_iff (hPlaced : PlacedIn lines w q breakpoints classes)
    (hPlaced' : PlacedIn lines w' q breakpoints classes') (hOwn : Own lines) (hSane : Sane w) (hSane' : Sane w') :
    Keeps w w' q ↔ ∀ c, classes c → HasCode lines breakpoints c → classes' c := by
  rw [hSane.keeps_iff hSane']
  constructor
  · intro hKeeps c hc hCode
    obtain ⟨⟨id, l⟩, hSpot⟩ := List.exists_mem_of_ne_nil _ (spotsIn_ne_nil_iff.mpr hCode)
    obtain ⟨c', hc', hSpot'⟩ := (hPlaced' id l).mp (hKeeps id l ((hPlaced id l).mpr ⟨c, hc, hSpot⟩))
    rwa [eq_of_mem_spotsIn hOwn hSpot hSpot']
  · intro hClasses id l hStops
    obtain ⟨c, hc, hSpot⟩ := (hPlaced id l).mp hStops
    exact (hPlaced' id l).mpr ⟨c, hClasses c hc (spotsIn_ne_nil_iff.mp (List.ne_nil_of_mem hSpot)), hSpot⟩

theorem placedIn_of_visited (hBreakpoints : ∀ e ∈ w.placer.installed, (e.1 == q) = true → e.2.breakpoints = breakpoints)
    (hThere : breakpoints ≠ [] → ∃ e ∈ w.placer.installed, (e.1 == q) = true)
    (hVisited : ∀ e ∈ w.placer.installed, (e.1 == q) = true →
      ∃ lookups, Account lines w e.1 e.2 lookups ∧ ∀ c, c ∈ w.visited e.2 lookups ↔ classes c) :
    PlacedIn lines w q breakpoints classes := by
  intro id l
  constructor
  · rintro ⟨e, he, hKey, hx⟩
    obtain ⟨lookups, hAccount, hClasses⟩ := hVisited e he hKey
    obtain ⟨c, hc, hSpot⟩ := hAccount.mem_spots.mp hx
    rw [hBreakpoints e he hKey] at hSpot
    exact ⟨c, (hClasses c).mp hc, hSpot⟩
  · rintro ⟨c, hc, hSpot⟩
    obtain ⟨e, he, hKey⟩ := hThere fun hNone => by
      rw [hNone] at hSpot
      cases hSpot
    obtain ⟨lookups, hAccount, hClasses⟩ := hVisited e he hKey
    rw [← hBreakpoints e he hKey] at hSpot
    exact ⟨e, he, hKey, hAccount.mem_spots.mpr ⟨c, (hClasses c).mpr hc, hSpot⟩⟩

/-! A source that was set -/

/-- The breakpoints that a source has in the book after it was set. -/
def stored (w : World) (source : Source) (requested : List RequestedBreakpoint) : List Breakpoint :=
  (w.book.set source requested).1.2

variable {source : Source} {requested : List RequestedBreakpoint}

theorem wanted_of_set : (w.book.set source requested).2.current.wanted source.path =
    if (w.stored source requested).isEmpty then none
    else some (w.stored source requested, w.book.current.generation + 1) := by
  change (w.book.current.replace source.path requested w.book.next).1.wanted source.path = _
  rw [BreakpointSet.wanted, BreakpointSet.find?_bySource_replace, BreakpointSet.find?_revisions_replace]
  simp only [BEq.rfl, if_true]
  change _ = if (w.book.current.replace source.path requested w.book.next).2.1.isEmpty then _ else _
  split <;> rfl

theorem placed_of_set (hOrder : w'.placer.InOrder w'.history) (hBook : w'.book = (w.book.set source requested).2)
    (hAgrees : w'.placer.placedWith source.path = w'.book.current.wanted source.path) :
    (∀ e ∈ w'.placer.installed, (e.1 == source.path) = true → e.2.breakpoints = w.stored source requested) ∧
    (w.stored source requested ≠ [] → ∃ e ∈ w'.placer.installed, (e.1 == source.path) = true) := by
  rw [hBook, wanted_of_set, Placer.placedWith] at hAgrees
  constructor
  · intro e he hKey
    rw [← PathMap.find?_congr _ hKey, hOrder.distinct.find? he] at hAgrees
    split at hAgrees
    · cases hAgrees
    · exact (Prod.mk.inj (Option.some.inj hAgrees)).1
  · intro hSome
    rw [if_neg (by simpa using hSome)] at hAgrees
    obtain ⟨i, hFind, -⟩ := Option.map_eq_some_iff.mp hAgrees
    exact PathMap.isSome_find?.mp (by rw [hFind]; rfl)

theorem eq_of_mem_set {e : Path × List Breakpoint} (he : e ∈ (w.book.set source requested).2.current.bySource)
    (hKey : (e.1 == source.path) = true) : e.1 = source.path := by
  change e ∈ (w.book.current.replace source.path requested w.book.next).1.bySource at he
  rcases BreakpointSet.mem_bySource_replace _ _ _ _ he with ⟨-, hOther⟩ | rfl
  · rw [hKey] at hOther
    cases hOther
  · rfl

theorem Reaches.fulfils {index : SourceIndex} {root : Path} {t : Path} {e : Path × Installed}
    (hReaches : Reaches (Interleaved Willing) allowed (new index root) deeds w)
    (hDoes : Does (Interleaved Willing) w .sync w') (ht : t ∈ touched deeds) (he : e ∈ w'.placer.installed)
    (hKey : (t == e.1) = true) : Placer.Fulfils w.book.current.bySource w.book.current.revisions
      (w.placer.candidates e.1) w.history e w'.history := by
  cases (hDoes.moves hReaches.sane.order).comes e he with
  | kept hKept hCurrent _ => exact absurd (beq_iff_eq.mp (hCurrent rfl)) (hReaches.outdated ht hKept hKey)
  | placed _ hFulfils => exact hFulfils
  | visited hReport _ _ _ => cases hReport

/-! While nothing is prepared -/

/-- A class is loaded under a candidate of a source. -/
def Found (w : World) (q : Path) (c : LoadedClass) : Prop :=
  ∃ m ∈ w.placer.candidates q, (m, c) ∈ preparations w.history

/-- A source that is placed now will be told of a class of this name. -/
def Awaits (w : World) (q : Path) (name : String) : Prop :=
  ∃ m ∈ w.placer.candidates q, ∃ p ∈ Lookup.patterns ⟨m, w.history⟩, covers p name = true

theorem found_of_quiet {h h' : History} {l : Lookup} (hBefore : h <+: l.moment) (hIn : l.In h')
    (hQuiet : preparations h' = preparations h) : l.found = loaded h l.name := by
  have hAfter : l.moment <+: h' := (List.prefix_append ..).trans hIn
  have hSame : preparations h = preparations l.moment := by
    refine (hBefore.filterMap _).eq_of_length_le ?_
    exact Nat.le_trans (hAfter.filterMap _).length_le (Nat.le_of_eq (congrArg List.length hQuiet))
  rw [Lookup.found, loaded, loaded, hSame]

/-- A source that is placed while nothing is prepared is placed in the classes that are loaded under its candidates. -/
theorem Accounted.placed_quiet {e : Path × Installed} (hAccounted : Accounted lines w)
    (hDoes : Does (Interleaved (Faithful lines)) w .sync w')
    (hFulfils : Placer.Fulfils w.book.current.bySource w.book.current.revisions (w.placer.candidates e.1) w.history e
      w'.history) (hQuiet : preparations w'.history = preparations w.history) :
    ∃ lookups, Account lines w' e.1 e.2 lookups ∧ w'.reportedTo e.2 = [] ∧
      (∀ c, c ∈ lookups.flatMap (·.found) ↔ Found w e.1 c) ∧
      ∀ name, (∃ p ∈ lookups.flatMap (·.patterns), covers p name = true) ↔ Awaits w e.1 name := by
  obtain ⟨lookups, hAccount, hNone, hMoments⟩ := hAccounted.placed hDoes hFulfils
  have hFound : ∀ l ∈ lookups, l.found = loaded w.history l.name := fun l hl =>
    found_of_quiet (hMoments l hl) (hAccount.past l hl) hQuiet
  have hPatterns : ∀ l ∈ lookups, l.patterns = Lookup.patterns ⟨l.name, w.history⟩ := by
    intro l hl
    rw [Lookup.patterns, hFound l hl]
    rfl
  have hMoves := hDoes.willing.moves hAccounted.sane.order
  have hNames := hAccount.names.trans hMoves.candidates
  refine ⟨lookups, hAccount, hNone, fun c => ?_, fun name => ?_⟩
  · rw [Found, ← hNames, List.mem_flatMap]
    simp only [List.mem_map, exists_exists_and_eq_and, ← Backend.mem_loaded]
    exact exists_congr fun l => and_congr_right fun hl => by rw [hFound l hl]
  · rw [Awaits, ← hNames]
    simp only [List.mem_map, exists_exists_and_eq_and, List.mem_flatMap]
    constructor
    · rintro ⟨p, ⟨l, hl, hp⟩, hCovers⟩
      exact ⟨l, hl, p, hPatterns l hl ▸ hp, hCovers⟩
    · rintro ⟨l, hl, p, hp, hCovers⟩
      exact ⟨p, ⟨l, hl, hPatterns l hl ▸ hp⟩, hCovers⟩

end JvmDebug.World
