import JvmDebug.Proofs.Breakpoint.Book
import JvmDebug.Proofs.Placement.History
import JvmDebug.Proofs.Placement.Sync
import Mathlib.Data.List.Nodup

/-!
# Setting, syncing and reporting

A machine is faithful if it tells the classes that are loaded under a name, and the lines of a class as they are. It
reports a class that is prepared by each watch that matches its name then. `lines` says where the lines of classes
begin.

The book of breakpoints, what is placed for it and the machine, as one world that goes on by deeds: the client sets the
breakpoints of a source, what is placed is brought in line, a report of a prepared class is taken up, and the machine
prepares classes. The deeds come in any order.
-/

namespace JvmDebug.Backend
set_option autoImplicit false

/-! ## Machines that tell what is so -/

open Jdwp (LoadedClass Location RequestId)

def loaded (h : History) (name : String) : List LoadedClass := ((preparations h).filter (·.1 = name)).map (·.2)

theorem mem_loaded {h : History} {name : String} {c : LoadedClass} : c ∈ loaded h name ↔ (name, c) ∈ preparations h := by
  simp [loaded]

theorem mem_preparations {h : History} {name : String} {c : LoadedClass} :
    (name, c) ∈ preparations h ↔ ∃ g, g ++ [.prepared name c] <+: h := by
  constructor
  · intro hMem
    obtain ⟨x, hx, hPreparation⟩ := List.mem_filterMap.mp hMem
    obtain ⟨g, k, rfl⟩ := List.append_of_mem hx
    cases x with
    | answered _ _ => cases hPreparation
    | prepared name' c' =>
      cases hPreparation
      exact ⟨g, k, by simp⟩
  · rintro ⟨g, k, rfl⟩
    simp [preparations, Happening.preparation?]

/-! What is told -/

variable {lines : LoadedClass → UInt32 → List Location} {h k g : History} {x : Happening} {name : String}
  {c : LoadedClass} {f : Finding}

/-- Whether it was so when it was told. -/
def Finding.Holds (lines : LoadedClass → UInt32 → List Location) (h : History) : Finding → Prop
  | .classes name found => found = loaded h name
  | .lines c line found => found = lines c line

/-- No call is refused, and what is told is so. -/
def Faithful (lines : LoadedClass → UInt32 → List Location) : Rule := fun h x =>
  Willing h x ∧ ∀ f, x.finding? = some f → f.Holds lines h

theorem Faithful.willing (h : History) (x : Happening) (hx : Faithful lines h x) : Willing h x := hx.1

theorem Faithful.free (h : History) (name : String) (c : LoadedClass) : Faithful lines h (.prepared name c) :=
  ⟨Willing.free h name c, fun _ hf => nomatch hf⟩

theorem Obeyed.exists_moment (hObeyed : Obeyed (Faithful lines) h) (hPrefix : g ++ k <+: h) (hf : f ∈ findings k) :
    ∃ m x, g <+: m ∧ m ++ [x] <+: h ∧ x.finding? = some f ∧ f.Holds lines m := by
  obtain ⟨x, hx, hFinding⟩ := List.mem_filterMap.mp hf
  obtain ⟨before, after, rfl⟩ := List.append_of_mem hx
  have hMoment : (g ++ before) ++ [x] <+: h := by
    refine List.IsPrefix.trans ?_ hPrefix
    simp
  exact ⟨g ++ before, x, List.prefix_append .., hMoment, hFinding, (hObeyed _ x hMoment).2 f hFinding⟩

theorem eq_of_finding?_classes {found : List LoadedClass} (hFinding : x.finding? = some (.classes name found)) :
    x = .answered (.loadedClasses name) (.ok found) := by
  unfold Happening.finding? at hFinding
  split at hFinding <;> cases hFinding
  rfl

/-- A location lies in the class whose line it is. -/
def Own (lines : LoadedClass → UInt32 → List Location) : Prop :=
  ∀ c line, ∀ l ∈ lines c line, l.typeTag = c.typeTag ∧ l.classId = c.id

theorem Own.eq {c' : LoadedClass} {line line' : UInt32} {l : Location} (hOwn : Own lines) (hl : l ∈ lines c line)
    (hl' : l ∈ lines c' line') : c = c' := by
  obtain ⟨hTag, hId⟩ := hOwn c line l hl
  obtain ⟨hTag', hId'⟩ := hOwn c' line' l hl'
  cases c
  cases c'
  simp_all

/-! What is reported -/

/-- Whether a pattern matches a name. It may have a star at one of its ends. -/
def covers (pattern name : String) : Bool :=
  match pattern.toList with
  | '*' :: rest => rest.isSuffixOf name.toList
  | cs => if cs.getLast? = some '*' then cs.dropLast.isPrefixOf name.toList else cs = name.toList

/-- The watches that report a class if it is prepared now. -/
def watching (h : History) (name : String) : List RequestId :=
  ((liveWatches h).filter fun w => covers w.2 name).map (·.1)

/-- What is reported when something happens after a history. -/
def reportsOf (live : List (RequestId × String)) : Happening → List (RequestId × LoadedClass)
  | .prepared name c => (live.filter fun w => covers w.2 name).map (·.1, c)
  | _ => []

def reportsFrom (live : List (RequestId × String)) : History → List (RequestId × LoadedClass)
  | [] => []
  | x :: rest => reportsOf live x ++ reportsFrom (watchStep live x) rest

/-- Which watch has reported which class. -/
def reports (h : History) : List (RequestId × LoadedClass) := reportsFrom [] h

theorem reportsFrom_append (live : List (RequestId × String)) (h k : History) :
    reportsFrom live (h ++ k) = reportsFrom live h ++ reportsFrom (h.foldl watchStep live) k := by
  induction h generalizing live with
  | nil => rfl
  | cons x rest ih => simp [reportsFrom, ih]

theorem reports_append : reports (h ++ k) = reports h ++ reportsFrom (liveWatches h) k := reportsFrom_append [] h k

theorem reports_snoc : reports (h ++ [x]) = reports h ++ reportsOf (liveWatches h) x := by
  rw [reports_append, reportsFrom, reportsFrom, List.append_nil]

theorem mem_reportsOf {r : RequestId} :
    (r, c) ∈ reportsOf (liveWatches h) x ↔ ∃ name, x = .prepared name c ∧ r ∈ watching h name := by
  cases x with
  | answered _ _ => simp [reportsOf]
  | prepared name c' =>
    simp only [reportsOf, watching, List.mem_map, Prod.mk.injEq, Happening.prepared.injEq]
    constructor
    · rintro ⟨w, hw, rfl, rfl⟩
      exact ⟨name, ⟨rfl, rfl⟩, w, hw, rfl⟩
    · rintro ⟨_, ⟨rfl, rfl⟩, w, hw, rfl⟩
      exact ⟨w, hw, rfl, rfl⟩

/-- A class is reported by the watches that stood and matched its name when it was prepared. -/
theorem mem_reports {r : RequestId} : (r, c) ∈ reports h ↔ ∃ g name,
    g ++ [.prepared name c] <+: h ∧ r ∈ watching g name := by
  induction h using List.reverseRecOn with
  | nil => simp [reports, reportsFrom]
  | append_singleton h x ih =>
    rw [reports_snoc, List.mem_append, ih, mem_reportsOf]
    constructor
    · rintro (⟨g, name, hPrefix, hr⟩ | ⟨name, rfl, hr⟩)
      · exact ⟨g, name, hPrefix.trans (List.prefix_append ..), hr⟩
      · exact ⟨h, name, List.prefix_rfl, hr⟩
    · rintro ⟨g, name, hPrefix, hr⟩
      rcases List.prefix_concat_iff.mp hPrefix with hEq | hPrefix
      · obtain ⟨rfl, hx⟩ := List.append_inj' hEq rfl
        exact .inr ⟨name, (List.singleton_inj.mp hx).symm, hr⟩
      · exact .inl ⟨g, name, hPrefix, hr⟩

theorem issued_of_mem_reports {r : RequestId} (hr : (r, c) ∈ reports h) : r ∈ issued h := by
  obtain ⟨g, name, hPrefix, hr⟩ := mem_reports.mp hr
  obtain ⟨w, hw, rfl⟩ := List.mem_map.mp hr
  exact issued_of_earlier ((List.prefix_append ..).trans hPrefix) (issued_of_mem_liveWatches ((List.mem_filter.mp hw).1))

/-- A watch that is new has reported only what was prepared since. -/
theorem since_of_mem_reports {h' : History} {r : RequestId} (hBefore : h <+: h') (hNew : r ∉ issued h)
    (hr : (r, c) ∈ reports h') : ∃ g name, h <+: g ∧ g ++ [.prepared name c] <+: h' ∧ r ∈ watching g name := by
  obtain ⟨g, name, hMoment, hWatching⟩ := mem_reports.mp hr
  refine ⟨g, name, ?_, hMoment, hWatching⟩
  rcases List.prefix_or_prefix_of_prefix ((List.prefix_append ..).trans hMoment) hBefore with hEarlier | hSince
  · obtain ⟨w, hw, rfl⟩ := List.mem_map.mp hWatching
    exact absurd (issued_of_earlier hEarlier (issued_of_mem_liveWatches (List.mem_filter.mp hw).1)) hNew
  · exact hSince

theorem Sound.eq_of_watch {v w : RequestId × String} (hSound : Sound h) (hBefore : g <+: h) (hv : v ∈ liveWatches g)
    (hw : w ∈ liveWatches h) (hSame : v.1 = w.1) : v = w := by
  have hStands : v.1 ∈ live h := by
    rw [hSame]
    exact List.mem_append_right _ (List.mem_map_of_mem hw)
  have hKeys : ((liveWatches h).map (·.1)).Nodup := hSound.once.sublist (List.sublist_append_right ..)
  exact List.inj_on_of_nodup_map hKeys (hSound.watch_same hBefore hv hStands) hw hSame

theorem Sound.covers_of_watching {w : RequestId × String} (hSound : Sound h) (hBefore : g <+: h) (hw : w ∈ liveWatches h)
    (hWatching : w.1 ∈ watching g name) : covers w.2 name = true := by
  obtain ⟨v, hv, hSame⟩ := List.mem_map.mp hWatching
  obtain ⟨hv, hCovers⟩ := List.mem_filter.mp hv
  rwa [hSound.eq_of_watch hBefore hv hw hSame] at hCovers

end JvmDebug.Backend

namespace JvmDebug
set_option autoImplicit false

open Jdwp (LoadedClass Location RequestId)
open Backend (History Interleaved Willing Sound liveLocations liveWatches live)

structure World where
  book : BreakpointBook := {}
  placer : Placer
  history : History := []
  /-- The reports that were taken up. -/
  given : List (RequestId × LoadedClass) := []

inductive Deed where
  | set (source : Source) (requested : List RequestedBreakpoint)
  | sync
  | report (r : RequestId) (c : LoadedClass)
  | prepare (name : String) (c : LoadedClass)

def Deed.given : Deed → List (RequestId × LoadedClass)
  | .report r c => [(r, c)]
  | _ => []

namespace World

def new (index : SourceIndex) (root : Path) : World where
  placer := { index, root }

/-- One deed, on a machine that answers as it may. -/
inductive Does (answers : Answering Backend History) : World → Deed → World → Prop where
  | set (w : World) (source : Source) (requested : List RequestedBreakpoint) :
      Does answers w (.set source requested) { w with book := (w.book.set source requested).2 }
  | sync {w : World} {outcome : Except Error (List Int)} {p : Placer} {h : History} :
      Routine.Run answers (Placer.sync w.book.current).run w.placer w.history outcome p h →
      Does answers w .sync { w with placer := p, history := h }
  | report {w : World} {r : RequestId} {c : LoadedClass} {outcome : Except Error (List (Int × UInt32))} {p : Placer}
      {h : History} : Routine.Run answers (Placer.classPrepared r c).run w.placer w.history outcome p h →
      Does answers w (.report r c) { w with placer := p, history := h, given := w.given ++ [(r, c)] }
  | prepare (w : World) (name : String) (c : LoadedClass) :
      Does answers w (.prepare name c) { w with history := w.history ++ [.prepared name c] }

/-- What comes of some deeds, each of them allowed where it was done. -/
inductive Reaches (answers : Answering Backend History) (allowed : World → Deed → Prop) (start : World) :
    List Deed → World → Prop where
  | nil : Reaches answers allowed start [] start
  | snoc {deeds : List Deed} {deed : Deed} {w w' : World} : Reaches answers allowed start deeds w → allowed w deed →
      Does answers w deed w' → Reaches answers allowed start (deeds ++ [deed]) w'

def Anything : World → Deed → Prop := fun _ _ => True

/-- What a watch has reported is taken up once, and nothing else is. -/
def Honest (w : World) : Deed → Prop
  | .report r c => w.given.count (r, c) < (Backend.reports w.history).count (r, c)
  | _ => True

instance (w : World) (deed : Deed) : Decidable (Anything w deed) := isTrue trivial

instance (w : World) (deed : Deed) : Decidable (Honest w deed) :=
  match deed with
  | .report r c => inferInstanceAs (Decidable (w.given.count (r, c) < (Backend.reports w.history).count (r, c)))
  | .set .. | .sync | .prepare .. => isTrue trivial

variable {answers : Answering Backend History} {allowed : World → Deed → Prop} {start w w' : World} {deeds since : List Deed}
  {deed : Deed} {q : Path}

/-- What every deed keeps true of the world is true of it at the end. -/
theorem Reaches.keeps (keeps : World → Prop) (hReaches : Reaches answers allowed start deeds w) (hStart : keeps start)
    (hStep : ∀ w deed w', keeps w → allowed w deed → Does answers w deed w' → keeps w') : keeps w := by
  induction hReaches with
  | nil => exact hStart
  | snoc _ hAllowed hDoes ih => exact hStep _ _ _ ih hAllowed hDoes

theorem Reaches.trans {w₁ : World} (hFirst : Reaches answers allowed start deeds w₁)
    (hSecond : Reaches answers allowed w₁ since w) : Reaches answers allowed start (deeds ++ since) w := by
  induction hSecond with
  | nil => simpa using hFirst
  | snoc _ hAllowed hDoes ih =>
    rw [← List.append_assoc]
    exact ih.snoc hAllowed hDoes

theorem Reaches.last (hReaches : Reaches answers allowed start (deeds ++ [deed]) w) :
    ∃ v, Reaches answers allowed start deeds v ∧ allowed v deed ∧ Does answers v deed w := by
  generalize hAll : deeds ++ [deed] = all at hReaches
  cases hReaches with
  | nil => simp at hAll
  | snoc hBefore hAllowed hDoes =>
    obtain ⟨rfl, hDeed⟩ := List.append_inj' hAll rfl
    cases hDeed
    exact ⟨_, hBefore, hAllowed, hDoes⟩

theorem Reaches.single (hReaches : Reaches answers allowed start [deed] w) :
    allowed start deed ∧ Does answers start deed w := by
  obtain ⟨v, hNone, hAllowed, hDoes⟩ := (show Reaches answers allowed start ([] ++ [deed]) w from hReaches).last
  generalize hNil : [] = all at hNone
  cases hNone with
  | nil => exact ⟨hAllowed, hDoes⟩
  | snoc _ _ _ => simp at hNil

theorem Reaches.split (hReaches : Reaches answers allowed start (deeds ++ since) w) :
    ∃ m, Reaches answers allowed start deeds m ∧ Reaches answers allowed m since w := by
  induction since using List.reverseRecOn generalizing w with
  | nil => exact ⟨w, by simpa using hReaches, .nil⟩
  | append_singleton since deed ih =>
    rw [← List.append_assoc] at hReaches
    obtain ⟨v, hBefore, hAllowed, hDoes⟩ := hReaches.last
    obtain ⟨m, hFirst, hSecond⟩ := ih hBefore
    exact ⟨m, hFirst, hSecond.snoc hAllowed hDoes⟩

theorem Does.weaken {answers' : Answering Backend History} (hSub : ∀ h c a h', answers' h c a h' → answers h c a h')
    (hDoes : Does answers' w deed w') : Does answers w deed w' := by
  cases hDoes with
  | set source requested => exact .set w source requested
  | sync hRun => exact .sync (hRun.weaken hSub)
  | report hRun => exact .report (hRun.weaken hSub)
  | prepare name c => exact .prepare w name c

theorem Reaches.weaken {answers' : Answering Backend History} {allowed' : World → Deed → Prop}
    (hSub : ∀ h c a h', answers' h c a h' → answers h c a h') (hAllowed : ∀ w deed, allowed' w deed → allowed w deed)
    (hReaches : Reaches answers' allowed' start deeds w) : Reaches answers allowed start deeds w := by
  induction hReaches with
  | nil => exact .nil
  | snoc _ h hDoes ih => exact .snoc ih (hAllowed _ _ h) (hDoes.weaken hSub)

theorem Does.willing {lines : LoadedClass → UInt32 → List Jdwp.Location}
    (hDoes : Does (Interleaved (Backend.Faithful lines)) w deed w') : Does (Interleaved Willing) w deed w' :=
  hDoes.weaken (Interleaved.weaken Backend.Faithful.willing)

theorem Reaches.willing {lines : LoadedClass → UInt32 → List Jdwp.Location}
    (hReaches : Reaches (Interleaved (Backend.Faithful lines)) allowed start deeds w) :
    Reaches (Interleaved Willing) allowed start deeds w :=
  hReaches.weaken (Interleaved.weaken Backend.Faithful.willing) fun _ _ hAllowed => hAllowed

/-! What holds wherever no call is refused -/

/-- What is on record stands in the machine, and is no newer than what the client asked for. -/
structure Sane (w : World) : Prop where
  order : w.placer.InOrder w.history
  tidy : w.book.current.Tidy
  dated : ∀ e ∈ w.placer.installed, e.2.revision ≤ w.book.current.generation
  same : ∀ e ∈ w.placer.installed, w.book.current.revisions.find? e.1 = some e.2.revision →
    w.book.current.bySource.find? e.1 = some e.2.breakpoints
  verified : ∀ e ∈ w.placer.installed, ∀ id, id ∈ e.2.verified ↔ id ∈ e.2.placements.map (·.breakpoint)

theorem sane_new (index : SourceIndex) (root : Path) : Sane (new index root) where
  order := ⟨List.Pairwise.nil, ⟨.refl _, .refl _, .refl _⟩, Backend.sound_nil⟩
  tidy := BreakpointSet.tidy_empty
  dated e he := by cases he
  same e he := by cases he
  verified e he := by cases he

theorem Does.synced (hDoes : Does (Interleaved Willing) w .sync w') (hOrder : w.placer.InOrder w.history) :
    Placer.Synced w.book.current w.placer w.history w'.placer w'.history ∧ w'.book = w.book ∧ w'.given = w.given := by
  cases hDoes with
  | sync hRun =>
    obtain ⟨ids, -, -, hSynced⟩ := hRun.satisfies (Placer.sync_succeeds w.book.current hOrder)
    exact ⟨hSynced, rfl, rfl⟩

theorem Does.reported {r : RequestId} {c : LoadedClass} (hDoes : Does (Interleaved Willing) w (.report r c) w')
    (hOrder : w.placer.InOrder w.history) :
    Placer.Reported r c w.placer w.history w'.placer w'.history ∧ w'.book = w.book ∧
      w'.given = w.given ++ [(r, c)] := by
  cases hDoes with
  | report hRun =>
    obtain ⟨_, -, hReported⟩ := hRun.satisfies (Placer.classPrepared_succeeds r c hOrder)
    exact ⟨hReported, rfl, rfl⟩

/-- Where an entry that is on record after a deed comes from. -/
inductive Comes (w : World) (deed : Deed) (h' : History) (e : Path × Installed) : Prop where
  | kept : e ∈ w.placer.installed → (deed = .sync → Placer.isCurrent w.book.current e = true) →
      (∀ r c, deed = .report r c → r ∉ e.2.watches) → Comes w deed h' e
  | placed : deed = .sync → Placer.Fulfils w.book.current.bySource w.book.current.revisions (w.placer.candidates e.1)
      w.history e h' → Comes w deed h' e
  | visited {r : RequestId} {c : LoadedClass} {i : Installed} : deed = .report r c → (e.1, i) ∈ w.placer.installed →
      r ∈ i.watches → Placer.Visited c i w.history e.2 h' → Comes w deed h' e

/-- What one deed does to what is placed. -/
structure Moves (w : World) (deed : Deed) (w' : World) : Prop where
  order : w'.placer.InOrder w'.history
  index : w'.placer.index = w.placer.index
  root : w'.placer.root = w.placer.root
  history : w.history <+: w'.history
  comes : ∀ e ∈ w'.placer.installed, Comes w deed w'.history e

theorem moves_of_synced (hSynced : Placer.Synced w.book.current w.placer w.history w'.placer w'.history) :
    Moves w .sync w' := by
  obtain ⟨added, hPerm, hFulfils⟩ := hSynced.installed
  obtain ⟨g, hClear, hPlace⟩ := hSynced.history
  refine ⟨hSynced.order, hSynced.index, hSynced.root, hClear.isPrefix.trans hPlace.isPrefix, fun e he => ?_⟩
  rcases List.mem_append.mp (hPerm.subset he) with he | he
  · exact .placed rfl (hFulfils e he)
  · obtain ⟨he, hCurrent⟩ := List.mem_filter.mp he
    exact .kept he (fun _ => hCurrent) (by simp)

theorem moves_of_reported {r : RequestId} {c : LoadedClass} (hOrder : w.placer.InOrder w.history)
    (hReported : Placer.Reported r c w.placer w.history w'.placer w'.history) : Moves w (.report r c) w' := by
  refine ⟨hReported.order, hReported.index, hReported.root, hReported.history.isPrefix, fun e he => ?_⟩
  rcases hReported.installed with ⟨hNone, hSame, -⟩ | ⟨path, i, i', others, hPerm, hPerm', hr, hVisited⟩
  · rw [hSame] at he
    refine .kept he (by simp) fun r' c' hEq => ?_
    cases hEq
    exact hNone e he
  · rcases List.mem_cons.mp (hPerm'.subset he) with rfl | he
    · exact .visited rfl (hPerm.symm.subset List.mem_cons_self) hr hVisited
    · refine .kept (hPerm.symm.subset (List.mem_cons_of_mem _ he)) (by simp) fun r' c' hEq hr' => ?_
      cases hEq
      have hOnce := (hPerm.flatMap_right _).nodup_iff.mp (hOrder.recorded.once hOrder.sound)
      rw [List.flatMap_cons, List.nodup_append] at hOnce
      exact hOnce.2.2 r (List.mem_append_right _ hr) r
        (List.mem_flatMap.mpr ⟨e, he, List.mem_append_right _ hr'⟩) rfl

theorem moves_prepare (hOrder : w.placer.InOrder w.history) (name : String) (c : LoadedClass) :
    Moves w (.prepare name c) { w with history := w.history ++ [.prepared name c] } := by
  obtain ⟨hDistinct, hRecorded, hSound⟩ := hOrder
  have hSame : liveLocations (w.history ++ Backend.preparing [(name, c)]) = liveLocations w.history :=
    Backend.liveLocations_preparing
  have hSame' : liveWatches (w.history ++ Backend.preparing [(name, c)]) = liveWatches w.history :=
    Backend.liveWatches_preparing
  refine ⟨⟨hDistinct, ⟨?_, ?_, hRecorded.map⟩, hSound.prepare [(name, c)]⟩, rfl, rfl, List.prefix_append ..,
    fun e he => .kept he (by simp) (by simp)⟩
  · exact hRecorded.locations.trans (by rw [← hSame]; exact .refl _)
  · exact hRecorded.watching.trans (by rw [← hSame']; exact .refl _)

theorem Does.moves (hDoes : Does (Interleaved Willing) w deed w') (hOrder : w.placer.InOrder w.history) :
    Moves w deed w' := by
  cases deed with
  | set source requested =>
    cases hDoes
    exact ⟨hOrder, rfl, rfl, List.prefix_rfl, fun e he => .kept he (by simp) (by simp)⟩
  | sync => exact moves_of_synced (hDoes.synced hOrder).1
  | report r c => exact moves_of_reported hOrder (hDoes.reported hOrder).1
  | prepare name c =>
    cases hDoes
    exact moves_prepare hOrder name c

theorem Does.given (hDoes : Does answers w deed w') : w'.given = w.given ++ deed.given := by
  cases hDoes with
  | report _ => rfl
  | _ => exact (List.append_nil _).symm

theorem Does.book (hDoes : Does answers w deed w') :
    w'.book = w.book ∨ ∃ source requested, deed = .set source requested ∧ w'.book = (w.book.set source requested).2 := by
  cases hDoes with
  | set source requested => exact .inr ⟨source, requested, rfl, rfl⟩
  | sync _ => exact .inl rfl
  | report _ => exact .inl rfl
  | prepare name c => exact .inl rfl

/-- While a deed is done, first requests are only taken out of the machine, and then only put in. -/
theorem Does.phases (hDoes : Does (Interleaved Willing) w deed w') (hOrder : w.placer.InOrder w.history) :
    ∃ m, Backend.Extends (·.places) w.history m ∧ Backend.Extends (·.clears) m w'.history := by
  cases deed with
  | sync => exact (hDoes.synced hOrder).1.history
  | report r c => exact ⟨w.history, .refl, (hDoes.reported hOrder).1.history⟩
  | set source requested =>
    cases hDoes
    exact ⟨w.history, .refl, .refl⟩
  | prepare name c =>
    cases hDoes
    exact ⟨w.history, .refl, [.prepared name c], rfl, by simp [Backend.Happening.clears]⟩

theorem Does.tidy (hDoes : Does answers w deed w') (hTidy : w.book.current.Tidy) : w'.book.current.Tidy := by
  rcases hDoes.book with hBook | ⟨source, requested, -, hBook⟩
  · rwa [hBook]
  · rw [hBook]
    exact hTidy.replace source.path requested w.book.next

theorem Does.generation_le (hDoes : Does answers w deed w') :
    w.book.current.generation ≤ w'.book.current.generation := by
  rcases hDoes.book with hBook | ⟨source, requested, -, hBook⟩
  · exact Nat.le_of_eq (by rw [hBook])
  · have hNext := BreakpointSet.generation_replace w.book.current source.path requested w.book.next
    rw [hBook]
    exact Nat.le_trans (Nat.le_succ _) (Nat.le_of_eq hNext.symm)

/-- A source that has a revision it had before a deed was not set by it, and has the breakpoints it had. -/
theorem Does.same_revision (hDoes : Does answers w deed w') {n : Nat} (hOld : n ≤ w.book.current.generation)
    (hRevision : w'.book.current.revisions.find? q = some n) :
    (∀ source requested, deed = .set source requested → (source.path == q) = false) ∧
      w.book.current.revisions.find? q = some n ∧
      w'.book.current.bySource.find? q = w.book.current.bySource.find? q := by
  cases hDoes with
  | set source requested =>
    obtain ⟨hOther, hSame⟩ := BreakpointSet.find?_replace_of_old hOld hRevision
    refine ⟨fun source' requested' hEq => ?_, hSame⟩
    cases hEq
    exact hOther
  | _ => exact ⟨fun _ _ hEq => (nomatch hEq), hRevision, rfl⟩

variable {e : Path × Installed} {h' : History}

theorem Comes.dated (hComes : Comes w deed h' e) (hSane : Sane w) : e.2.revision ≤ w.book.current.generation := by
  cases hComes with
  | kept he _ _ => exact hSane.dated e he
  | placed _ hFulfils =>
    rw [hFulfils.revision]
    cases hRevision : w.book.current.revisions.find? e.1 with
    | none => exact Nat.zero_le _
    | some n => exact hSane.tidy.dated e.1 n hRevision
  | visited _ hi _ hVisited =>
    rw [hVisited.revision]
    exact hSane.dated _ hi

theorem Comes.same (hComes : Comes w deed h' e) (hSane : Sane w)
    (hRevision : w.book.current.revisions.find? e.1 = some e.2.revision) :
    w.book.current.bySource.find? e.1 = some e.2.breakpoints := by
  cases hComes with
  | kept he _ _ => exact hSane.same e he hRevision
  | placed _ hFulfils => exact hSane.tidy.distinct.find? hFulfils.wanted
  | visited _ hi _ hVisited =>
    rw [hVisited.breakpoints]
    exact hSane.same _ hi (by rw [hRevision, hVisited.revision])

theorem Comes.verified (hComes : Comes w deed h' e) (hSane : Sane w) (id : Int) :
    id ∈ e.2.verified ↔ id ∈ e.2.placements.map (·.breakpoint) := by
  cases hComes with
  | kept he _ _ => exact hSane.verified e he id
  | placed _ hFulfils => exact hFulfils.placed.verified id
  | visited _ hi _ hVisited =>
    obtain ⟨new, v, -, -, hPlacements, -, hMarks, -⟩ := hVisited.placed
    rw [hMarks id, hSane.verified _ hi id, hPlacements, List.map_append, List.mem_append]

theorem Sane.step (hSane : Sane w) (hDoes : Does (Interleaved Willing) w deed w') : Sane w' := by
  have hMoves := hDoes.moves hSane.order
  refine ⟨hMoves.order, hDoes.tidy hSane.tidy, fun e he => ?_, fun e he hRevision => ?_, fun e he => ?_⟩
  · exact Nat.le_trans ((hMoves.comes e he).dated hSane) hDoes.generation_le
  · obtain ⟨-, hOld, hSame⟩ := hDoes.same_revision ((hMoves.comes e he).dated hSane) hRevision
    rw [hSame]
    exact (hMoves.comes e he).same hSane hOld
  · exact (hMoves.comes e he).verified hSane

theorem Reaches.sane {index : SourceIndex} {root : Path}
    (hReaches : Reaches (Interleaved Willing) allowed (new index root) deeds w) : Sane w :=
  hReaches.keeps Sane (sane_new index root) fun _ _ _ hSane _ hDoes => hSane.step hDoes

end World
end JvmDebug
