import Mathlib.Data.List.Basic
import Mathlib.Data.List.Induction
import JvmDebug.Placement.Backend
import JvmDebug.Proofs.List
import JvmDebug.Proofs.Routine.Outcome

/-!
# The history of a machine

What happens at a machine on which breakpoints are placed: classes are prepared, and calls are answered. What is placed
there at any moment, and what it has told, can be read off its history. A rule says which answers a machine may give
after a history; while a call is under way any classes may be prepared.
-/

namespace JvmDebug.Backend
set_option autoImplicit false

open Jdwp (LoadedClass Location RequestId)

inductive Happening where
  | prepared (name : String) (c : LoadedClass)
  | answered (c : Call) (a : Answer c)

/-- What has happened at a machine, the first of it first. -/
abbrev History := List Happening

namespace Happening

def request? : Happening → Option RequestId
  | .answered (.setBreakpoint _) (.ok r) => some r
  | .answered (.setWatch _) (.ok r) => some r
  | .answered (.setException ..) (.ok r) => some r
  | _ => none

def refusal? : Happening → Option Jdwp.Error
  | .answered (.loadedClasses _) (.error e) => some e
  | .answered (.lineLocations ..) (.error e) => some e
  | .answered (.setBreakpoint _) (.error e) => some e
  | .answered (.clearBreakpoint _) (.error e) => some e
  | .answered (.setWatch _) (.error e) => some e
  | .answered (.clearWatch _) (.error e) => some e
  | .answered (.setException ..) (.error e) => some e
  | .answered (.clearException _) (.error e) => some e
  | _ => none

def clears : Happening → Bool
  | .answered (.clearBreakpoint _) _ => true
  | .answered (.clearWatch _) _ => true
  | _ => false

def places : Happening → Bool
  | .answered (.setBreakpoint _) _ => true
  | .answered (.setWatch _) _ => true
  | _ => false

end Happening

/-- What a machine told when it was asked about its classes. -/
inductive Finding where
  | classes (name : String) (found : List LoadedClass)
  | lines (c : LoadedClass) (line : UInt32) (found : List Location)

def Happening.finding? : Happening → Option Finding
  | .answered (.loadedClasses name) (.ok found) => some (.classes name found)
  | .answered (.lineLocations c line) (.ok found) => some (.lines c line found)
  | _ => none

def Happening.preparation? : Happening → Option (String × LoadedClass)
  | .prepared name c => some (name, c)
  | _ => none

def locationStep (live : List (RequestId × Location)) : Happening → List (RequestId × Location)
  | .answered (.setBreakpoint l) (.ok r) => live ++ [(r, l)]
  | .answered (.clearBreakpoint r) (.ok _) => live.filter (·.1 ≠ r)
  | _ => live

def watchStep (live : List (RequestId × String)) : Happening → List (RequestId × String)
  | .answered (.setWatch pattern) (.ok r) => live ++ [(r, pattern)]
  | .answered (.clearWatch r) (.ok _) => live.filter (·.1 ≠ r)
  | _ => live

/-- The breakpoints that are in the machine, with their locations. -/
def liveLocations (h : History) : List (RequestId × Location) := h.foldl locationStep []

/-- The watches that are in the machine, with their patterns. -/
def liveWatches (h : History) : List (RequestId × String) := h.foldl watchStep []

def issued (h : History) : List RequestId := h.filterMap Happening.request?

def findings (h : History) : List Finding := h.filterMap Happening.finding?

def preparations (h : History) : List (String × LoadedClass) := h.filterMap Happening.preparation?

def Granted (h : History) : Prop := ∀ x ∈ h, x.refusal? = none

/-! How the views grow -/

variable {h k : History} {x : Happening}

theorem liveLocations_snoc : liveLocations (h ++ [x]) = locationStep (liveLocations h) x := by
  simp [liveLocations, List.foldl_append]

theorem liveWatches_snoc : liveWatches (h ++ [x]) = watchStep (liveWatches h) x := by
  simp [liveWatches, List.foldl_append]

@[simp] theorem issued_append : issued (h ++ k) = issued h ++ issued k := List.filterMap_append

@[simp] theorem findings_append : findings (h ++ k) = findings h ++ findings k := List.filterMap_append

@[simp] theorem preparations_append : preparations (h ++ k) = preparations h ++ preparations k := List.filterMap_append

theorem granted_append : Granted (h ++ k) ↔ Granted h ∧ Granted k := by
  simp only [Granted, List.mem_append]
  exact ⟨fun hAll => ⟨fun x hx => hAll x (.inl hx), fun x hx => hAll x (.inr hx)⟩,
    fun ⟨hLeft, hRight⟩ x hx => hx.elim (hLeft x) (hRight x)⟩

theorem granted_singleton : Granted [x] ↔ x.refusal? = none := by simp [Granted]

/-- A history went on, and nothing of a kind has happened since. -/
def Extends (never : Happening → Bool) (h h' : History) : Prop := ∃ k, h' = h ++ k ∧ ∀ x ∈ k, never x = false

theorem Extends.refl {never : Happening → Bool} : Extends never h h := ⟨[], by simp⟩

theorem Extends.trans {never : Happening → Bool} {h' : History} (hFirst : Extends never h k)
    (hSecond : Extends never k h') : Extends never h h' := by
  obtain ⟨k, rfl, hk⟩ := hFirst
  obtain ⟨k', rfl, hk'⟩ := hSecond
  refine ⟨k ++ k', List.append_assoc .., fun x hx => ?_⟩
  exact (List.mem_append.mp hx).elim (hk x) (hk' x)

theorem Extends.granted {never : Happening → Bool} (hExtends : Extends never h k) (hGranted : Granted k) :
    Granted h := by
  obtain ⟨k, rfl, -⟩ := hExtends
  exact (granted_append.mp hGranted).1

theorem Extends.isPrefix {never : Happening → Bool} (hExtends : Extends never h k) : h <+: k := by
  obtain ⟨k, rfl, -⟩ := hExtends
  exact List.prefix_append ..

/-- At every moment in between, nothing of the kind has happened, and nothing of it is still to come. -/
theorem Extends.between {never : Happening → Bool} {g : History} (hExtends : Extends never h k) (hAfter : h <+: g)
    (hBefore : g <+: k) : Extends never h g ∧ Extends never g k := by
  obtain ⟨k, rfl, hk⟩ := hExtends
  obtain ⟨d, rfl⟩ := hAfter
  obtain ⟨d', hd'⟩ := hBefore
  rw [List.append_assoc] at hd'
  obtain rfl := List.append_cancel_left hd'
  exact ⟨⟨d, rfl, fun x hx => hk x (List.mem_append_left _ hx)⟩,
    ⟨d', (List.append_assoc ..).symm, fun x hx => hk x (List.mem_append_right _ hx)⟩⟩

/-! While nothing is cleared, what was placed stays; while nothing is placed, only what was placed is there -/

theorem sublist_locationStep (live : List (RequestId × Location)) (hx : x.clears = false) :
    live.Sublist (locationStep live x) := by
  unfold locationStep
  split
  · exact List.sublist_append_left ..
  · cases hx
  · exact List.Sublist.refl _

theorem sublist_watchStep (live : List (RequestId × String)) (hx : x.clears = false) :
    live.Sublist (watchStep live x) := by
  unfold watchStep
  split
  · exact List.sublist_append_left ..
  · cases hx
  · exact List.Sublist.refl _

theorem locationStep_sublist (live : List (RequestId × Location)) (hx : x.places = false) :
    (locationStep live x).Sublist live := by
  unfold locationStep
  split
  · cases hx
  · exact List.filter_sublist
  · exact List.Sublist.refl _

theorem watchStep_sublist (live : List (RequestId × String)) (hx : x.places = false) :
    (watchStep live x).Sublist live := by
  unfold watchStep
  split
  · cases hx
  · exact List.filter_sublist
  · exact List.Sublist.refl _

theorem Extends.keeps (hExtends : Extends (·.clears) h k) :
    (liveLocations h).Sublist (liveLocations k) ∧ (liveWatches h).Sublist (liveWatches k) := by
  obtain ⟨k, rfl, hk⟩ := hExtends
  induction k using List.reverseRecOn with
  | nil => simp
  | append_singleton k x ih =>
    obtain ⟨hLocations, hWatches⟩ := ih fun y hy => hk y (List.mem_append_left _ hy)
    have hx : x.clears = false := hk x (by simp)
    rw [← List.append_assoc, liveLocations_snoc, liveWatches_snoc]
    exact ⟨hLocations.trans (sublist_locationStep _ hx), hWatches.trans (sublist_watchStep _ hx)⟩

theorem Extends.adds_nothing (hExtends : Extends (·.places) h k) :
    (liveLocations k).Sublist (liveLocations h) ∧ (liveWatches k).Sublist (liveWatches h) := by
  obtain ⟨k, rfl, hk⟩ := hExtends
  induction k using List.reverseRecOn with
  | nil => simp
  | append_singleton k x ih =>
    obtain ⟨hLocations, hWatches⟩ := ih fun y hy => hk y (List.mem_append_left _ hy)
    have hx : x.places = false := hk x (by simp)
    rw [← List.append_assoc, liveLocations_snoc, liveWatches_snoc]
    exact ⟨(locationStep_sublist _ hx).trans hLocations, (watchStep_sublist _ hx).trans hWatches⟩

/-! Preparing classes changes nothing that was placed, and tells nothing -/

def preparing (classes : List (String × LoadedClass)) : History := classes.map fun e => .prepared e.1 e.2

variable {classes : List (String × LoadedClass)}

theorem foldl_locationStep_preparing (live : List (RequestId × Location)) :
    (preparing classes).foldl locationStep live = live := by
  induction classes with
  | nil => rfl
  | cons _ _ ih => exact ih

theorem foldl_watchStep_preparing (live : List (RequestId × String)) :
    (preparing classes).foldl watchStep live = live := by
  induction classes with
  | nil => rfl
  | cons _ _ ih => exact ih

@[simp] theorem liveLocations_preparing : liveLocations (h ++ preparing classes) = liveLocations h := by
  rw [liveLocations, List.foldl_append, foldl_locationStep_preparing]
  rfl

@[simp] theorem liveWatches_preparing : liveWatches (h ++ preparing classes) = liveWatches h := by
  rw [liveWatches, List.foldl_append, foldl_watchStep_preparing]
  rfl

@[simp] theorem findings_preparing : findings (preparing classes) = [] := by
  simp [findings, preparing, List.filterMap_map, Function.comp_def, Happening.finding?]

/-! Rules -/

/-- Which answers may come after a history. -/
abbrev Rule := History → Happening → Prop

/-- A request that comes into being has a number that none ever had. -/
def Fresh : Rule := fun h x => ∀ r, x.request? = some r → r ∉ issued h

/-- Calls may be refused, but the machine does not go. -/
def Alive : Rule := fun h x => (∀ e, x.refusal? = some e → e.isDisconnect = false) ∧ Fresh h x

/-- No call is refused. -/
def Willing : Rule := fun h x => x.refusal? = none ∧ Fresh h x

/-- A machine that answers by a rule; before each answer it may prepare classes. -/
def Interleaved (rule : Rule) : Answering Backend History := fun h c a h' =>
  ∃ classes, h' = h ++ preparing classes ++ [.answered c a] ∧ rule (h ++ preparing classes) (.answered c a)

theorem Willing.alive (hx : Willing h x) : Alive h x := by
  refine ⟨fun e he => ?_, hx.2⟩
  rw [hx.1] at he
  cases he

theorem Interleaved.weaken {rule rule' : Rule} (hRule : ∀ h x, rule' h x → rule h x) (h : History) (c : Call)
    (a : Answer c) (h' : History) (hAnswer : Interleaved rule' h c a h') : Interleaved rule h c a h' := by
  obtain ⟨classes, hHistory, hx⟩ := hAnswer
  exact ⟨classes, hHistory, hRule _ _ hx⟩

def Obeyed (rule : Rule) (h : History) : Prop := ∀ g x, g ++ [x] <+: h → rule g x

namespace Obeyed

variable {rule : Rule}

theorem nil : Obeyed rule [] := by
  intro g x hPrefix
  simp at hPrefix

theorem snoc (hObeyed : Obeyed rule h) (hx : rule h x) : Obeyed rule (h ++ [x]) := by
  intro g y hPrefix
  rcases List.prefix_concat_iff.mp hPrefix with hEq | hPrefix
  · obtain ⟨rfl, hy⟩ := List.append_inj' hEq rfl
    rwa [List.singleton_inj.mp hy]
  · exact hObeyed g y hPrefix

theorem before {g : History} (hObeyed : Obeyed rule h) (hPrefix : g <+: h) : Obeyed rule g :=
  fun k x hBefore => hObeyed k x (hBefore.trans hPrefix)

theorem weaken {rule' : Rule} (hObeyed : Obeyed rule' h) (hRule : ∀ h x, rule' h x → rule h x) : Obeyed rule h :=
  fun g x hPrefix => hRule g x (hObeyed g x hPrefix)

theorem prepare (hFree : ∀ h name c, rule h (.prepared name c)) (hObeyed : Obeyed rule h)
    (classes : List (String × LoadedClass)) : Obeyed rule (h ++ preparing classes) := by
  induction classes generalizing h with
  | nil => simpa [preparing] using hObeyed
  | cons e rest ih =>
    have hFirst : Obeyed rule (h ++ [.prepared e.1 e.2]) := hObeyed.snoc (hFree h e.1 e.2)
    simpa [preparing] using ih hFirst

theorem keep (hFree : ∀ h name c, rule h (.prepared name c)) (h : History) (c : Call) (a : Answer c) (h' : History)
    (hObeyed : Obeyed rule h) (hAnswer : Interleaved rule h c a h') : Obeyed rule h' := by
  obtain ⟨classes, rfl, hx⟩ := hAnswer
  exact (hObeyed.prepare hFree classes).snoc hx

end Obeyed

theorem Willing.free (h : History) (name : String) (c : LoadedClass) : Willing h (.prepared name c) :=
  ⟨rfl, fun _ hr => nomatch hr⟩

/-! What one answer changes -/

namespace Interleaved

variable {rule : Rule} {h' : History} {c : Call} {a : Answer c}

theorem liveLocations (hAnswer : Interleaved rule h c a h') :
    Backend.liveLocations h' = locationStep (Backend.liveLocations h) (.answered c a) := by
  obtain ⟨classes, rfl, -⟩ := hAnswer
  rw [liveLocations_snoc, liveLocations_preparing]

theorem liveWatches (hAnswer : Interleaved rule h c a h') :
    Backend.liveWatches h' = watchStep (Backend.liveWatches h) (.answered c a) := by
  obtain ⟨classes, rfl, -⟩ := hAnswer
  rw [liveWatches_snoc, liveWatches_preparing]

theorem findings (hAnswer : Interleaved rule h c a h') :
    Backend.findings h' = Backend.findings h ++ (Happening.finding? (.answered c a)).toList := by
  obtain ⟨classes, rfl, -⟩ := hAnswer
  rw [findings_append, findings_append, findings_preparing, List.append_nil]
  cases hFinding : Happening.finding? (.answered c a) <;> simp [Backend.findings, hFinding]

theorem granted (hAnswer : Interleaved rule h c a h') (hGranted : Granted h') :
    Happening.refusal? (.answered c a) = none := by
  obtain ⟨classes, rfl, -⟩ := hAnswer
  exact hGranted _ (List.mem_append_right _ List.mem_cons_self)

theorem extends_ (hAnswer : Interleaved rule h c a h') (never : Happening → Bool)
    (hPreparing : ∀ name c, never (.prepared name c) = false) (hc : never (.answered c a) = false) :
    Extends never h h' := by
  obtain ⟨classes, rfl, -⟩ := hAnswer
  refine ⟨preparing classes ++ [.answered c a], List.append_assoc .., ?_⟩
  intro x hx
  rcases List.mem_append.mp hx with hx | hx
  · obtain ⟨e, -, rfl⟩ := List.mem_map.mp hx
    exact hPreparing e.1 e.2
  · rw [List.mem_singleton.mp hx]
    exact hc

theorem unrefused (hAnswer : Interleaved Willing h c a h') : Happening.refusal? (.answered c a) = none := by
  obtain ⟨classes, -, hx⟩ := hAnswer
  exact hx.1

theorem tolerable (hAnswer : Interleaved Alive h c a h') {e : Jdwp.Error}
    (he : Happening.refusal? (.answered c a) = some e) : e.isDisconnect = false := by
  obtain ⟨classes, -, hx⟩ := hAnswer
  exact hx.1 e he

end Interleaved

/-! Where no call is refused, each request stands once -/

def live (h : History) : List RequestId := (liveLocations h).map (·.1) ++ (liveWatches h).map (·.1)

/-- No call was refused, each request stands once, and one that is gone does not come back. -/
structure Sound (h : History) : Prop where
  granted : Granted h
  distinct : (Backend.issued h).Nodup
  once : (live h).Nodup
  issued : ∀ r ∈ live h, r ∈ issued h
  gone : ∀ g, g <+: h → ∀ r ∈ Backend.issued g, r ∈ live h → r ∈ live g

theorem sound_nil : Sound [] where
  granted := by simp [Granted]
  distinct := List.nodup_nil
  once := List.nodup_nil
  issued r hr := by simp [live, liveLocations, liveWatches] at hr
  gone g _ r _ hr := by simp [live, liveLocations, liveWatches] at hr

theorem issued_of_earlier {g : History} (hPrefix : g <+: h) {r : RequestId} (hr : r ∈ issued g) : r ∈ issued h := by
  obtain ⟨k, rfl⟩ := hPrefix
  rw [issued_append]
  exact List.mem_append_left _ hr

theorem nodup_issued_snoc (hDistinct : (issued h).Nodup) (hFresh : Fresh h x) : (issued (h ++ [x])).Nodup := by
  rw [issued_append]
  cases hRequest : x.request? with
  | none => simpa [issued, hRequest] using hDistinct
  | some r =>
    have hNew : r ∉ issued h := hFresh r hRequest
    simp only [issued, List.filterMap_cons, hRequest, List.filterMap_nil]
    refine List.nodup_append.mpr ⟨hDistinct, by simp, fun a ha b hb hEq => ?_⟩
    rw [hEq, List.mem_singleton.mp hb] at ha
    exact hNew ha

theorem Sound.shrink (hSound : Sound h) (hx : Willing h x) (hLive : (live (h ++ [x])).Sublist (live h)) :
    Sound (h ++ [x]) where
  granted := granted_append.mpr ⟨hSound.granted, granted_singleton.mpr hx.1⟩
  distinct := nodup_issued_snoc hSound.distinct hx.2
  once := hSound.once.sublist hLive
  issued r hr := issued_of_earlier (List.prefix_append ..) (hSound.issued r (hLive.subset hr))
  gone g hg r hr hr' := by
    rcases List.prefix_concat_iff.mp hg with rfl | hg
    · exact hr'
    · exact hSound.gone g hg r hr (hLive.subset hr')

theorem Sound.add {r : RequestId} (hSound : Sound h) (hx : Willing h x) (hRequest : x.request? = some r)
    (hLive : (live (h ++ [x])).Perm (r :: live h)) : Sound (h ++ [x]) where
  granted := granted_append.mpr ⟨hSound.granted, granted_singleton.mpr hx.1⟩
  distinct := nodup_issued_snoc hSound.distinct hx.2
  once := by
    refine hLive.nodup_iff.mpr (List.nodup_cons.mpr ⟨fun hr => ?_, hSound.once⟩)
    exact hx.2 r hRequest (hSound.issued r hr)
  issued q hq := by
    rcases List.mem_cons.mp (hLive.subset hq) with rfl | hq
    · rw [issued_append]
      exact List.mem_append_right _ (by simp [Backend.issued, hRequest])
    · exact issued_of_earlier (List.prefix_append ..) (hSound.issued q hq)
  gone g hg q hq hq' := by
    rcases List.prefix_concat_iff.mp hg with rfl | hg
    · exact hq'
    · rcases List.mem_cons.mp (hLive.subset hq') with rfl | hLive
      · exact absurd (issued_of_earlier hg hq) (hx.2 q hRequest)
      · exact hSound.gone g hg q hq hLive

theorem Sound.snoc (hSound : Sound h) (hx : Willing h x) : Sound (h ++ [x]) := by
  -- Only three calls make a request, or take one away; what else happens leaves the machine as it is.
  have hSame : (∀ live, locationStep live x = live) → (∀ live, watchStep live x = live) → Sound (h ++ [x]) := by
    intro hLocations hWatches
    refine hSound.shrink hx ?_
    rw [live, liveLocations_snoc, liveWatches_snoc, hLocations, hWatches]
    exact List.Sublist.refl _
  cases x with
  | prepared name c => exact hSame (fun _ => rfl) (fun _ => rfl)
  | answered c a =>
    cases c with
    | setBreakpoint l =>
      cases a with
      | error e => cases hx.1
      | ok r =>
        refine hSound.add hx rfl ?_
        rw [live, liveLocations_snoc, liveWatches_snoc]
        simp only [locationStep, watchStep, List.map_append, List.append_assoc]
        exact List.perm_middle
    | setWatch pattern =>
      cases a with
      | error e => cases hx.1
      | ok r =>
        refine hSound.add hx rfl ?_
        rw [live, liveLocations_snoc, liveWatches_snoc]
        simp only [locationStep, watchStep, List.map_append, ← List.append_assoc]
        exact List.perm_append_singleton ..
    | clearBreakpoint r =>
      refine hSound.shrink hx ?_
      rw [live, liveLocations_snoc, liveWatches_snoc]
      cases a with
      | error e => cases hx.1
      | ok _ => exact (List.filter_sublist.map _).append_right _
    | clearWatch r =>
      refine hSound.shrink hx ?_
      rw [live, liveLocations_snoc, liveWatches_snoc]
      cases a with
      | error e => cases hx.1
      | ok _ => exact (List.filter_sublist.map _).append_left _
    | _ => exact hSame (fun _ => rfl) (fun _ => rfl)

theorem set_of_mem_liveLocations {e : RequestId × Location} (he : e ∈ liveLocations h) :
    .answered (.setBreakpoint e.2) (.ok e.1) ∈ h := by
  induction h using List.reverseRecOn with
  | nil => cases he
  | append_singleton h x ih =>
    rw [liveLocations_snoc] at he
    rw [List.mem_append, List.mem_singleton]
    unfold locationStep at he
    split at he
    · rcases List.mem_append.mp he with he | he
      · exact .inl (ih he)
      · rw [List.mem_singleton.mp he]
        exact .inr rfl
    · exact .inl (ih (List.mem_filter.mp he).1)
    · exact .inl (ih he)

theorem set_of_mem_liveWatches {w : RequestId × String} (hw : w ∈ liveWatches h) :
    .answered (.setWatch w.2) (.ok w.1) ∈ h := by
  induction h using List.reverseRecOn with
  | nil => cases hw
  | append_singleton h x ih =>
    rw [liveWatches_snoc] at hw
    rw [List.mem_append, List.mem_singleton]
    unfold watchStep at hw
    split at hw
    · rcases List.mem_append.mp hw with hw | hw
      · exact .inl (ih hw)
      · rw [List.mem_singleton.mp hw]
        exact .inr rfl
    · exact .inl (ih (List.mem_filter.mp hw).1)
    · exact .inl (ih hw)

theorem issued_of_mem_liveWatches {w : RequestId × String} (hw : w ∈ liveWatches h) : w.1 ∈ issued h :=
  List.mem_filterMap.mpr ⟨_, set_of_mem_liveWatches hw, rfl⟩

theorem Sound.eq_of_request {y : Happening} {r : RequestId} (hSound : Sound h) (hx : x ∈ h) (hy : y ∈ h)
    (hRequest : x.request? = some r) (hRequest' : y.request? = some r) : x = y := by
  have hDistinct := hSound.distinct
  rw [Backend.issued, List.filterMap_eq_flatMap_toList] at hDistinct
  refine eq_of_mem_flatMap hDistinct hx hy (b := r) ?_ ?_
  · simp [hRequest]
  · simp [hRequest']

/-- A watch that still stands has the pattern it had. -/
theorem Sound.watch_same {h' : History} {w : RequestId × String} (hSound : Sound h') (hPrefix : h <+: h')
    (hw : w ∈ liveWatches h) (hLive : w.1 ∈ live h') : w ∈ liveWatches h' := by
  have hSet := hPrefix.subset (set_of_mem_liveWatches hw)
  rcases List.mem_append.mp hLive with hLive | hLive
  · obtain ⟨e, he, hEq⟩ := List.mem_map.mp hLive
    have hSame := hSound.eq_of_request hSet (set_of_mem_liveLocations he) rfl (by rw [← hEq]; rfl)
    cases hSame
  · obtain ⟨w', hw', hEq⟩ := List.mem_map.mp hLive
    have hSame := hSound.eq_of_request hSet (set_of_mem_liveWatches hw') rfl (by rw [← hEq]; rfl)
    obtain ⟨r, pattern⟩ := w
    obtain ⟨r', pattern'⟩ := w'
    cases hSame
    exact hw'

theorem Sound.prepare (hSound : Sound h) (classes : List (String × LoadedClass)) : Sound (h ++ preparing classes) := by
  induction classes generalizing h with
  | nil => simpa [preparing] using hSound
  | cons e rest ih => simpa [preparing] using ih (hSound.snoc (Willing.free h e.1 e.2))

theorem Sound.keep (h : History) (c : Call) (a : Answer c) (h' : History) (hSound : Sound h)
    (hAnswer : Interleaved Willing h c a h') : Sound h' := by
  obtain ⟨classes, rfl, hx⟩ := hAnswer
  exact (hSound.prepare classes).snoc hx

theorem Obeyed.sound (hObeyed : Obeyed Willing h) : Sound h := by
  induction h using List.reverseRecOn with
  | nil => exact sound_nil
  | append_singleton h x ih =>
    exact (ih (hObeyed.before (List.prefix_append ..))).snoc (hObeyed h x List.prefix_rfl)

end JvmDebug.Backend
