import JvmDebug.Placement.Placer
import JvmDebug.Proofs.Placement.History

/-!
# Placing a source

Rules for showing that the work of a placer comes to its end without an error, and how it leaves the placer and the
machine. A call that is refused is passed over, so that on a machine that does not go only the calls decide what is
left behind.

What is left behind when the breakpoints of a source are placed. `Grows` says what is added to the source, to the map of
watches and to the machine; that much holds although calls may be refused. If none is refused, a `Survey` of each
candidate says which classes were found, and where their lines begin; the requests that were made are those that the
surveys ask for.
-/

namespace JvmDebug.Placer
set_option autoImplicit false

/-! ## Work that goes well -/

open Backend

variable {α β : Type} {answers : Answering Backend History}

/-- Work on the whole of what is placed comes to its end without an error, and as `post` says. -/
def Succeeds (answers : Answering Backend History) (post : α → Placer → History → Prop) (x : Work α) (p : Placer)
    (h : History) : Prop :=
  Routine.Ensures answers (fun outcome p h => ∃ a, outcome = .ok a ∧ post a p h) x.run p h

/-- Work on one source comes to its end without an error, and as `post` says. -/
def SourceSucceeds (answers : Answering Backend History) (post : α → Installed → Placer → History → Prop)
    (x : SourceWork α) (i : Installed) (p : Placer) (h : History) : Prop :=
  Routine.Ensures answers (fun r p h => ∃ a, r.1 = .ok a ∧ post a r.2 p h) (x.run.run i) p h

namespace Succeeds

variable {p : Placer} {h : History} {post : α → Placer → History → Prop}

theorem pure {a : α} (hPost : post a p h) : Succeeds answers post (Pure.pure a) p h := ⟨a, rfl, hPost⟩

theorem bind {post : β → Placer → History → Prop} {x : Work α} {f : α → Work β}
    (hx : Succeeds answers (fun a p h => Succeeds answers post (f a) p h) x p h) :
    Succeeds answers post (x >>= f) p h := by
  rw [Succeeds, ExceptT.run_bind]
  refine Routine.Ensures.bind (Routine.Ensures.mono ?_ hx)
  rintro _ p h ⟨a, rfl, hf⟩
  exact hf

theorem mono {post' : α → Placer → History → Prop} (hPost : ∀ a p h, post a p h → post' a p h) {x : Work α}
    (hx : Succeeds answers post x p h) : Succeeds answers post' x p h := by
  refine Routine.Ensures.mono ?_ hx
  rintro _ p h ⟨a, rfl, ha⟩
  exact ⟨a, rfl, hPost a p h ha⟩

theorem lift {r : Routine Placer Backend α} (hr : Routine.Ensures answers post r p h) :
    Succeeds answers post (ExceptT.lift r) p h := by
  rw [Succeeds, ExceptT.run_lift, ← bind_pure_comp]
  exact Routine.Ensures.bind (Routine.Ensures.mono (fun a _ _ ha => ⟨a, rfl, ha⟩) hr)

theorem get {post : Placer → Placer → History → Prop} (hPost : post p p h) :
    Succeeds answers post (ExceptT.lift Routine.get) p h := lift hPost

theorem modifyGet {f : Placer → α × Placer} (hPost : post (f p).1 (f p).2 h) :
    Succeeds answers post (ExceptT.lift (Routine.modifyGet f)) p h := lift hPost

theorem note {post : Unit → Placer → History → Prop} {level : Log.Level} {part : Log.Part} {text : String}
    (hPost : post () p h) : Succeeds answers post (ExceptT.lift (Routine.log level part text)) p h := lift hPost

/-- A request is passed over if it is refused. -/
theorem tolerate {post : Option α → Placer → History → Prop} {what : String} {answer : Except Jdwp.Error α}
    (hOk : ∀ a, answer = .ok a → post (some a) p h)
    (hRefused : ∀ e, answer = .error e → e.isDisconnect = false ∧ post none p h) :
    Succeeds answers post (Placer.tolerate what answer) p h := by
  cases answer with
  | ok a => exact pure (hOk a rfl)
  | error e =>
    obtain ⟨hAlive, hPost⟩ := hRefused e rfl
    simp only [Placer.tolerate, hAlive, Bool.false_eq_true, if_false]
    exact ⟨none, rfl, hPost⟩

theorem try_ {post : Option α → Placer → History → Prop} {what : String}
    {r : Routine Placer Backend (Except Jdwp.Error α)}
    (hr : Routine.Ensures answers (fun answer p h => (∀ a, answer = .ok a → post (some a) p h) ∧
      ∀ e, answer = .error e → e.isDisconnect = false ∧ post none p h) r p h) :
    Succeeds answers post (Placer.try_ what r) p h :=
  bind (lift (Routine.Ensures.mono (fun _ _ _ ha => tolerate ha.1 ha.2) hr))

theorem keeping {keeps : History → Prop} (hStep : ∀ h c a h', keeps h → answers h c a h' → keeps h') {x : Work α}
    (hh : keeps h) (hx : Succeeds answers post x p h) :
    Succeeds answers (fun a p h => keeps h ∧ post a p h) x p h := by
  refine Routine.Ensures.mono ?_ (Routine.Ensures.keeping hStep hh hx)
  rintro _ p h ⟨hKept, a, rfl, ha⟩
  exact ⟨a, rfl, hKept, ha⟩

end Succeeds

namespace SourceSucceeds

variable {i : Installed} {p : Placer} {h : History} {post : α → Installed → Placer → History → Prop}

theorem pure {a : α} (hPost : post a i p h) : SourceSucceeds answers post (Pure.pure a) i p h := ⟨a, rfl, hPost⟩

theorem bind {post : β → Installed → Placer → History → Prop} {x : SourceWork α} {f : α → SourceWork β}
    (hx : SourceSucceeds answers (fun a i p h => SourceSucceeds answers post (f a) i p h) x i p h) :
    SourceSucceeds answers post (x >>= f) i p h := by
  rw [SourceSucceeds, ExceptT.run_bind, StateT.run_bind]
  refine Routine.Ensures.bind (Routine.Ensures.mono ?_ hx)
  rintro ⟨_, i⟩ p h ⟨a, rfl, hf⟩
  exact hf

theorem mono {post' : α → Installed → Placer → History → Prop} (hPost : ∀ a i p h, post a i p h → post' a i p h)
    {x : SourceWork α} (hx : SourceSucceeds answers post x i p h) : SourceSucceeds answers post' x i p h := by
  refine Routine.Ensures.mono ?_ hx
  rintro ⟨_, i⟩ p h ⟨a, rfl, ha⟩
  exact ⟨a, rfl, hPost a i p h ha⟩

theorem modify {post : Unit → Installed → Placer → History → Prop} {f : Installed → Installed}
    (hPost : post () (f i) p h) : SourceSucceeds answers post (modifyThe Installed f) i p h := ⟨(), rfl, hPost⟩

theorem get {post : Installed → Installed → Placer → History → Prop} (hPost : post i i p h) :
    SourceSucceeds answers post (getThe Installed) i p h := ⟨i, rfl, hPost⟩

theorem routine {r : Routine Placer Backend α} (hr : Routine.Ensures answers (fun a p h => post a i p h) r p h) :
    SourceSucceeds answers post (Placer.routine r) i p h := by
  rw [SourceSucceeds, Placer.routine, ExceptT.run_lift, StateT.run_map, StateT.run_lift, map_bind]
  exact Routine.Ensures.bind (Routine.Ensures.mono (fun a _ _ ha => ⟨a, rfl, ha⟩) hr)

theorem note {post : Unit → Installed → Placer → History → Prop} {level : Log.Level} {part : Log.Part} {text : String}
    (hPost : post () i p h) : SourceSucceeds answers post (Placer.routine (Routine.log level part text)) i p h :=
  routine hPost

theorem trySource {post : Option α → Installed → Placer → History → Prop} {what : String}
    {r : Routine Placer Backend (Except Jdwp.Error α)}
    (hr : Routine.Ensures answers (fun answer p h => (∀ a, answer = .ok a → post (some a) i p h) ∧
      ∀ e, answer = .error e → e.isDisconnect = false ∧ post none i p h) r p h) :
    SourceSucceeds answers post (Placer.trySource what r) i p h := by
  have hTried : Succeeds answers (fun a p h => post a i p h) (Placer.try_ what r) p h := Succeeds.try_ hr
  refine bind (routine (Routine.Ensures.mono ?_ hTried))
  rintro _ p h ⟨a, rfl, ha⟩
  exact pure ha

theorem restrict {answers' : Answering Backend History} (hSub : ∀ h c a h', answers' h c a h' → answers h c a h')
    {x : SourceWork α} (hx : SourceSucceeds answers post x i p h) : SourceSucceeds answers' post x i p h :=
  Routine.Ensures.restrict hSub hx

theorem keeping {keeps : History → Prop} (hStep : ∀ h c a h', keeps h → answers h c a h' → keeps h') {x : SourceWork α}
    (hh : keeps h) (hx : SourceSucceeds answers post x i p h) :
    SourceSucceeds answers (fun a i p h => keeps h ∧ post a i p h) x i p h := by
  refine Routine.Ensures.mono ?_ (Routine.Ensures.keeping hStep hh hx)
  rintro ⟨_, i⟩ p h ⟨hKept, a, rfl, ha⟩
  exact ⟨a, rfl, hKept, ha⟩

end SourceSucceeds
end JvmDebug.Placer

namespace JvmDebug
set_option autoImplicit false

open Jdwp (LoadedClass Location RequestId)
open Backend (History Finding Granted Interleaved Alive liveLocations liveWatches findings)

def Placement.live (x : Placement) : RequestId × Location := (x.request, x.location)

/-- What a placement is for: to stop at a location because of a breakpoint. -/
def Placement.spot (x : Placement) : Int × Location := (x.breakpoint, x.location)

/-- Where the lines of breakpoints begin in a class. -/
structure Visit where
  cls : LoadedClass
  lines : List (Breakpoint × List Location)

namespace Visit

def findings (v : Visit) : List Finding := v.lines.map fun e => .lines v.cls e.1.line e.2

def spots (v : Visit) : List (Int × Location) := v.lines.flatMap fun e => e.2.map (e.1.id, ·)

end Visit

/-- What was found out about a candidate: the classes that are loaded under its name, and their lines. -/
structure Survey where
  name : String
  visits : List Visit

namespace Survey

def findings (s : Survey) : List Finding := .classes s.name (s.visits.map (·.cls)) :: s.visits.flatMap (·.findings)

def spots (s : Survey) : List (Int × Location) := s.visits.flatMap (·.spots)

/-- What is watched for: the class itself if it is not loaded, and the nested ones in any case. -/
def patterns (s : Survey) : List String := (if s.visits = [] then [s.name] else []) ++ [Placer.nestedPattern s.name]

/-- The surveys of some candidates, each about all of the breakpoints. -/
structure Cover (breakpoints : List Breakpoint) (names : List String) (surveys : List Survey) : Prop where
  names : surveys.map (·.name) = names
  lines : ∀ s ∈ surveys, ∀ v ∈ s.visits, v.lines.map (·.1) = breakpoints

end Survey

namespace Placer

/-- Some watches were set for a source. -/
def watching (p : Placer) (path : Path) (watches : List RequestId) : Placer :=
  watches.foldl (fun p r => p.addWatch r path) p

@[simp] theorem watching_nil {p : Placer} {path : Path} : p.watching path [] = p := rfl

theorem watching_watching {p : Placer} {path : Path} {watches watches' : List RequestId} :
    (p.watching path watches).watching path watches' = p.watching path (watches ++ watches') :=
  List.foldl_append.symm

/-- Placements `new` and watches `watched` are added for a source, and the machine tells `told`. -/
structure Grows (path : Path) (new : List Placement) (watched : List (RequestId × String)) (told : List Finding)
    (i : Installed) (p : Placer) (h : History) (i' : Installed) (p' : Placer) (h' : History) : Prop where
  revision : i'.revision = i.revision
  breakpoints : i'.breakpoints = i.breakpoints
  placements : i'.placements = i.placements ++ new
  watches : i'.watches = i.watches ++ watched.map (·.1)
  placer : p' = p.watching path (watched.map (·.1))
  locations : liveLocations h' = liveLocations h ++ new.map (·.live)
  watching : liveWatches h' = liveWatches h ++ watched
  findings : findings h' = findings h ++ told
  history : Backend.Extends (·.clears) h h'

variable {path : Path} {new new' : List Placement} {watched watched' : List (RequestId × String)}
  {told told' : List Finding} {i i₁ i' : Installed} {p p₁ p' : Placer} {h h₁ h' : History}

theorem Grows.refl : Grows path [] [] [] i p h i p h where
  revision := rfl
  breakpoints := rfl
  placements := by simp
  watches := by simp
  placer := rfl
  locations := by simp
  watching := by simp
  findings := by simp
  history := .refl

theorem Grows.trans (hFirst : Grows path new watched told i p h i₁ p₁ h₁)
    (hSecond : Grows path new' watched' told' i₁ p₁ h₁ i' p' h') :
    Grows path (new ++ new') (watched ++ watched') (told ++ told') i p h i' p' h' where
  revision := hSecond.revision.trans hFirst.revision
  breakpoints := hSecond.breakpoints.trans hFirst.breakpoints
  placements := by rw [hSecond.placements, hFirst.placements, List.append_assoc]
  watches := by rw [hSecond.watches, hFirst.watches, List.map_append, List.append_assoc]
  placer := by rw [hSecond.placer, hFirst.placer, watching_watching, List.map_append]
  locations := by rw [hSecond.locations, hFirst.locations, List.map_append, List.append_assoc]
  watching := by rw [hSecond.watching, hFirst.watching, List.append_assoc]
  findings := by rw [hSecond.findings, hFirst.findings, List.append_assoc]
  history := hFirst.history.trans hSecond.history

theorem Grows.granted (hGrows : Grows path new watched told i p h i' p' h') (hGranted : Granted h') : Granted h :=
  hGrows.history.granted hGranted

/-- The breakpoints of new placements are now known to have code. -/
def Marks (new : List Placement) (i i' : Installed) : Prop :=
  ∀ id, id ∈ i'.verified ↔ id ∈ i.verified ∨ id ∈ new.map (·.breakpoint)

theorem Marks.trans (hFirst : Marks new i i₁) (hSecond : Marks new' i₁ i') : Marks (new ++ new') i i' := fun id => by
  rw [hSecond, hFirst, List.map_append, List.mem_append, or_assoc]

theorem marks_nil (hVerified : i'.verified = i.verified) : Marks [] i i' := fun id => by simp [hVerified]

/-! What single calls add -/

theorem grows_placement {l : Location} {r : RequestId} {id : Int}
    (hAnswer : Interleaved Alive h (.setBreakpoint l) (.ok r) h') :
    Grows path [⟨r, id, l⟩] [] [] i p h { i with placements := i.placements ++ [⟨r, id, l⟩] } p h' where
  revision := rfl
  breakpoints := rfl
  placements := rfl
  watches := by simp
  placer := rfl
  locations := hAnswer.liveLocations
  watching := by rw [hAnswer.liveWatches]; simp [Backend.watchStep]
  findings := hAnswer.findings
  history := hAnswer.extends_ _ (fun _ _ => rfl) rfl

theorem grows_watch {pattern : String} {r : RequestId}
    (hAnswer : Interleaved Alive h (.setWatch pattern) (.ok r) h') :
    Grows path [] [(r, pattern)] [] i p h { i with watches := i.watches ++ [r] } (p.addWatch r path) h' where
  revision := rfl
  breakpoints := rfl
  placements := by simp
  watches := rfl
  placer := rfl
  locations := by rw [hAnswer.liveLocations]; simp [Backend.locationStep]
  watching := hAnswer.liveWatches
  findings := hAnswer.findings
  history := hAnswer.extends_ _ (fun _ _ => rfl) rfl

theorem grows_nothing {c : Backend.Call} {a : Backend.Answer c} (hAnswer : Interleaved Alive h c a h')
    (hLocations : ∀ live, Backend.locationStep live (.answered c a) = live)
    (hWatches : ∀ live, Backend.watchStep live (.answered c a) = live)
    (hClears : Backend.Happening.clears (.answered c a) = false) :
    Grows path [] [] (Backend.Happening.finding? (.answered c a)).toList i p h i p h' where
  revision := rfl
  breakpoints := rfl
  placements := by simp
  watches := by simp
  placer := rfl
  locations := by rw [hAnswer.liveLocations, hLocations]; simp
  watching := by rw [hAnswer.liveWatches, hWatches]; simp
  findings := hAnswer.findings
  history := hAnswer.extends_ _ (fun _ _ => rfl) hClears

/-! Placing in a class -/

theorem placeAt_succeeds (path : Path) (id : Int) (locations : List Location) (i : Installed) (p : Placer) (h : History) :
    SourceSucceeds (Interleaved Alive) (fun placed i' p' h' => ∃ new,
      Grows path new [] [] i p h i' p' h' ∧ i'.verified = i.verified ∧ (∀ x ∈ new, x.breakpoint = id) ∧
      (placed = true ↔ new ≠ []) ∧ (Granted h' → new.map (·.spot) = locations.map (id, ·)))
      (placeAt id locations) i p h := by
  induction locations generalizing i h with
  | nil => exact SourceSucceeds.pure ⟨[], .refl, rfl, by simp, by simp, fun _ => rfl⟩
  | cons l rest ih =>
    refine SourceSucceeds.bind (SourceSucceeds.trySource ?_)
    intro answer h₁ hAnswer
    constructor
    · rintro r rfl
      refine SourceSucceeds.bind (SourceSucceeds.modify (SourceSucceeds.bind (SourceSucceeds.mono ?_ (ih _ _))))
      rintro placed i' p' h' ⟨new, hGrows, hVerified, hIds, -, hSpots⟩
      refine SourceSucceeds.pure ⟨⟨r, id, l⟩ :: new, (grows_placement hAnswer).trans hGrows, hVerified, ?_, by simp, ?_⟩
      · intro x hx
        rcases List.mem_cons.mp hx with rfl | hx
        · rfl
        · exact hIds x hx
      · intro hGranted
        rw [List.map_cons, List.map_cons, hSpots hGranted]
        rfl
    · rintro e rfl
      refine ⟨hAnswer.tolerable rfl, SourceSucceeds.mono ?_ (ih _ _)⟩
      rintro placed i' p' h' ⟨new, hGrows, hVerified, hIds, hPlaced, -⟩
      have hNothing : Grows path [] [] [] i p h i p h₁ := grows_nothing hAnswer (fun _ => rfl) (fun _ => rfl) rfl
      refine ⟨new, hNothing.trans hGrows, hVerified, hIds, hPlaced, fun hGranted => ?_⟩
      cases hAnswer.granted (hGrows.granted hGranted)

theorem Grows.marked (hGrows : Grows path new watched told i p h i' p' h') (verified : List Int) :
    Grows path new watched told i p h { i' with verified } p' h' := { hGrows with }

/-- A breakpoint is marked if something was placed for it, before the work goes on. -/
theorem markIfPlaced_succeeds {α : Type} {post : α → Installed → Placer → History → Prop} {next : Bool → SourceWork α}
    {id : Int} {placed : Bool} (hIds : ∀ x ∈ new, x.breakpoint = id) (hPlaced : placed = true ↔ new ≠ [])
    (hVerified : i₁.verified = i.verified)
    (hNext : ∀ isNew i', Marks new i i' → i' = { i₁ with verified := i'.verified } →
      SourceSucceeds (Interleaved Alive) post (next isNew) i' p h) :
    SourceSucceeds (Interleaved Alive) post
      (if placed = true then markVerified id >>= next else pure false >>= next) i₁ p h := by
  cases placed with
  | false =>
    have hNone : new = [] := by simpa using hPlaced
    subst hNone
    exact SourceSucceeds.bind (SourceSucceeds.pure (hNext false i₁ (marks_nil hVerified) rfl))
  | true =>
    obtain ⟨x, hx⟩ := List.exists_mem_of_ne_nil new (hPlaced.mp rfl)
    have hMarked : ∀ other, other ∈ new.map (·.breakpoint) ↔ other = id := by
      intro other
      constructor
      · intro hOther
        obtain ⟨y, hy, rfl⟩ := List.mem_map.mp hOther
        exact hIds y hy
      · rintro rfl
        exact List.mem_map.mpr ⟨x, hx, hIds x hx⟩
    rw [if_pos rfl]
    refine SourceSucceeds.bind (SourceSucceeds.bind (SourceSucceeds.get ?_))
    by_cases hMem : id ∈ i₁.verified
    · rw [if_pos hMem]
      refine SourceSucceeds.pure (hNext false i₁ (fun other => ?_) rfl)
      rw [hMarked, ← hVerified]
      exact ⟨.inl, fun hOther => hOther.elim (fun hOld => hOld) (fun hEq => hEq ▸ hMem)⟩
    · rw [if_neg hMem]
      refine SourceSucceeds.bind (SourceSucceeds.modify (SourceSucceeds.pure (hNext true _ (fun other => ?_) rfl)))
      rw [hMarked, ← hVerified, List.mem_append, List.mem_singleton]

/-- What placing in a class adds: placements for its visit, and marks for the breakpoints that have some. -/
def VisitAdds (c : LoadedClass) (breakpoints : List Breakpoint) (path : Path) (i : Installed) (p : Placer) (h : History)
    (i' : Installed) (p' : Placer) (h' : History) : Prop :=
  ∃ new told, Grows path new [] told i p h i' p' h' ∧ Marks new i i' ∧
    (Granted h' → ∃ v : Visit, v.cls = c ∧ v.lines.map (·.1) = breakpoints ∧ told = v.findings ∧
      new.map (·.spot) = v.spots)

theorem placeEach_succeeds (path : Path) (c : LoadedClass) (breakpoints : List Breakpoint) (i : Installed) (p : Placer)
    (h : History) :
    SourceSucceeds (Interleaved Alive) (fun _ => VisitAdds c breakpoints path i p h) (placeEach c breakpoints) i p h := by
  induction breakpoints generalizing i p h with
  | nil => exact SourceSucceeds.pure ⟨[], [], .refl, marks_nil rfl, fun _ => ⟨⟨c, []⟩, rfl, rfl, rfl, rfl⟩⟩
  | cons b rest ih =>
    refine SourceSucceeds.bind (SourceSucceeds.trySource ?_)
    intro answer h₁ hAnswer
    -- The rest is the same whether the lines were told or not, but only what was told is in the visit.
    have hRest : ∀ (locations : List Location) (told : List Finding), Grows path [] [] told i p h i p h₁ →
        (Granted h₁ → told = [.lines c b.line locations]) → SourceSucceeds (Interleaved Alive)
          (fun _ => VisitAdds c (b :: rest) path i p h) (do
            let placed ← placeAt b.id locations
            let isNew ← if placed then markVerified b.id else pure false
            let others ← placeEach c rest
            return if isNew then (b.id, b.line) :: others else others) i p h₁ := by
      intro locations told hTold hFinding
      refine SourceSucceeds.bind (SourceSucceeds.mono ?_ (placeAt_succeeds path b.id locations i p h₁))
      rintro placed i₂ p₂ h₂ ⟨new, hGrows, hVerified, hIds, hPlaced, hSpots⟩
      refine markIfPlaced_succeeds hIds hPlaced hVerified fun isNew i₃ hMarks hInstalled => ?_
      refine SourceSucceeds.bind (SourceSucceeds.mono ?_ (ih i₃ p₂ h₂))
      rintro others i' p' h' ⟨new', told', hGrows', hMarks', hVisit⟩
      have hGrows₃ : Grows path new [] [] i p h₁ i₃ p₂ h₂ := by
        rw [hInstalled]
        exact hGrows.marked i₃.verified
      have hAll := (hTold.trans hGrows₃).trans hGrows'
      refine SourceSucceeds.pure ⟨_, _, hAll, hMarks.trans hMarks', fun hGranted => ?_⟩
      have hGranted₃ := hGrows'.granted hGranted
      obtain ⟨v, hClass, hLines, rfl, hNew'⟩ := hVisit hGranted
      refine ⟨⟨c, (b, locations) :: v.lines⟩, rfl, by rw [List.map_cons, hLines], ?_, ?_⟩
      · rw [hFinding (hGrows₃.granted hGranted₃), ← hClass]
        rfl
      · rw [List.nil_append, List.map_append, hNew', hSpots hGranted₃]
        rfl
    constructor
    · rintro locations rfl
      exact hRest locations _ (grows_nothing hAnswer (fun _ => rfl) (fun _ => rfl) rfl) (fun _ => rfl)
    · rintro e rfl
      refine ⟨hAnswer.tolerable rfl, hRest [] _ (grows_nothing hAnswer (fun _ => rfl) (fun _ => rfl) rfl) ?_⟩
      intro hGranted
      cases hAnswer.granted hGranted

theorem placeInClass_succeeds (path : Path) (c : LoadedClass) (i : Installed) (p : Placer) (h : History) :
    SourceSucceeds (Interleaved Alive) (fun _ => VisitAdds c i.breakpoints path i p h) (placeInClass c) i p h :=
  SourceSucceeds.bind (SourceSucceeds.get (placeEach_succeeds path c i.breakpoints i p h))

theorem placeInClasses_succeeds (path : Path) (classes : List LoadedClass) (i : Installed) (p : Placer) (h : History) :
    SourceSucceeds (Interleaved Alive) (fun _ i' p' h' => ∃ new told,
      Grows path new [] told i p h i' p' h' ∧ Marks new i i' ∧
      (Granted h' → ∃ visits : List Visit, visits.map (·.cls) = classes ∧
        (∀ v ∈ visits, v.lines.map (·.1) = i.breakpoints) ∧ told = visits.flatMap (·.findings) ∧
        new.map (·.spot) = visits.flatMap (·.spots)))
      (placeInClasses classes) i p h := by
  induction classes generalizing i p h with
  | nil => exact SourceSucceeds.pure ⟨[], [], .refl, marks_nil rfl, fun _ => ⟨[], rfl, by simp, rfl, rfl⟩⟩
  | cons c rest ih =>
    refine SourceSucceeds.bind (SourceSucceeds.mono ?_ (placeInClass_succeeds path c i p h))
    rintro _ i₁ p₁ h₁ ⟨new, told, hGrows, hMarks, hVisit⟩
    refine SourceSucceeds.mono ?_ (ih i₁ p₁ h₁)
    rintro _ i' p' h' ⟨new', told', hGrows', hMarks', hVisits⟩
    refine ⟨_, _, hGrows.trans hGrows', hMarks.trans hMarks', fun hGranted => ?_⟩
    obtain ⟨v, rfl, hLines, rfl, hSpots⟩ := hVisit (hGrows'.granted hGranted)
    obtain ⟨visits, rfl, hAll, rfl, hSpots'⟩ := hVisits hGranted
    refine ⟨v :: visits, rfl, ?_, by rw [List.flatMap_cons], by rw [List.map_append, hSpots, hSpots', List.flatMap_cons]⟩
    intro w hw
    rcases List.mem_cons.mp hw with rfl | hw
    · exact hLines
    · rw [hAll w hw, hGrows.breakpoints]

/-! Placing a source -/

theorem watch_succeeds (path : Path) (pattern : String) (i : Installed) (p : Placer) (h : History) :
    SourceSucceeds (Interleaved Alive) (fun _ i' p' h' => ∃ watched,
      Grows path [] watched [] i p h i' p' h' ∧ i'.verified = i.verified ∧
      (Granted h' → watched.map (·.2) = [pattern])) (watch path pattern) i p h := by
  refine SourceSucceeds.bind (SourceSucceeds.trySource ?_)
  intro answer h₁ hAnswer
  constructor
  · rintro r rfl
    refine SourceSucceeds.bind (SourceSucceeds.note (SourceSucceeds.bind (SourceSucceeds.modify ?_)))
    exact SourceSucceeds.routine ⟨[(r, pattern)], grows_watch hAnswer, rfl, fun _ => rfl⟩
  · rintro e rfl
    refine ⟨hAnswer.tolerable rfl, SourceSucceeds.pure ?_⟩
    refine ⟨[], grows_nothing hAnswer (fun _ => rfl) (fun _ => rfl) rfl, rfl, fun hGranted => ?_⟩
    cases hAnswer.granted hGranted

/-- What placing some candidates of a source adds. -/
def SurveysAdd (path : Path) (names : List String) (i : Installed) (p : Placer) (h : History) (i' : Installed)
    (p' : Placer) (h' : History) : Prop :=
  ∃ new watched told, Grows path new watched told i p h i' p' h' ∧ Marks new i i' ∧
    (Granted h' → ∃ surveys, Survey.Cover i.breakpoints names surveys ∧ told = surveys.flatMap (·.findings) ∧
      new.map (·.spot) = surveys.flatMap (·.spots) ∧ watched.map (·.2) = surveys.flatMap (·.patterns))

/-- A class is watched for if none is loaded under its name, before the work goes on. -/
theorem watchIfNone_succeeds {α : Type} {post : α → Installed → Placer → History → Prop} {next : Unit → SourceWork α}
    {name : String} {loaded : List LoadedClass}
    (hNext : ∀ watched i' p' h', Grows path [] watched [] i p h i' p' h' → i'.verified = i.verified →
      (Granted h' → watched.map (·.2) = if loaded = [] then [name] else []) →
      SourceSucceeds (Interleaved Alive) post (next ()) i' p' h') :
    SourceSucceeds (Interleaved Alive) post
      (if loaded.isEmpty = true then watch path name >>= next else next ()) i p h := by
  cases loaded with
  | nil =>
    refine SourceSucceeds.bind (SourceSucceeds.mono ?_ (watch_succeeds path name i p h))
    rintro _ i' p' h' ⟨watched, hGrows, hVerified, hPattern⟩
    exact hNext watched i' p' h' hGrows hVerified hPattern
  | cons c rest => exact hNext [] i p h .refl rfl fun _ => rfl

theorem placeCandidates_succeeds (path : Path) (names : List String) (i : Installed) (p : Placer) (h : History) :
    SourceSucceeds (Interleaved Alive) (fun _ => SurveysAdd path names i p h) (placeCandidates path names) i p h := by
  induction names generalizing i p h with
  | nil => exact SourceSucceeds.pure ⟨[], [], [], .refl, marks_nil rfl, fun _ => ⟨[], ⟨rfl, by simp⟩, rfl, rfl, rfl⟩⟩
  | cons name rest ih =>
    refine SourceSucceeds.bind (SourceSucceeds.trySource ?_)
    intro answer h₁ hAnswer
    have hRest : ∀ (loaded : List LoadedClass) (told : List Finding), Grows path [] [] told i p h i p h₁ →
        (Granted h₁ → told = [.classes name loaded]) → SourceSucceeds (Interleaved Alive)
          (fun _ => SurveysAdd path (name :: rest) i p h) (do
            if loaded.isEmpty then watch path name
            placeInClasses loaded
            watch path (nestedPattern name)
            placeCandidates path rest) i p h₁ := by
      intro loaded told hTold hFinding
      refine watchIfNone_succeeds fun own i₂ p₂ h₂ hOwn hVerified₂ hOwnPattern => ?_
      refine SourceSucceeds.bind (SourceSucceeds.mono ?_ (placeInClasses_succeeds path loaded i₂ p₂ h₂))
      rintro _ i₃ p₃ h₃ ⟨new, told₃, hGrows₃, hMarks₃, hVisits⟩
      refine SourceSucceeds.bind (SourceSucceeds.mono ?_ (watch_succeeds path (nestedPattern name) i₃ p₃ h₃))
      rintro _ i₄ p₄ h₄ ⟨nested, hNested, hVerified₄, hNestedPattern⟩
      refine SourceSucceeds.mono ?_ (ih i₄ p₄ h₄)
      rintro _ i' p' h' ⟨new', watched', told', hGrows', hMarks', hSurveys⟩
      have hFirst := ((hTold.trans hOwn).trans hGrows₃).trans hNested
      have hMarks : Marks new i i₄ := fun id => by rw [hVerified₄, hMarks₃, hVerified₂]
      refine ⟨_, _, _, hFirst.trans hGrows', ?_, fun hGranted => ?_⟩
      · simpa using hMarks.trans hMarks'
      · have hGranted₄ := hGrows'.granted hGranted
        have hGranted₃ := hNested.granted hGranted₄
        have hGranted₂ := hGrows₃.granted hGranted₃
        obtain ⟨visits, rfl, hLines, rfl, hSpots⟩ := hVisits hGranted₃
        obtain ⟨surveys, hCover, rfl, hSpots', hPatterns'⟩ := hSurveys hGranted
        refine ⟨⟨name, visits⟩ :: surveys, ⟨?_, ?_⟩, ?_, ?_, ?_⟩
        · rw [List.map_cons, hCover.names]
        · intro s hs
          rcases List.mem_cons.mp hs with rfl | hs
          · rwa [hOwn.breakpoints] at hLines
          · have hBreakpoints : i₄.breakpoints = i.breakpoints := hFirst.breakpoints
            rw [← hBreakpoints]
            exact hCover.lines s hs
        · rw [hFinding (hOwn.granted hGranted₂), List.flatMap_cons, Survey.findings]
          simp
        · rw [List.map_append, hSpots', List.flatMap_cons, Survey.spots]
          simp [hSpots]
        · rw [List.map_append, hPatterns', List.flatMap_cons, Survey.patterns]
          simp [hOwnPattern hGranted₂, hNestedPattern hGranted₄]
    constructor
    · rintro loaded rfl
      exact hRest loaded _ (grows_nothing hAnswer (fun _ => rfl) (fun _ => rfl) rfl) (fun _ => rfl)
    · rintro e rfl
      refine ⟨hAnswer.tolerable rfl, hRest [] _ (grows_nothing hAnswer (fun _ => rfl) (fun _ => rfl) rfl) ?_⟩
      intro hGranted
      cases hAnswer.granted hGranted

end Placer
end JvmDebug
