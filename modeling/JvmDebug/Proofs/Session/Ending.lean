import JvmDebug.Proofs.Routine.Phases
import JvmDebug.Proofs.Routine.Replay
import JvmDebug.Proofs.Session.Standing

/-!
# The end of a debuggee that is being started

A debuggee publishes its events as soon as it is there, before the session has subscribed to them and before it has made
the debuggee its own. Here the two go on side by side, until the debuggee has published that it has ended and the session
has made it its own. The client is told, and the session is without debuggee, exactly if the end finds the debuggee in the
session. Otherwise the session keeps a debuggee that has ended; if nobody had subscribed, not even the client is told.
-/

namespace JvmDebug.Session
set_option autoImplicit false

def isEnding : Dap.Outgoing → Bool
  | .event e => e.event = "exited" || e.event = "terminated"
  | .response _ => false

def endings (messages : List Dap.Outgoing) : List Dap.Outgoing := messages.filter isEnding

/-- What the client is told first when a debuggee has ended with a code. -/
def exitMessage (code : Option Int32) : Dap.Outgoing := .exited ((code.map (·.toInt)).getD 0)

theorem isEnding_of (name : String) (body : Json) :
    isEnding (.event (.of name body)) = (name = "exited" || name = "terminated") := by
  cases body <;> rfl

theorem endings_snoc (messages : List Dap.Outgoing) (m : Dap.Outgoing) :
    Session.endings (messages ++ [m]) = Session.endings messages ++ if isEnding m then [m] else [] := by
  rw [Session.endings, List.filter_append]
  cases h : isEnding m <;> simp [Session.endings, h]

/-! ## What else goes on -/

/-- Leaves alone whose debuggee the session has, who listens to it, and what is told of its end. -/
structure Meanwhile (s s' : Session) : Prop where
  debuggee : s'.debuggee = s.debuggee
  bus : s'.bus = s.bus
  subscriptions : s'.subscriptions = s.subscriptions
  endings : endings s'.outbox = endings s.outbox

theorem meanwhile_of_eq {s s' : Session} (hDebuggee : s'.debuggee = s.debuggee) (hBus : s'.bus = s.bus)
    (hSubscriptions : s'.subscriptions = s.subscriptions) (hOutbox : s'.outbox = s.outbox) : Meanwhile s s' :=
  ⟨hDebuggee, hBus, hSubscriptions, congrArg Session.endings hOutbox⟩

theorem meanwhile_refl (s : Session) : Meanwhile s s := meanwhile_of_eq rfl rfl rfl rfl

theorem meanwhile_post {m : Dap.Outgoing} (h : isEnding m = false) (s : Session) : Meanwhile s (post m s) :=
  ⟨rfl, rfl, rfl, by rw [post, endings_snoc]; simp [h]⟩

theorem meanwhile_keep (r : Log.Record) (s : Session) : Meanwhile s (keep r s) := by
  unfold keep
  split
  · exact meanwhile_refl s
  · split
    · split
      · exact ⟨rfl, rfl, rfl, (meanwhile_post (isEnding_of ..) _).endings⟩
      · exact meanwhile_of_eq rfl rfl rfl rfl
    · exact meanwhile_refl s

def passing : Bounds Session World := ⟨Meanwhile, fun _ => False, keep⟩

theorem send_passing {m : Dap.Outgoing} (h : isEnding m = false) : (send m : Activity Unit).Within passing fun _ => True :=
  fun s => ⟨meanwhile_post h s, trivial⟩

theorem onEvent_passing {e : DebugEvent} (hNot : isEnd e = false) : (onEvent e : Activity Unit).Within passing fun _ => True := by
  cases e with
  | breakpointHit t => exact send_passing (isEnding_of ..)
  | step t => exact send_passing (isEnding_of ..)
  | exceptionThrown t x =>
    exact Routine.within_then (fun _ => ⟨meanwhile_of_eq rfl rfl rfl rfl, trivial⟩) fun _ => send_passing (isEnding_of ..)
  | threadChanged t c =>
    cases c with
    | started => exact send_passing (isEnding_of ..)
    | exited =>
      refine Routine.within_then ?_ fun _ => send_passing (isEnding_of ..)
      refine Routine.within_then (fun _ => ⟨meanwhile_of_eq rfl rfl rfl rfl, trivial⟩) fun _ => ?_
      refine Routine.within_then (fun _ => ⟨meanwhile_of_eq rfl rfl rfl rfl, trivial⟩) fun _ => ?_
      exact fun _ => ⟨meanwhile_of_eq rfl rfl rfl rfl, trivial⟩
  | breakpointResolved id line =>
    refine Routine.within_then (fun s => ⟨meanwhile_refl s, trivial⟩) fun current => ?_
    split
    · refine Routine.within_then (fun s => ⟨meanwhile_refl s, trivial⟩) fun numbering => ?_
      exact send_passing (isEnding_of ..)
    · trivial
  | exited code => cases hNot

/-! ## Starting and publishing -/

inductive Side where
  | starter
  | pump
  deriving DecidableEq

/-- What a debuggee publishes until it has ended. -/
def publishing (d : DebuggeeId) (events : List DebugEvent) (code : Option Int32) : Activity Unit := do
  Routine.each events (hear d)
  hear d (.exited code)

/-- Nobody takes anything else up, and nobody asks anything meanwhile. -/
def sides : Setting Side Unit Session World Unit fun _ => Unit where
  takes _ _ _ _ _ := False
  answers _ _ _ _ := False
  keep := keep
  outside s _ s' _ := Meanwhile s s'

abbrev Race := Scene Side Unit Session World Unit fun _ => Unit
abbrev Pass := Moment Side Unit Session World

/-- A debuggee has come to be: it publishes its events while the session starts it. -/
def race (d : DebuggeeId) (announceThreads : Bool) (events : List DebugEvent) (code : Option Int32) (s : Session) : Race where
  busy
    | .starter => some ((), startDebuggee d announceThreads)
    | .pump => some ((), publishing d events code)
  state := s
  world := ()

/-- Those who hear what a debuggee publishes. -/
def audience (d : DebuggeeId) (b : Bus DebuggeeId) : List DebuggeeId := b.listeners.filter (· = d)

/-- Who is left when the subscriptions that count are ended. -/
def outdated (s : Session) : Bus DebuggeeId := s.subscriptions.foldl Bus.unsubscribe s.bus

/-- A debuggee that a session has nothing to do with yet. -/
structure Unknown (d : DebuggeeId) (s : Session) : Prop where
  audience : audience d s.bus = []
  debuggee : s.debuggee ≠ some d
  numbers : ∀ n ∈ s.subscriptions, n < s.bus.next

theorem unknown_new (d : DebuggeeId) (journal : Option Log.Journal) : Unknown d { journal } :=
  ⟨rfl, nofun, nofun⟩

/-- The end has found the debuggee in the session. -/
def Caught (d : DebuggeeId) (past : List Pass) : Prop :=
  ∃ e ∈ past, e.turn = .goesOn .pump () none ∧ e.before.debuggee = some d ∧ e.after.debuggee = none

/-- Whatever the debuggee has published, nobody heard it. -/
def Unheard (d : DebuggeeId) (past : List Pass) : Prop :=
  ∀ e ∈ past, ∀ asked, e.turn = .goesOn .pump () asked → audience d e.before.bus = []

/-! ## What each side does -/

inductive Installing where
  | subscribing
  | replacing
  | storing
  | stored

inductive Installs (d : DebuggeeId) : Installing → Session → Session → Installing → Prop where
  | subscribes (s : Session) : Installs d .subscribing s (subscribe d s).2 .replacing
  | replaces (n : Nat) (s : Session) : Installs d .replacing s (replaceSubscriptions [n] s) .storing
  | stores (s : Session) : Installs d .storing s { s with debuggee := some d } .stored
  | rests {s s' : Session} : Meanwhile s s' → Installs d .stored s s' .stored

/-- How far the end of a debuggee is published, and whether it has found the debuggee in the session. -/
inductive Publishing where
  | before
  | unheard
  | heard
  | emptied (found : Bool)
  | exited (found : Bool)
  | terminated (found : Bool)

inductive Publishes (d : DebuggeeId) (code : Option Int32) : Publishing → Session → Session → Publishing → Prop where
  | other {s s' : Session} : Meanwhile s s' → Publishes d code .before s s' .before
  | misses {s : Session} : audience d s.bus = [] → Publishes d code .before s s .unheard
  | hears {s : Session} : audience d s.bus ≠ [] → Publishes d code .before s s .heard
  | notes {s s' : Session} : Meanwhile s s' → Publishes d code .heard s s' .heard
  | empties (s : Session) :
      Publishes d code .heard s { s with debuggee := none } (.emptied (s.debuggee = some d))
  | clears {found : Bool} {s s' : Session} : Meanwhile s s' → Publishes d code (.emptied found) s s' (.emptied found)
  | exits (found : Bool) (s : Session) : Publishes d code (.emptied found) s (post (exitMessage code) s) (.exited found)
  | terminates (found : Bool) (s : Session) : Publishes d code (.exited found) s (post .terminated s) (.terminated found)

def Progress : Side → Type
  | .starter => Installing
  | .pump => Publishing

def course (d : DebuggeeId) (code : Option Int32) : Concert sides Progress where
  phases
    | .starter =>
      { fits := fun _ _ => True
        moves := fun g asked s s' g' => asked = none ∧ Installs d g s s' g'
        answered := fun _ _ => False
        keep := keep }
    | .pump =>
      { -- nobody hears an event twice
        fits := fun _ s => (audience d s.bus).length ≤ 1
        moves := fun g asked s s' g' => asked = none ∧ Publishes d code g s s' g'
        answered := fun _ _ => False
        keep := keep }
  home
    | .starter, g => g = Installing.stored
    | .pump, g => g = Publishing.unheard ∨ ∃ found, g = Publishing.terminated found
  post
    | .starter, _, _, g => g = Installing.stored
    | .pump, _, _, g => g = Publishing.unheard ∨ ∃ found, g = Publishing.terminated found

variable {d : DebuggeeId} {code : Option Int32}

theorem startDebuggee_installs (announceThreads : Bool) :
    (startDebuggee d announceThreads).Passes ((course d code).phases .starter) (fun _ g => g = Installing.stored)
      Installing.subscribing := by
  intro s _
  refine ⟨Installing.replacing, ⟨rfl, .subscribes s⟩, ?_⟩
  intro s _
  refine ⟨Installing.storing, ⟨rfl, .replaces _ s⟩, ?_⟩
  intro s _
  refine ⟨Installing.stored, ⟨rfl, .stores s⟩, ?_⟩
  intro s _
  exact ⟨Installing.stored, ⟨rfl, .rests (meanwhile_of_eq rfl rfl rfl rfl)⟩, rfl⟩

theorem passes_passing {r : Activity Unit} {g : Publishing} (h : r.Within passing fun _ => True)
    (hMay : ∀ s s', Meanwhile s s' → Publishes d code g s s' g) :
    r.Passes ((course d code).phases .pump) (fun _ (g' : Publishing) => g' = g) g := by
  refine h.passes_in rfl (fun _ _ => trivial) ?_ ?_ rfl
  · rintro _ s s' rfl _ hChanges
    exact ⟨_, ⟨rfl, hMay s s' hChanges⟩, rfl⟩
  · intro _ _ _ _ _ _ hCalls
    exact hCalls.elim

theorem onExit_publishes :
    (onExit code : Activity Unit).Passes ((course d code).phases .pump)
      (fun _ (g : Publishing) => ∃ found, g = .terminated found) Publishing.heard := by
  intro s _
  refine ⟨Publishing.heard, ⟨rfl, .notes (meanwhile_keep _ s)⟩, ?_⟩
  intro s _
  refine ⟨Publishing.emptied (s.debuggee = some d), ⟨rfl, .empties s⟩, ?_⟩
  intro s' _
  refine ⟨_, ⟨rfl, .clears (meanwhile_of_eq rfl rfl rfl rfl)⟩, ?_⟩
  intro s' _
  refine ⟨_, ⟨rfl, .clears (meanwhile_of_eq rfl rfl rfl rfl)⟩, ?_⟩
  intro s' _
  refine ⟨_, ⟨rfl, .clears (meanwhile_of_eq rfl rfl rfl rfl)⟩, ?_⟩
  intro s' _
  refine ⟨_, ⟨rfl, .clears (meanwhile_of_eq rfl rfl rfl rfl)⟩, ?_⟩
  intro s' _
  refine ⟨_, ⟨rfl, .exits _ s'⟩, ?_⟩
  intro s' _
  exact ⟨_, ⟨rfl, .terminates _ s'⟩, _, rfl⟩

theorem publishing_publishes {events : List DebugEvent} (hEvents : ∀ e ∈ events, isEnd e = false) :
    (publishing d events code).Passes ((course d code).phases .pump)
      (fun _ (g : Publishing) => g = .unheard ∨ ∃ found, g = .terminated found) Publishing.before := by
  have hOthers : (Routine.each events (hear d) : Activity Unit).Within passing fun _ => True := by
    refine Routine.within_each fun e he => ?_
    refine Routine.within_then (fun s => ⟨meanwhile_refl s, trivial⟩) fun listeners => ?_
    exact Routine.within_each fun _ _ => onEvent_passing (hEvents e he)
  refine Routine.Passes.bind ((passes_passing hOthers fun _ _ => .other).mono ?_)
  rintro _ _ rfl
  intro s hFits
  -- Either nobody listens, or the session does, once.
  change Phases.Moves _ (Routine.Passes _ _ (Routine.each (audience d s.bus) fun _ => onExit code)) _ _ _ _
  match hAudience : audience d s.bus with
  | [] => exact ⟨Publishing.unheard, ⟨rfl, .misses hAudience⟩, .inl rfl⟩
  | [_] =>
    refine ⟨Publishing.heard, ⟨rfl, .hears (by simp [hAudience])⟩, ?_⟩
    exact Routine.Passes.bind (onExit_publishes.mono fun _ _ => .inr)
  | _ :: _ :: _ => simp [course, hAudience] at hFits

/-! ## Side by side -/

/-- What the session has been made to have, when the debuggee has been found in it or not. -/
def Installing.Has (d : DebuggeeId) (found : Bool) : Installing → Session → Prop
  | .subscribing, s => found = false ∧ Unknown d s
  | .replacing, s => found = false ∧ audience d s.bus = [d] ∧ audience d (outdated s) = [d] ∧ s.debuggee ≠ some d
  | .storing, s => found = false ∧ audience d s.bus = [d] ∧ s.debuggee ≠ some d
  | .stored, s => audience d s.bus = [d] ∧ s.debuggee = if found then none else some d

def Publishing.found : Publishing → Bool
  | .before | .unheard | .heard => false
  | .emptied found | .exited found | .terminated found => found

/-- What the client has been told of the end. -/
def Publishing.told (code : Option Int32) : Publishing → List Dap.Outgoing
  | .before | .unheard | .heard | .emptied _ => []
  | .exited _ => [exitMessage code]
  | .terminated _ => [exitMessage code, .terminated]

/-- Who has heard what was published, by the time that somebody listens. -/
def Publishing.Audible (d : DebuggeeId) (past : List Pass) (i : Installing) : Publishing → Prop
  | .before => i = .subscribing → Unheard d past
  | .unheard => Unheard d past
  | .heard | .emptied _ | .exited _ | .terminated _ => ¬Unheard d past

structure Going (d : DebuggeeId) (code : Option Int32) (told : List Dap.Outgoing) (i : Installing) (p : Publishing)
    (past : List Pass) (s : Session) : Prop where
  has : i.Has d p.found s
  told : endings s.outbox = told ++ p.told code
  caught : Caught d past ↔ p.found = true
  audible : p.Audible d past i

variable {told : List Dap.Outgoing} {i i' : Installing} {p p' : Publishing} {past : List Pass} {s s' : Session} {e : Pass}

theorem caught_snoc : Caught d (past ++ [e]) ↔
    Caught d past ∨ e.turn = .goesOn .pump () none ∧ e.before.debuggee = some d ∧ e.after.debuggee = none := by
  simp [Caught, or_and_right, exists_or]

theorem unheard_snoc : Unheard d (past ++ [e]) ↔
    Unheard d past ∧ ∀ asked, e.turn = .goesOn .pump () asked → audience d e.before.bus = [] := by
  simp [Unheard, or_imp, forall_and]

theorem Installing.Has.audience_of_ne {found : Bool} (h : i.Has d found s) (hNot : i ≠ .subscribing) :
    audience d s.bus = [d] := by
  cases i with
  | subscribing => exact absurd rfl hNot
  | replacing => exact h.2.1
  | storing => exact h.2.1
  | stored => exact h.1

theorem Installing.Has.audience_le {found : Bool} (h : i.Has d found s) : (audience d s.bus).length ≤ 1 := by
  by_cases hBegins : i = .subscribing
  · subst hBegins
    simp [h.2.audience]
  · simp [h.audience_of_ne hBegins]

theorem Installing.Has.meanwhile {found : Bool} (h : i.Has d found s) (hMeanwhile : Meanwhile s s') : i.Has d found s' := by
  obtain ⟨hDebuggee, hBus, hSubscriptions, -⟩ := hMeanwhile
  cases i with
  | subscribing =>
    obtain ⟨hFound, hUnknown⟩ := h
    exact ⟨hFound, hBus ▸ hUnknown.audience, hDebuggee ▸ hUnknown.debuggee, by simpa [hSubscriptions, hBus] using hUnknown.numbers⟩
  | replacing => simpa [Installing.Has, outdated, hDebuggee, hBus, hSubscriptions] using h
  | storing => simpa [Installing.Has, hDebuggee, hBus] using h
  | stored => simpa [Installing.Has, hDebuggee, hBus] using h

/-! ### Installing -/

theorem audience_subscribe (b : Bus DebuggeeId) : audience d (b.subscribe d).2 = audience d b ++ [d] := by
  simp [audience, Bus.subscribe, Bus.listeners]

/-- Ending older subscriptions does not end the one that was made last. -/
theorem audience_ended {b : Bus DebuggeeId} {ended : List Nat} (hNobody : audience d b = []) (hOlder : ∀ n ∈ ended, n < b.next) :
    audience d (ended.foldl Bus.unsubscribe (b.subscribe d).2) = [d] := by
  have hEnded : ∀ c : Bus DebuggeeId, (ended.foldl Bus.unsubscribe c).entries = c.entries.filter (·.1 ∉ ended) := by
    induction ended with
    | nil => simp
    | cons n rest ih =>
      intro c
      rw [List.foldl_cons, ih (fun m hm => hOlder m (by simp [hm]))]
      simp only [Bus.unsubscribe, List.filter_filter]
      exact List.filter_congr fun x _ => by by_cases hx : x.1 = n <;> simp [hx]
  have hNew : b.next ∉ ended := fun hMem => absurd (hOlder _ hMem) (by omega)
  have hOthers : ∀ entry ∈ b.entries, entry.2 ≠ d := by
    intro entry hEntry hSame
    have hThere : entry.2 ∈ audience d b := List.mem_filter.mpr ⟨List.mem_map_of_mem hEntry, by simpa using hSame⟩
    simp [hNobody] at hThere
  simp only [audience, Bus.listeners, hEnded, Bus.subscribe, List.filter_append, List.map_append]
  simpa [hNew] using fun a x hEntry _ => hOthers (x, a) hEntry

theorem Going.installs (h : Going d code told i p past s) (hStep : Installs d i s s' i') :
    Going d code told i' p (past ++ [⟨.goesOn .starter () none, s, s'⟩]) s' := by
  have hCaught : Caught d (past ++ [⟨.goesOn .starter () none, s, s'⟩]) ↔ p.found = true := by
    simpa [caught_snoc] using h.caught
  have hAudible : p.Audible d (past ++ [⟨.goesOn .starter () none, s, s'⟩]) i := by
    have hHere := h.audible
    cases p <;> simpa [Publishing.Audible, unheard_snoc] using hHere
  have hLater : i' ≠ .subscribing → p.Audible d (past ++ [⟨.goesOn .starter () none, s, s'⟩]) i' := by
    intro hNot
    cases p <;> simp_all [Publishing.Audible]
  cases hStep with
  | subscribes =>
    obtain ⟨hFound, hUnknown⟩ := h.has
    refine ⟨⟨hFound, ?_, ?_, hUnknown.debuggee⟩, h.told, hCaught, hLater (by simp)⟩
    · exact (audience_subscribe s.bus).trans (by rw [hUnknown.audience, List.nil_append])
    · exact audience_ended hUnknown.audience hUnknown.numbers
  | replaces n =>
    obtain ⟨hFound, -, hKept, hNot⟩ := h.has
    exact ⟨⟨hFound, hKept, hNot⟩, h.told, hCaught, hLater (by simp)⟩
  | stores =>
    obtain ⟨hFound, hHere, -⟩ := h.has
    exact ⟨⟨hHere, by simp [hFound]⟩, h.told, hCaught, hLater (by simp)⟩
  | rests hMeanwhile => exact ⟨h.has.meanwhile hMeanwhile, hMeanwhile.endings.trans h.told, hCaught, hAudible⟩

/-! ### Publishing -/

theorem caught_of_same {turn : Turn Side Unit World} (hSame : s'.debuggee = s.debuggee) :
    Caught d (past ++ [⟨turn, s, s'⟩]) ↔ Caught d past := by
  simp only [caught_snoc, hSame]
  exact or_iff_left (by rintro ⟨-, hHere, hNone⟩; simp [hHere] at hNone)

theorem heard_snoc (h : ¬Unheard d past) (e : Pass) : ¬Unheard d (past ++ [e]) := fun hAll => h (unheard_snoc.mp hAll).1

theorem Installing.Has.emptied (h : i.Has d false s) : i.Has d (s.debuggee = some d) { s with debuggee := none } := by
  cases i with
  | subscribing => exact ⟨by simp [h.2.debuggee], h.2.audience, nofun, h.2.numbers⟩
  | replacing => exact ⟨by simp [h.2.2.2], h.2.1, h.2.2.1, nofun⟩
  | storing => exact ⟨by simp [h.2.2], h.2.1, nofun⟩
  | stored => exact ⟨h.1, by simp [show s.debuggee = some d from h.2]⟩

theorem Installing.Has.post {found : Bool} (h : i.Has d found s) (m : Dap.Outgoing) : i.Has d found (post m s) := by
  cases i with
  | subscribing => exact ⟨h.1, h.2.audience, h.2.debuggee, h.2.numbers⟩
  | replacing => exact h
  | storing => exact h
  | stored => exact h

theorem Going.publishes (h : Going d code told i p past s) (hStep : Publishes d code p s s' p') :
    Going d code told i p' (past ++ [⟨.goesOn .pump () none, s, s'⟩]) s' := by
  cases hStep with
  | other hMeanwhile =>
    refine ⟨h.has.meanwhile hMeanwhile, hMeanwhile.endings.trans h.told, (caught_of_same hMeanwhile.debuggee).trans h.caught, ?_⟩
    rintro rfl
    exact unheard_snoc.mpr ⟨h.audible rfl, fun _ _ => h.has.2.audience⟩
  | misses hNobody =>
    refine ⟨h.has, h.told, (caught_of_same rfl).trans h.caught, ?_⟩
    have hBegins : i = .subscribing := by
      by_contra hNot
      simp [h.has.audience_of_ne hNot] at hNobody
    exact unheard_snoc.mpr ⟨h.audible hBegins, fun _ _ => hNobody⟩
  | hears hSomebody =>
    refine ⟨h.has, h.told, (caught_of_same rfl).trans h.caught, ?_⟩
    exact fun hAll => hSomebody ((unheard_snoc.mp hAll).2 _ rfl)
  | notes hMeanwhile =>
    exact ⟨h.has.meanwhile hMeanwhile, hMeanwhile.endings.trans h.told,
      (caught_of_same hMeanwhile.debuggee).trans h.caught, heard_snoc h.audible _⟩
  | empties =>
    have hNotYet : ¬Caught d past := by simp [h.caught, Publishing.found]
    exact ⟨h.has.emptied, h.told, by simp [caught_snoc, hNotYet, Publishing.found], heard_snoc h.audible _⟩
  | clears hMeanwhile =>
    exact ⟨h.has.meanwhile hMeanwhile, hMeanwhile.endings.trans h.told,
      (caught_of_same hMeanwhile.debuggee).trans h.caught, heard_snoc h.audible _⟩
  | exits found =>
    refine ⟨h.has.post _, ?_, (caught_of_same (by rfl)).trans h.caught, heard_snoc h.audible _⟩
    rw [post, endings_snoc, h.told]
    simp [exitMessage, Dap.Outgoing.exited, isEnding_of, Publishing.told]
  | terminates found =>
    refine ⟨h.has.post _, ?_, (caught_of_same (by rfl)).trans h.caught, heard_snoc h.audible _⟩
    rw [post, endings_snoc, h.told]
    simp [Dap.Outgoing.terminated, isEnding_of, Publishing.told]

theorem course_keeps (d : DebuggeeId) (code : Option Int32) (told : List Dap.Outgoing) :
    (course d code).Keeps (fun _ _ => True) fun φ past s => Going d code told (φ .starter) (φ .pump) past s where
  keep k := by cases k <;> rfl
  answered _ _ _ _ _ := False.elim
  fits k h := by
    cases k with
    | starter => trivial
    | pump => exact h.has.audience_le
  takes _ _ hTakes _ := hTakes.elim
  goes {φ past s k job asked s' g} h hMoves _ := by
    cases k with
    | starter =>
      obtain ⟨rfl, hStep⟩ := hMoves
      exact h.installs hStep
    | pump =>
      obtain ⟨rfl, hStep⟩ := hMoves
      exact h.publishes hStep
  done {φ past s k job a} h hPost := by
    refine ⟨by cases k <;> exact hPost, h.has, h.told, by simpa [caught_snoc] using h.caught, ?_⟩
    have hHere := h.audible
    revert hHere
    cases φ Side.pump <;> simp [Publishing.Audible, unheard_snoc]
  outside {φ past s m s' m'} h hOutside := by
    refine ⟨h.has.meanwhile hOutside, hOutside.endings.trans h.told, (caught_of_same hOutside.debuggee).trans h.caught, ?_⟩
    have hHere := h.audible
    revert hHere
    cases φ Side.pump <;> simp [Publishing.Audible, unheard_snoc]

/-! ## When both are done -/

/-- What has become of a session that has started a debuggee which has ended, by what has happened meanwhile. -/
structure Ended (d : DebuggeeId) (code : Option Int32) (told : List Dap.Outgoing) (past : List Pass) (now : Session) : Prop where
  caught : Caught d past → endings now.outbox = told ++ [exitMessage code, .terminated] ∧ now.debuggee = none
  late : ¬Caught d past → ¬Unheard d past →
    endings now.outbox = told ++ [exitMessage code, .terminated] ∧ now.debuggee = some d
  unheard : Unheard d past → endings now.outbox = told ∧ now.debuggee = some d

/-- The client is told of the end, and the session is without debuggee, exactly if the end finds the debuggee in the
session. -/
theorem ended_of_race {events : List DebugEvent} (hEvents : ∀ e ∈ events, isEnd e = false) (announceThreads : Bool)
    {s : Session} (hUnknown : Unknown d s) {now : Race} (hLeads : sides.Leads (race d announceThreads events code s) past now)
    (hDone : ∀ k, now.busy k = none) : Ended d code (endings s.outbox) past now.state := by
  have hPlays : ∀ k, (course d code).Plays (fun | .starter => Installing.subscribing | .pump => Publishing.before)
      (race d announceThreads events code s) k
    | .starter => startDebuggee_installs announceThreads
    | .pump => publishing_publishes hEvents
  have hBegins : Going d code (endings s.outbox) .subscribing .before [] s :=
    ⟨⟨rfl, hUnknown⟩, by simp [Publishing.told], by simp [Caught, Publishing.found], fun _ => by simp [Unheard]⟩
  obtain ⟨φ, hPlays, hGoing⟩ := hLeads.by_rule.plays_on (course_keeps d code _) (fun _ _ _ => trivial) hPlays hBegins
  -- Both sides are done, so that each has come to a last phase.
  have hStarted := hPlays .starter
  have hPublished := hPlays .pump
  rw [Concert.Plays, hDone] at hStarted hPublished
  change φ .starter = Installing.stored at hStarted
  change φ .pump = Publishing.unheard ∨ ∃ found, φ .pump = Publishing.terminated found at hPublished
  rw [hStarted] at hGoing
  rcases hPublished with hPump | ⟨found, hPump⟩
  · rw [hPump] at hGoing
    have hKept : now.state.debuggee = some d := hGoing.has.2
    have hTold : endings now.state.outbox = endings s.outbox := hGoing.told.trans (List.append_nil _)
    have hNot : ¬Caught d past := by simp [hGoing.caught, Publishing.found]
    exact ⟨fun h => absurd h hNot, fun _ h => absurd hGoing.audible h, fun _ => ⟨hTold, hKept⟩⟩
  · rw [hPump] at hGoing
    refine ⟨fun h => ⟨hGoing.told, ?_⟩, fun h _ => ⟨hGoing.told, ?_⟩, fun h => absurd h hGoing.audible⟩
    · have hFound := hGoing.caught.mp h
      simpa [hFound] using hGoing.has.2
    · have hFound : found = false := by simpa [hGoing.caught, Publishing.found] using h
      simpa [hFound, Publishing.found] using hGoing.has.2

section Runs

def raceScript : Script sides Unit Empty where
  take? _ _ _ := none
  answer? _ _ := none
  come? x _ _ := x.elim
  takes := nofun
  answers := nofun
  outside {x} := x.elim

/-- A debuggee that ends at once, with code 0, and a new session. -/
def shortRace : Race := race 7 false [] (some 0) {}

def allOf (k : Side) (n : Nat) : List (Cue Side Unit Empty) := List.replicate n (.goesOn k) ++ [.isDone k]

/-- The debuggee ends when the session has it already. -/
def startsFirst : List (Cue Side Unit Empty) := allOf .starter 4 ++ allOf .pump 9

/-- The debuggee has ended before the session has subscribed. -/
def endsFirst : List (Cue Side Unit Empty) := allOf .pump 1 ++ allOf .starter 4

def catches? (d : DebuggeeId) (e : Pass) : Bool :=
  match e.turn with
  | .goesOn .pump () none => e.before.debuggee = some d && e.after.debuggee = none
  | _ => false

theorem caught_of_any {past : List Pass} (h : past.any (catches? d) = true) : Caught d past := by
  obtain ⟨e, he, hHere⟩ := List.any_eq_true.mp h
  unfold catches? at hHere
  split at hHere
  · next hTurn => exact ⟨e, he, hTurn, by simpa using hHere⟩
  · cases hHere

theorem all_sides {p : Side → Prop} (hStarter : p .starter) (hPump : p .pump) : ∀ k, p k
  | .starter => hStarter
  | .pump => hPump

theorem ended_of_race_caught : ∃ past now, sides.Leads shortRace past now ∧ (∀ k, now.busy k = none) ∧
    Caught 7 past ∧ Ended 7 (some 0) [] past now.state := by
  have hLeads := raceScript.leads_ending startsFirst shortRace
  have hDone : ∀ k, (raceScript.ending startsFirst shortRace).busy k = none := all_sides rfl rfl
  refine ⟨_, _, hLeads, hDone, caught_of_any (by decide +kernel), ?_⟩
  exact ended_of_race (by simp) false (unknown_new 7 none) hLeads hDone

/-- The end is missed: the client is told nothing, and the session keeps a debuggee that has ended. -/
theorem end_missed : ∃ past now, sides.Leads shortRace past now ∧ (∀ k, now.busy k = none) ∧
    endings now.state.outbox = [] ∧ now.state.debuggee = some 7 := by
  have hLeads := raceScript.leads_ending endsFirst shortRace
  exact ⟨_, _, hLeads, all_sides rfl rfl, rfl, rfl⟩

end Runs
end JvmDebug.Session
