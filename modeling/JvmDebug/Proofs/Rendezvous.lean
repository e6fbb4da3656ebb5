import JvmDebug.Proofs.Routine.Watching
import JvmDebug.Rendezvous

/-!
# The configuration rendezvous in any order

Any number of callers arrive, wait to release, or release, as often as they like and in any order. The phase only moves
forward, nobody is let through before its time, and nobody whose time has come is left waiting.
-/

namespace JvmDebug.Rendezvous
set_option autoImplicit false

/-- What a caller may call: the client arrives, a debuggee starts, or the session releases whoever waits. -/
inductive Call where
  | arrive
  | start
  | release
  deriving DecidableEq

def Call.routine {I : Interface} : Call → Routine Phase I Unit
  | arrive => arriveAndWait
  | start => releaseWhenWaiting
  | release => Routine.modify Phase.release

/-- Callers that share a rendezvous with nobody else. -/
def calling (K : Type) (I : Interface) : Setting K Call Phase I Unit fun _ => Unit where
  takes _ call p r p' := r = call.routine ∧ p' = p
  answers _ _ _ _ := True
  keep _ p := p
  outside _ _ _ _ := False

/-! What may be left of a call -/

inductive Stage where
  | announcing
  | awaiting
  | listening
  | freeing
  | returned
  deriving DecidableEq

namespace Stage

variable {I : Interface}

def rest : Stage → Routine Phase I Unit
  | announcing => arriveAndWait
  | awaiting => Routine.waitFor (· = .released)
  | listening => releaseWhenWaiting
  | freeing => Routine.modify Phase.release
  | returned => .done ()

/-- A caller may be at a stage of its call in a phase. -/
def Fits : Call → Stage → Phase → Prop
  | .arrive, announcing, _ | .arrive, awaiting, _ => True
  | .arrive, returned, p => p = .released
  | .start, listening, _ => True
  | .start, freeing, p => p ≠ .idle
  | .start, returned, p => p = .released
  | .release, freeing, _ | .release, returned, _ => True
  | _, _, _ => False

/-- One step of a call, and the phase before and after it. -/
def Goes : Stage → Phase → Stage → Phase → Prop
  | announcing, p, stage, p' => stage = awaiting ∧ p' = p.arrive
  | awaiting, p, stage, p' => stage = returned ∧ p = .released ∧ p' = p
  | listening, p, stage, p' => stage = freeing ∧ p ≠ .idle ∧ p' = p
  | freeing, _, stage, p' => stage = returned ∧ p' = .released
  | returned, _, _, _ => False

def left : Stage → Nat
  | announcing | listening => 2
  | awaiting | freeing => 1
  | returned => 0

def first : Call → Stage
  | .arrive => announcing
  | .start => listening
  | .release => freeing

theorem rest_first (call : Call) : (first call).rest = (call.routine : Routine Phase I Unit) := by cases call <;> rfl

theorem fits_first (call : Call) (p : Phase) : Fits call (first call) p := by cases call <;> trivial

variable {call : Call} {stage stage' : Stage} {p p' : Phase}

theorem goes_of_step {answers : Answering I Unit} {keep : Log.Record → Phase → Phase} {r' : Routine Phase I Unit} {m m' : Unit}
    {asked : Option (Asked I)} (h : stage.rest.Step answers keep p m asked r' p' m') :
    ∃ stage', r' = stage'.rest ∧ stage.Goes p stage' p' := by
  cases stage with
  | announcing =>
    cases h
    exact ⟨awaiting, rfl, rfl, rfl⟩
  | awaiting =>
    cases h with
    | ready _ _ _ _ hReady => exact ⟨returned, rfl, rfl, of_decide_eq_true hReady, rfl⟩
  | listening =>
    cases h with
    | ready _ _ _ _ hReady => exact ⟨freeing, rfl, rfl, of_decide_eq_true hReady, rfl⟩
  | freeing =>
    cases h
    exact ⟨returned, rfl, rfl, rfl⟩
  | returned => cases h

theorem Goes.rank_le (h : stage.Goes p stage' p') : p.rank ≤ p'.rank := by
  cases stage with
  | announcing => exact h.2 ▸ p.rank_arrive
  | awaiting => exact h.2.2 ▸ Nat.le_refl _
  | listening => exact h.2.2 ▸ Nat.le_refl _
  | freeing => exact h.2 ▸ p.rank_release
  | returned => exact h.elim

theorem Goes.fits (h : stage.Goes p stage' p') (hFits : Fits call stage p) : Fits call stage' p' := by
  cases stage <;> cases call <;> simp_all [Goes, Fits]

/-- What a call counts on, no later phase takes away. -/
theorem Fits.later (h : Fits call stage p) (hLe : p.rank ≤ p'.rank) : Fits call stage p' := by
  cases call <;> cases stage <;> cases p <;> cases p' <;> simp_all [Fits, Phase.rank]

end Stage

variable {K : Type} [DecidableEq K] {I : Interface}

/-! Along a run -/

/-- Where each call is, and that only a call that is no start can have been the first to move the phase. -/
structure Holds (past : List (Moment K Call Phase I)) (s : Scene K Call Phase I Unit fun _ => Unit) : Prop where
  staged : ∀ {k call r}, s.busy k = some (call, r) → ∃ stage : Stage, r = stage.rest ∧ stage.Fits call s.state
  moved : s.state ≠ .idle → ∃ e ∈ past, ∃ k call asked, e.turn = .goesOn k call asked ∧ call ≠ .start

/-- What is seen of each moment. -/
structure Orderly (past : List (Moment K Call Phase I)) (e : Moment K Call Phase I) : Prop where
  forward : e.before.rank ≤ e.after.rank
  arrived : ∀ k, e.turn = .isDone k .arrive → e.before = .released
  started : ∀ k, e.turn = .isDone k .start → ∃ x ∈ past, ∃ j call asked, x.turn = .goesOn j call asked ∧ call ≠ .start

variable {past : List (Moment K Call Phase I)} {s s' : Scene K Call Phase I Unit fun _ => Unit} {e : Moment K Call Phase I}
  {world : Unit}

theorem Holds.orderly (hHolds : Holds past s) (hHappens : (calling K I).Happens s e s') : Orderly past e := by
  cases hHappens with
  | takesUp _ hTakes =>
    obtain ⟨-, rfl⟩ := hTakes
    exact ⟨Nat.le_refl _, by simp, by simp⟩
  | goesOn hBusy hStep =>
    obtain ⟨stage, rfl, -⟩ := hHolds.staged hBusy
    obtain ⟨stage', -, hGoes⟩ := Stage.goes_of_step hStep
    exact ⟨hGoes.rank_le, by simp, by simp⟩
  | isDone hBusy =>
    obtain ⟨stage, hRest, hFits⟩ := hHolds.staged hBusy
    cases stage with
    | returned =>
      refine ⟨Nat.le_refl _, ?_, ?_⟩
      · rintro _ ⟨⟩
        exact hFits
      · rintro _ ⟨⟩
        exact hHolds.moved (by simp [show s.state = .released from hFits])
    | _ => cases hRest
  | outside hOutside => exact hOutside.elim

theorem Holds.step (hHolds : Holds past s) (hHappens : (calling K I).Happens s e s') : Holds (past ++ [e]) s' := by
  have hLe : s.state.rank ≤ s'.state.rank := by
    rw [← hHappens.before, ← hHappens.after]
    exact (hHolds.orderly hHappens).forward
  constructor
  case staged =>
    intro k call r hBusy
    rcases hHappens.busy_cases hBusy with ⟨-, rfl, -⟩ | ⟨asked, r', -, hBefore, hStep⟩ | ⟨-, hBefore⟩
    · exact ⟨Stage.first call, (Stage.rest_first call).symm, Stage.fits_first call _⟩
    · obtain ⟨stage, rfl, hFits⟩ := hHolds.staged hBefore
      obtain ⟨stage', rfl, hGoes⟩ := Stage.goes_of_step hStep
      exact ⟨stage', rfl, hGoes.fits hFits⟩
    · -- A worker whose turn it is not finds the phase where it was, or further on.
      obtain ⟨stage, hRest, hFits⟩ := hHolds.staged hBefore
      exact ⟨stage, hRest, hFits.later hLe⟩
  case moved =>
    have hMoved : s.state ≠ .idle → ∃ x ∈ past ++ [e], ∃ k call asked, x.turn = .goesOn k call asked ∧ call ≠ .start := by
      intro hState
      obtain ⟨x, hx, hRest⟩ := hHolds.moved hState
      exact ⟨x, by simp [hx], hRest⟩
    cases hHappens with
    | takesUp _ hTakes => exact hTakes.2 ▸ hMoved
    | @goesOn k job r r' asked state world hBusy hStep =>
      intro _
      by_cases hStart : job = .start
      · -- A start that goes on does not move the phase out of idle: it has waited for that, or waits for it.
        subst hStart
        obtain ⟨stage, rfl, hFits⟩ := hHolds.staged hBusy
        obtain ⟨stage', -, hGoes⟩ := Stage.goes_of_step hStep
        refine hMoved fun hIdle => ?_
        cases stage with
        | announcing => exact hFits
        | awaiting => exact hFits
        | listening => exact hGoes.2.1 hIdle
        | freeing => exact hFits hIdle
        | returned => exact hGoes
      · exact ⟨_, List.mem_append_right _ (List.mem_singleton.mpr rfl), k, job, asked, rfl, hStart⟩
    | isDone _ => exact hMoved
    | outside hOutside => exact hOutside.elim

theorem holds_of_leads (hLeads : (calling K I).Leads (.idle .idle world) past s) : Holds past s := by
  induction hLeads with
  | nil => exact ⟨by simp [Scene.idle], fun h => absurd rfl h⟩
  | snoc _ hHappens ih => exact ih.step hHappens

/-! Nobody is left waiting -/

variable {w : Observed K Call Phase I Unit fun _ => Unit} {k : K} {call : Call}

theorem ready_later {ready : Phase → Bool} {change : Phase → Phase} {limit : Option Nat} {next : Bool → Routine Phase I Unit}
    {stage : Stage} (hRest : Routine.wait ready change limit next = stage.rest) {p p' : Phase} (hReady : ready p = true)
    (hLe : p.rank ≤ p'.rank) : ready p' = true := by
  cases stage with
  | awaiting =>
    cases hRest
    cases p <;> cases p' <;> simp_all [Phase.rank]
  | listening =>
    cases hRest
    cases p <;> cases p' <;> simp_all [Phase.rank]
  | _ => cases hRest

theorem alone_waits (hSound : w.Sound) (hHolds : Holds past w.scene) {ready : Phase → Bool} {change : Phase → Phase}
    {limit : Option Nat} {next : Bool → Routine Phase I Unit}
    (hBusy : w.scene.busy k = some (call, .wait ready change limit next)) (hReady : ready w.scene.state = true) :
    ∃ w', (calling K I).Alone k w w' ∧ w'.scene = w.scene.put k (some (call, next true)) := by
  obtain ⟨stage, hRest, -⟩ := hHolds.staged hBusy
  cases stage with
  | awaiting =>
    cases hRest
    exact ⟨_, Setting.alone_passes hSound hBusy hReady, rfl⟩
  | listening =>
    cases hRest
    exact ⟨_, Setting.alone_passes hSound hBusy hReady, rfl⟩
  | _ => cases hRest

/-- Once it is released, a caller goes on by itself until its call is over. -/
theorem alone_advances (hSound : w.Sound) (hReleased : w.scene.state = .released) {stage : Stage}
    (hBusy : w.scene.busy k = some (call, stage.rest)) (hLeft : stage ≠ .returned) :
    ∃ w' stage', (calling K I).Alone k w w' ∧ w'.scene.busy k = some (call, Stage.rest stage') ∧
      w'.scene.state = .released ∧ stage'.left < stage.left := by
  have hAwake : ∀ {change next}, stage.rest = Routine.atomic (I := I) change next →
      ∀ ready, w.Waits k ready → w.watch k = .looking := by
    rintro change next hRest ready ⟨_, _, _, hWaits⟩
    rw [hBusy, hRest] at hWaits
    cases hWaits
  cases stage with
  | announcing =>
    refine ⟨_, .awaiting, Setting.alone_goesOn hBusy (.atomic ..) (hAwake rfl), Scene.busy_put .., ?_, by decide⟩
    exact congrArg Phase.arrive hReleased
  | awaiting =>
    refine ⟨_, .returned, Setting.alone_passes hSound hBusy (decide_eq_true hReleased), Scene.busy_put .., hReleased, by decide⟩
  | listening =>
    refine ⟨_, .freeing, Setting.alone_passes hSound hBusy (by simp [hReleased]), Scene.busy_put .., hReleased, by decide⟩
  | freeing => exact ⟨_, .returned, Setting.alone_goesOn hBusy (.atomic ..) (hAwake rfl), Scene.busy_put .., rfl, by decide⟩
  | returned => exact absurd rfl hLeft

theorem alone_ends (hSound : w.Sound) (hReleased : w.scene.state = .released) {stage : Stage}
    (hBusy : w.scene.busy k = some (call, stage.rest)) : ∃ w', (calling K I).Alone k w w' ∧ w'.scene.busy k = none := by
  induction hn : stage.left using Nat.strongRecOn generalizing stage w with
  | ind n ih =>
    by_cases hOver : stage = .returned
    · subst hOver
      exact ⟨_, Setting.alone_isDone hBusy, Scene.busy_put ..⟩
    · obtain ⟨w₁, stage₁, hAlone, hBusy₁, hReleased₁, hLess⟩ := alone_advances hSound hReleased hBusy hOver
      obtain ⟨w₂, hAlone', hEnd⟩ := ih _ (hn ▸ hLess) (hAlone.sound hSound) hReleased₁ hBusy₁ rfl
      exact ⟨w₂, hAlone.trans hAlone', hEnd⟩

/-- A run in which the phase only moves forward, callers come back only when they may, and nobody is left waiting. -/
structure Safe (stirs : List (Stir K Call Phase I)) (w : Observed K Call Phase I Unit fun _ => Unit) : Prop where
  /-- The phase only moves forward. -/
  forward : ∀ e ∈ moments stirs, e.before.rank ≤ e.after.rank
  /-- Whoever arrives comes back only when it is released. -/
  arrived : ∀ e ∈ moments stirs, ∀ k, e.turn = .isDone k .arrive → e.before = .released
  /-- A start comes back only after somebody has begun to arrive or to release. -/
  started : ∀ past e since, moments stirs = past ++ e :: since → ∀ k, e.turn = .isDone k .start →
    ∃ x ∈ past, ∃ j call asked, x.turn = .goesOn j call asked ∧ call ≠ .start
  /-- Whoever waits for the phase as it is can pass its wait by itself, wherever it is with it. -/
  heard : ∀ k call ready change limit next, w.scene.busy k = some (call, .wait ready change limit next) →
    ready w.scene.state = true → ∃ w', (calling K I).Alone k w w' ∧ w'.scene = w.scene.put k (some (call, next true))
  /-- What somebody waits for, nobody takes away again. -/
  stays : ∀ k call ready change limit next, w.scene.busy k = some (call, .wait ready change limit next) →
    ready w.scene.state = true → ∀ p : Phase, w.scene.state.rank ≤ p.rank → ready p = true
  /-- Once it is released, every call comes to its end by itself. -/
  unblocked : w.scene.state = .released → ∀ k, ∃ w', (calling K I).Alone k w w' ∧ w'.scene.busy k = none

/-- The configuration rendezvous is safe in any order. -/
theorem safe_in_any_order {stirs : List (Stir K Call Phase I)}
    (hEvolves : (calling K I).Evolves (.idle .idle ()) stirs w) : Safe stirs w := by
  have hLeads := hEvolves.leads
  have hSound : w.Sound := hEvolves.sound (by simp [Observed.Sound, Observed.idle])
  have hHolds := holds_of_leads hLeads
  have hOrderly : ∀ past e since, moments stirs = past ++ e :: since → Orderly past e := by
    intro past e since hStirs
    obtain ⟨m, m', hPast, hHappens, -⟩ := Setting.Leads.around (hStirs ▸ hLeads)
    exact (holds_of_leads hPast).orderly hHappens
  constructor
  case forward =>
    intro e he
    obtain ⟨past, since, hStirs⟩ := List.append_of_mem he
    exact (hOrderly past e since hStirs).forward
  case arrived =>
    intro e he
    obtain ⟨past, since, hStirs⟩ := List.append_of_mem he
    exact (hOrderly past e since hStirs).arrived
  case started =>
    intro past e since hStirs
    exact (hOrderly past e since hStirs).started
  case heard =>
    intro k call ready change limit next hBusy hReady
    exact alone_waits hSound hHolds hBusy hReady
  case stays =>
    intro k call ready change limit next hBusy hReady p hLe
    obtain ⟨stage, hRest, -⟩ := hHolds.staged hBusy
    exact ready_later hRest hReady hLe
  case unblocked =>
    intro hReleased k
    cases hBusy : w.scene.busy k with
    | none => exact ⟨w, .refl w, hBusy⟩
    | some x =>
      obtain ⟨call, r⟩ := x
      obtain ⟨stage, rfl, -⟩ := hHolds.staged hBusy
      exact alone_ends hSound hReleased hBusy

def silent : Interface := ⟨Empty, Empty.elim⟩

/-- A start sleeps and a client has announced itself but not subscribed, when somebody releases both. -/
theorem safe_released_between : ∃ stirs w, (calling (Fin 3) silent).Evolves (.idle .idle ()) stirs w ∧
    (∃ seen < w.version, w.watch 0 = .asleep seen) ∧ w.scene.busy 0 = some (.start, Stage.listening.rest) ∧
    w.watch 1 = .away ∧ w.scene.busy 1 = some (.arrive, Stage.awaiting.rest) ∧ w.scene.state = .released ∧
    Safe stirs w := by
  have hTakes : ∀ k call p, (calling (Fin 3) silent).takes k call p call.routine p := fun _ _ _ => ⟨rfl, rfl⟩
  have hBegun : (calling (Fin 3) silent).Evolves (.idle .idle ()) [] (.idle .idle ()) := .nil
  obtain ⟨_, hStarts⟩ := hBegun.alone (Setting.alone_takesUp (k := 0) rfl (hTakes 0 .start .idle))
  have hSubscribes := hStarts.snoc (.subscribes (k := 0) ⟨_, _, _, rfl⟩ rfl)
  have hSleeps := hSubscribes.snoc (.fallsAsleep (k := 0) ⟨_, _, _, rfl⟩ rfl rfl)
  obtain ⟨_, hArrives⟩ := hSleeps.alone (Setting.alone_takesUp (k := 1) rfl (hTakes 1 .arrive .idle))
  obtain ⟨_, hAnnounces⟩ := hArrives.alone (Setting.alone_goesOn (k := 1) rfl (.atomic ..) (by rintro _ ⟨_, _, _, ⟨⟩⟩))
  obtain ⟨_, hCalls⟩ := hAnnounces.alone (Setting.alone_takesUp (k := 2) rfl (hTakes 2 .release .waiting))
  obtain ⟨_, hReleases⟩ := hCalls.alone (Setting.alone_goesOn (k := 2) rfl (.atomic ..) (by rintro _ ⟨_, _, _, ⟨⟩⟩))
  exact ⟨_, _, hReleases, ⟨_, by decide, rfl⟩, rfl, rfl, rfl, rfl, safe_in_any_order hReleases⟩

end JvmDebug.Rendezvous
