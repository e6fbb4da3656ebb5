import JvmDebug.Proofs.Routine.Scene

/-!
# What a wait is made of

A worker that waits is not told when the state is as it needs it: it is told that the state has changed. It subscribes to
the changes and looks at the state. If the state is not ready, it sleeps until there is a change that it has not seen, and
looks again. Between any two of these steps others may come in. Whatever happens this way is a run of the scene in which
a wait is one step, and no worker sleeps through the change that it waits for.
-/

namespace JvmDebug
set_option autoImplicit false

/-- Where a worker is with the wait that it is at. -/
inductive Watch where
  /-- It has not subscribed. -/
  | away
  | looking
  /-- It has found the state not ready at this version, and does not look at it again before the next one. -/
  | asleep (seen : Nat)
  deriving DecidableEq

/-- A scene in which changes of the state are announced to the workers that wait. -/
structure Observed (K L S : Type) (I : Interface) (M : Type) (ρ : K → Type) where
  scene : Scene K L S I M ρ
  /-- How many changes were announced. -/
  version : Nat
  watch : K → Watch

/-- A moment of the scene, or a step of a worker that waits which is not seen in the scene. -/
inductive Stir (K L S : Type) (I : Interface) where
  | acts (e : Moment K L S I)
  | watches (k : K)

variable {K L S M : Type} {I : Interface} {ρ : K → Type}

namespace Stir

def worker? : Stir K L S I → Option K
  | acts e => e.turn.worker?
  | watches k => some k

def moment? : Stir K L S I → Option (Moment K L S I)
  | acts e => some e
  | watches _ => none

end Stir

/-- What of some stirs is seen in the scene. -/
def moments (stirs : List (Stir K L S I)) : List (Moment K L S I) := stirs.filterMap Stir.moment?

namespace Observed

/-- The worker is at a wait without a limit, for such a state. -/
def Waits (w : Observed K L S I M ρ) (k : K) (ready : S → Bool) : Prop :=
  ∃ job change next, w.scene.busy k = some (job, .wait ready change none next)

def idle (state : S) (world : M) : Observed K L S I M ρ := ⟨.idle state world, 0, fun _ => .away⟩

variable [DecidableEq K]

def turn (w : Observed K L S I M ρ) (k : K) (watch : Watch) : Observed K L S I M ρ :=
  { w with watch := Function.update w.watch k watch }

/-- A worker that has gone on is away from every wait. -/
def leave (w : Observed K L S I M ρ) : Option K → K → Watch
  | none => w.watch
  | some k => Function.update w.watch k .away

theorem leave_of_ne {w : Observed K L S I M ρ} {k : K} {who : Option K} (h : who ≠ some k) : w.leave who k = w.watch k := by
  cases who with
  | none => rfl
  | some j => exact Function.update_of_ne (fun hEq => h (congrArg some hEq.symm)) ..

/-- Whoever sleeps has seen a state that was not as it waits for. -/
def Sound (w : Observed K L S I M ρ) : Prop :=
  ∀ k seen, w.watch k = .asleep seen →
    seen ≤ w.version ∧ ∃ ready, w.Waits k ready ∧ (seen = w.version → ready w.scene.state = false)

end Observed

namespace Setting

variable [DecidableEq K]

inductive Stirs (t : Setting K L S I M ρ) : Observed K L S I M ρ → Stir K L S I → Observed K L S I M ρ → Prop where
  /-- A change of the state is announced at once; other steps may be announced as well. A wait without a limit is
  passed only by looking. -/
  | acts {w : Observed K L S I M ρ} {e : Moment K L S I} {scene : Scene K L S I M ρ} {version : Nat} :
      t.Happens w.scene e scene → w.version ≤ version → (scene.state ≠ w.scene.state → w.version < version) →
      (∀ k ready, e.turn.worker? = some k → w.Waits k ready → w.watch k = .looking) →
      Stirs t w (.acts e) ⟨scene, version, w.leave e.turn.worker?⟩
  | subscribes {w : Observed K L S I M ρ} {k : K} {ready : S → Bool} :
      w.Waits k ready → w.watch k = .away → Stirs t w (.watches k) (w.turn k .looking)
  | fallsAsleep {w : Observed K L S I M ρ} {k : K} {ready : S → Bool} :
      w.Waits k ready → w.watch k = .looking → ready w.scene.state = false →
      Stirs t w (.watches k) (w.turn k (.asleep w.version))
  | wakesUp {w : Observed K L S I M ρ} {k : K} {seen : Nat} :
      w.watch k = .asleep seen → seen ≠ w.version → Stirs t w (.watches k) (w.turn k .looking)

/-- What may come of a scene in which changes are announced, and by which stirs. -/
inductive Evolves (t : Setting K L S I M ρ) (start : Observed K L S I M ρ) :
    List (Stir K L S I) → Observed K L S I M ρ → Prop where
  | nil : Evolves t start [] start
  | snoc {stirs : List (Stir K L S I)} {x : Stir K L S I} {w w' : Observed K L S I M ρ} :
      Evolves t start stirs w → Stirs t w x w' → Evolves t start (stirs ++ [x]) w'

variable {t : Setting K L S I M ρ} {start w w' : Observed K L S I M ρ} {x : Stir K L S I} {stirs more : List (Stir K L S I)}

theorem Evolves.trans (hFirst : t.Evolves start stirs w) (hSecond : t.Evolves w more w') :
    t.Evolves start (stirs ++ more) w' := by
  induction hSecond with
  | nil => rwa [List.append_nil]
  | snoc _ hStirs ih =>
    rw [← List.append_assoc]
    exact ih.snoc hStirs

/-- Workers that wait in steps do nothing that workers whose waits are one step cannot do. -/
theorem Evolves.leads (h : t.Evolves start stirs w) : t.Leads start.scene (moments stirs) w.scene := by
  induction h with
  | nil => exact .nil
  | snoc _ hStirs ih =>
    rw [moments, List.filterMap_append]
    cases hStirs with
    | acts hHappens => exact ih.snoc hHappens
    | subscribes => exact (List.append_nil (moments _)).symm ▸ ih
    | fallsAsleep => exact (List.append_nil (moments _)).symm ▸ ih
    | wakesUp => exact (List.append_nil (moments _)).symm ▸ ih

/-! Nobody sleeps through a change -/

theorem Stirs.sound (hStirs : t.Stirs w x w') (hSound : w.Sound) : w'.Sound := by
  intro k seen hAsleep
  -- Who turns from one stage of a wait to the next is where it was, and so are all others.
  have hTurns : ∀ {j watch}, (∀ seen, watch = .asleep seen → seen = w.version ∧ ∃ ready, w.Waits j ready ∧
      ready w.scene.state = false) → (w.turn j watch).watch k = .asleep seen →
      seen ≤ w.version ∧ ∃ ready, w.Waits k ready ∧ (seen = w.version → ready w.scene.state = false) := by
    intro j watch hWatch hAsleep
    by_cases hk : k = j
    · subst hk
      obtain ⟨rfl, ready, hWaits, hNot⟩ := hWatch seen (by simpa [Observed.turn] using hAsleep)
      exact ⟨Nat.le_refl _, ready, hWaits, fun _ => hNot⟩
    · exact hSound k seen (by simpa [Observed.turn, hk] using hAsleep)
  cases hStirs with
  | @acts e scene version hHappens hLe hLt _ =>
    by_cases hWho : e.turn.worker? = some k
    · simp [hWho, Observed.leave] at hAsleep
    · simp only [Observed.leave_of_ne hWho] at hAsleep
      obtain ⟨hSeen, ready, ⟨job, change, next, hBusy⟩, hNot⟩ := hSound k seen hAsleep
      refine ⟨Nat.le_trans hSeen hLe, ready, ⟨job, change, next, (hHappens.busy_of_other hWho).trans hBusy⟩, ?_⟩
      intro (hNew : seen = version)
      have hSame : scene.state = w.scene.state := by
        by_contra hChanged
        exact absurd (hLt hChanged) (by omega)
      rw [hSame]
      exact hNot (by omega)
  | subscribes _ _ => exact hTurns (by simp) hAsleep
  | fallsAsleep hWaits _ hNot =>
    refine hTurns ?_ hAsleep
    rintro _ ⟨⟩
    exact ⟨rfl, _, hWaits, hNot⟩
  | wakesUp _ _ => exact hTurns (by simp) hAsleep

theorem Evolves.sound (h : t.Evolves start stirs w) (hSound : start.Sound) : w.Sound := by
  induction h with
  | nil => exact hSound
  | snoc _ hStirs ih => exact hStirs.sound ih

/-- One worker comes from one scene to another by itself. -/
def Alone (t : Setting K L S I M ρ) (k : K) (w w' : Observed K L S I M ρ) : Prop :=
  ∃ stirs, (∀ x ∈ stirs, x.worker? = some k) ∧ t.Evolves w stirs w'

variable {k : K} {job : L} {r r' : Routine S I (ρ k)} {ready : S → Bool} {change : S → S} {next : Bool → Routine S I (ρ k)}
  {asked : Option (Asked I)} {state : S} {world : M}

theorem Alone.refl (w : Observed K L S I M ρ) : t.Alone k w w := ⟨[], by simp, .nil⟩

theorem Stirs.alone (hStirs : t.Stirs w x w') (hWho : x.worker? = some k) : t.Alone k w w' :=
  ⟨[x], by simpa using hWho, Evolves.nil.snoc hStirs⟩

theorem Alone.trans {w'' : Observed K L S I M ρ} (hFirst : t.Alone k w w') (hSecond : t.Alone k w' w'') :
    t.Alone k w w'' := by
  obtain ⟨stirs, hOwn, hFirst⟩ := hFirst
  obtain ⟨more, hOwn', hSecond⟩ := hSecond
  refine ⟨stirs ++ more, ?_, hFirst.trans hSecond⟩
  intro x hx
  rcases List.mem_append.mp hx with hx | hx
  · exact hOwn x hx
  · exact hOwn' x hx

theorem Alone.sound (h : t.Alone k w w') (hSound : w.Sound) : w'.Sound := by
  obtain ⟨_, -, hEvolves⟩ := h
  exact hEvolves.sound hSound

theorem Evolves.alone (h : t.Evolves start stirs w) (hAlone : t.Alone k w w') : ∃ more, t.Evolves start (stirs ++ more) w' := by
  obtain ⟨more, -, hMore⟩ := hAlone
  exact ⟨more, h.trans hMore⟩

theorem alone_takesUp (hFree : w.scene.busy k = none) (hTakes : t.takes k job w.scene.state r state) :
    t.Alone k w ⟨{ w.scene.put k (some (job, r)) with state }, w.version + 1, w.leave (some k)⟩ := by
  refine (Stirs.acts (.takesUp hFree hTakes) (Nat.le_succ _) (fun _ => Nat.lt_succ_self _) ?_).alone rfl
  rintro j ready' ⟨⟩ ⟨_, _, _, hWaits⟩
  rw [hFree] at hWaits
  cases hWaits

theorem alone_goesOn (hBusy : w.scene.busy k = some (job, r))
    (hStep : r.Step t.answers t.keep w.scene.state w.scene.world asked r' state world)
    (hLooks : ∀ ready, w.Waits k ready → w.watch k = .looking) :
    t.Alone k w ⟨{ w.scene.put k (some (job, r')) with state, world }, w.version + 1, w.leave (some k)⟩ := by
  refine (Stirs.acts (.goesOn hBusy hStep) (Nat.le_succ _) (fun _ => Nat.lt_succ_self _) ?_).alone rfl
  rintro j ready' ⟨⟩ hWaits
  exact hLooks ready' hWaits

theorem alone_isDone {a : ρ k} (hBusy : w.scene.busy k = some (job, .done a)) :
    t.Alone k w ⟨w.scene.put k none, w.version, w.leave (some k)⟩ := by
  refine (Stirs.acts (.isDone hBusy) (Nat.le_refl _) (fun h => absurd rfl h) ?_).alone rfl
  rintro j ready' ⟨⟩ ⟨_, _, _, hWaits⟩
  rw [hBusy] at hWaits
  cases hWaits

/-- A worker that waits for the state as it is comes to look at it by itself. -/
theorem alone_looks (hSound : w.Sound) (hBusy : w.scene.busy k = some (job, .wait ready change none next))
    (hReady : ready w.scene.state = true) : t.Alone k w (w.turn k .looking) := by
  have hWaits : w.Waits k ready := ⟨job, change, next, hBusy⟩
  cases hWatch : w.watch k with
  | away => exact (Stirs.subscribes hWaits hWatch).alone rfl
  | looking =>
    have hSame : w.turn k .looking = w := by simp [Observed.turn, ← hWatch]
    rw [hSame]
    exact .refl w
  | asleep seen =>
    refine (Stirs.wakesUp hWatch ?_).alone rfl
    rintro rfl
    obtain ⟨-, ready', ⟨job', change', next', hBusy'⟩, hNot⟩ := hSound k _ hWatch
    rw [hBusy, Option.some.injEq, Prod.mk.injEq] at hBusy'
    rw [← (Routine.wait.inj hBusy'.2).1, hReady] at hNot
    cases hNot rfl

/-- No wake-up is missed: whoever waits for the state as it is can pass its wait by itself. -/
theorem alone_passes (hSound : w.Sound) (hBusy : w.scene.busy k = some (job, .wait ready change none next))
    (hReady : ready w.scene.state = true) :
    t.Alone k w ⟨{ w.scene.put k (some (job, next true)) with state := change w.scene.state }, w.version + 1,
      w.leave (some k)⟩ := by
  have hLeave : w.leave (some k) = (w.turn k .looking).leave (some k) := by simp [Observed.leave, Observed.turn]
  rw [hLeave]
  exact (alone_looks hSound hBusy hReady).trans (alone_goesOn hBusy (.ready change none next _ hReady)
    fun _ _ => Function.update_self ..)

end Setting
end JvmDebug
