import JvmDebug.Proofs.Routine.Phases

/-!
# Roles

What a worker passes through may depend on its job. Here a phase is always a phase of the job that the worker is at, so
that what holds of the phases can speak of the jobs as well.
-/

namespace JvmDebug
set_option autoImplicit false

variable {K L S M G : Type} {I : Interface} {ρ : K → Type}

/-- What each worker passes through in each of its jobs. -/
structure Roles (u : Setting K L S I M ρ) (G : Type) where
  phases : K → L → Phases G S I
  /-- In which phase a worker comes to the end of a job. -/
  post : (k : K) → L → ρ k → G → Prop

/-- Which workers are at a job, and in which phase of it. -/
abbrev Casting (K L G : Type) := K → Option (L × G)

variable {u : Setting K L S I M ρ} {c : Roles u G} {φ : Casting K L G} {past : List (Moment K L S I)}
  {start s s' : Scene K L S I M ρ} {e : Moment K L S I}

/-- Each worker is in a phase of its job, and at what that phase allows. -/
def Roles.Plays (c : Roles u G) (φ : Casting K L G) (s : Scene K L S I M ρ) (k : K) : Prop :=
  Option.Rel (fun x y => y.1 = x.1 ∧ x.2.Passes (c.phases k x.1) (c.post k x.1) y.2) (s.busy k) (φ k)

theorem Roles.Plays.free {k : K} (h : c.Plays φ s k) (hFree : s.busy k = none) : φ k = none := by
  rw [Plays, hFree] at h
  generalize φ k = x at h
  cases h
  rfl

theorem Roles.Plays.busy {k : K} {job : L} {r : Routine S I (ρ k)} (h : c.Plays φ s k) (hBusy : s.busy k = some (job, r)) :
    ∃ g, φ k = some (job, g) ∧ r.Passes (c.phases k job) (c.post k job) g := by
  rw [Plays, hBusy] at h
  generalize hx : φ k = x at h
  cases h with
  | some hSame =>
    obtain ⟨rfl, hPasses⟩ := hSame
    exact ⟨_, rfl, hPasses⟩

/-- A worker that has a phase is at the job that it is a phase of. -/
theorem Roles.Plays.at_job {k : K} {job : L} {g : G} (h : c.Plays φ s k) (hPhase : φ k = some (job, g)) :
    ∃ r, s.busy k = some (job, r) ∧ r.Passes (c.phases k job) (c.post k job) g := by
  rw [Plays, hPhase] at h
  generalize hx : s.busy k = x at h
  cases h with
  | some hSame =>
    obtain ⟨rfl, hPasses⟩ := hSame
    exact ⟨_, rfl, hPasses⟩

variable [DecidableEq K]

/-- What is true of the phases, the past and the state, whatever the workers do of what they are allowed to. -/
structure Roles.Keeps (c : Roles u G) (allowed : Casting K L G → Moment K L S I → Prop)
    (holds : Casting K L G → List (Moment K L S I) → S → Prop) : Prop where
  keep : ∀ k job, u.keep = (c.phases k job).keep
  answered : ∀ k job m x a m', u.answers m x a m' → (c.phases k job).answered x a
  fits : ∀ {φ past s k job g}, holds φ past s → φ k = some (job, g) → (c.phases k job).fits g s
  takes : ∀ {φ past s k job r s'}, holds φ past s → φ k = none → u.takes k job s r s' →
    allowed φ ⟨.takesUp k job, s, s'⟩ → ∃ g, r.Passes (c.phases k job) (c.post k job) g ∧
      holds (Function.update φ k (some (job, g))) (past ++ [⟨.takesUp k job, s, s'⟩]) s'
  goes : ∀ {φ past s k job g asked s' g'}, holds φ past s → φ k = some (job, g) →
    (c.phases k job).moves g asked s s' g' → allowed φ ⟨.goesOn k job asked, s, s'⟩ →
    holds (Function.update φ k (some (job, g'))) (past ++ [⟨.goesOn k job asked, s, s'⟩]) s'
  done : ∀ {φ past s k job g a}, holds φ past s → φ k = some (job, g) → c.post k job a g →
    holds (Function.update φ k none) (past ++ [⟨.isDone k job, s, s⟩]) s
  outside : ∀ {φ past s m s' m'}, holds φ past s → u.outside s m s' m' → allowed φ ⟨.outside, s, s'⟩ →
    holds φ (past ++ [⟨.outside, s, s'⟩]) s'

variable {allowed : Casting K L G → Moment K L S I → Prop} {holds : Casting K L G → List (Moment K L S I) → S → Prop}

theorem Roles.Plays.of_other (h : ∀ k, c.Plays φ s k) {j : K} {x : Option (L × G)}
    (hOther : ∀ k, k ≠ j → s'.busy k = s.busy k) (hHere : c.Plays (Function.update φ j x) s' j) (k : K) :
    c.Plays (Function.update φ j x) s' k := by
  by_cases hk : k = j
  · exact hk ▸ hHere
  · have hThere := h k
    rw [Plays] at hThere ⊢
    rwa [hOther k hk, Function.update_of_ne hk]

section World

variable {holdsIn : Casting K L G → List (Moment K L S I) → S → M → Prop}

/-- The same of what is true of the world as well. -/
structure Roles.KeepsIn (c : Roles u G) (allowed : Casting K L G → Moment K L S I → Prop)
    (holds : Casting K L G → List (Moment K L S I) → S → M → Prop) : Prop where
  keep : ∀ k job, u.keep = (c.phases k job).keep
  answered : ∀ k job m x a m', u.answers m x a m' → (c.phases k job).answered x a
  fits : ∀ {φ past s m k job g}, holds φ past s m → φ k = some (job, g) → (c.phases k job).fits g s
  takes : ∀ {φ past s m k job r s'}, holds φ past s m → φ k = none → u.takes k job s r s' →
    allowed φ ⟨.takesUp k job, s, s'⟩ → ∃ g, r.Passes (c.phases k job) (c.post k job) g ∧
      holds (Function.update φ k (some (job, g))) (past ++ [⟨.takesUp k job, s, s'⟩]) s' m
  goes : ∀ {φ past s m k job g asked s' m' g'}, holds φ past s m → φ k = some (job, g) →
    (c.phases k job).moves g asked s s' g' → u.Replied asked m m' → allowed φ ⟨.goesOn k job asked, s, s'⟩ →
    holds (Function.update φ k (some (job, g'))) (past ++ [⟨.goesOn k job asked, s, s'⟩]) s' m'
  done : ∀ {φ past s m k job g a}, holds φ past s m → φ k = some (job, g) → c.post k job a g →
    holds (Function.update φ k none) (past ++ [⟨.isDone k job, s, s⟩]) s m
  outside : ∀ {φ past s m s' m'}, holds φ past s m → u.outside s m s' m' → allowed φ ⟨.outside, s, s'⟩ →
    holds φ (past ++ [⟨.outside, s, s'⟩]) s' m'

theorem Roles.Keeps.keepsIn (h : c.Keeps allowed holds) : c.KeepsIn allowed fun φ past s _ => holds φ past s where
  keep := h.keep
  answered := h.answered
  fits := h.fits
  takes := h.takes
  goes hHolds hPhase hMoves _ := h.goes hHolds hPhase hMoves
  done := h.done
  outside := h.outside

theorem Roles.KeepsIn.step (hKeeps : c.KeepsIn allowed holdsIn) (hPlays : ∀ k, c.Plays φ s k)
    (hHolds : holdsIn φ past s.state s.world) (hHappens : u.Happens s e s') (hAllowed : allowed φ e) :
    ∃ φ', (∀ k, c.Plays φ' s' k) ∧ holdsIn φ' (past ++ [e]) s'.state s'.world := by
  cases hHappens with
  | @takesUp k job r state hFree hTakes =>
    obtain ⟨g, hPasses, hNext⟩ := hKeeps.takes hHolds ((hPlays k).free hFree) hTakes hAllowed
    refine ⟨_, Roles.Plays.of_other hPlays (fun j hj => Scene.busy_put_of_ne hj ..) ?_, hNext⟩
    rw [Roles.Plays, Function.update_self, show _ = some (job, r) from Scene.busy_put s k _]
    exact .some ⟨rfl, hPasses⟩
  | @goesOn k job r r' asked state world hBusy hStep =>
    obtain ⟨g, hPhase, hPasses⟩ := (hPlays k).busy hBusy
    obtain ⟨g', hMoves, hNext⟩ :=
      hStep.passes hPasses (hKeeps.fits hHolds hPhase) (hKeeps.keep k job) (hKeeps.answered k job)
    refine ⟨_, Roles.Plays.of_other hPlays (fun j hj => Scene.busy_put_of_ne hj ..) ?_,
      hKeeps.goes hHolds hPhase hMoves (Setting.replied_of_step hStep) hAllowed⟩
    rw [Roles.Plays, Function.update_self, show _ = some (job, r') from Scene.busy_put s k _]
    exact .some ⟨rfl, hNext⟩
  | @isDone k job a hBusy =>
    obtain ⟨g, hPhase, hPost⟩ := (hPlays k).busy hBusy
    refine ⟨_, Roles.Plays.of_other hPlays (fun j hj => Scene.busy_put_of_ne hj ..) ?_, hKeeps.done hHolds hPhase hPost⟩
    rw [Roles.Plays, Function.update_self, show _ = none from Scene.busy_put s k _]
    exact .none
  | outside hOutside => exact ⟨φ, hPlays, hKeeps.outside hHolds hOutside hAllowed⟩

/-- What holds in the beginning, where all workers are free, holds along every run that keeps to a rule. -/
theorem Setting.LeadsBy.plays_roles_in {rule : Scene K L S I M ρ → Moment K L S I → Prop}
    (hLeads : u.LeadsBy rule start past s) (hKeeps : c.KeepsIn allowed holdsIn)
    (hRule : ∀ {φ s e}, (∀ k, c.Plays φ s k) → rule s e → allowed φ e) (hIdle : ∀ k, start.busy k = none)
    (hHolds : holdsIn (fun _ => none) [] start.state start.world) :
    ∃ φ, (∀ k, c.Plays φ s k) ∧ holdsIn φ past s.state s.world := by
  induction hLeads with
  | nil =>
    refine ⟨fun _ => none, fun k => ?_, hHolds⟩
    rw [Roles.Plays, hIdle k]
    exact .none
  | snoc _ hHappens hRuled ih =>
    obtain ⟨φ, hPlays, hHere⟩ := ih
    exact hKeeps.step hPlays hHere hHappens (hRule hPlays hRuled)

end World

/-- What holds in the beginning, whatever the world is. -/
theorem Setting.LeadsBy.plays_roles {rule : Scene K L S I M ρ → Moment K L S I → Prop} (hLeads : u.LeadsBy rule start past s)
    (hKeeps : c.Keeps allowed holds) (hRule : ∀ {φ s e}, (∀ k, c.Plays φ s k) → rule s e → allowed φ e)
    (hIdle : ∀ k, start.busy k = none) (hHolds : holds (fun _ => none) [] start.state) :
    ∃ φ, (∀ k, c.Plays φ s k) ∧ holds φ past s.state :=
  hLeads.plays_roles_in hKeeps.keepsIn hRule hIdle hHolds

end JvmDebug
