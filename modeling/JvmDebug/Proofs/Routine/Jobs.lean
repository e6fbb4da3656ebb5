import JvmDebug.Proofs.Routine.Scene

/-!
# One job after the other

The jobs that a worker has taken up, and those that it is done with, with all that it did in each of them. A worker is
at one job at a time, so that the first are the second and at most one more.
-/

namespace JvmDebug
set_option autoImplicit false

variable {K L S M : Type} {I : Interface} {ρ : K → Type} {α : Type} [DecidableEq K]

/-- The job that a worker takes up at a moment. -/
def Moment.begins (k : K) (e : Moment K L S I) : List L :=
  match e.turn with
  | .takesUp j job => if j = k then [job] else []
  | .goesOn .. | .isDone .. | .outside => []

/-- The job that a worker is done with at a moment, and what it did in it. -/
def Moment.finishes (k : K) (done : List (Doing S I)) (e : Moment K L S I) : List (L × List (Doing S I)) :=
  match e.turn with
  | .isDone j job => if j = k then [(job, done)] else []
  | .takesUp .. | .goesOn .. | .outside => []

/-- The jobs that a worker has taken up, in their order. -/
def begun (k : K) (past : List (Moment K L S I)) : List L := past.flatMap (Moment.begins k)

def finishedSince (k : K) (done : List (Doing S I)) : List (Moment K L S I) → List (L × List (Doing S I))
  | [] => []
  | e :: rest => e.finishes k done ++ finishedSince k (e.addTo k done) rest

/-- The jobs that a worker is done with, in their order, and what it did in each of them. -/
def finished (k : K) (past : List (Moment K L S I)) : List (L × List (Doing S I)) := finishedSince k [] past

theorem begun_snoc (k : K) (past : List (Moment K L S I)) (e : Moment K L S I) :
    begun k (past ++ [e]) = begun k past ++ e.begins k := by
  simp [begun]

theorem finishedSince_snoc (k : K) (done : List (Doing S I)) (past : List (Moment K L S I)) (e : Moment K L S I) :
    finishedSince k done (past ++ [e]) =
      finishedSince k done past ++ e.finishes k (past.foldl (Moment.addTo k) done) := by
  induction past generalizing done with
  | nil => simp [finishedSince]
  | cons x past ih => simp [finishedSince, ih]

theorem finished_snoc (k : K) (past : List (Moment K L S I)) (e : Moment K L S I) :
    finished k (past ++ [e]) = finished k past ++ e.finishes k (deeds k past) :=
  finishedSince_snoc k [] past e

theorem Moment.begins_of_other {k : K} {e : Moment K L S I} (h : e.turn.worker? ≠ some k) : e.begins k = [] := by
  unfold Moment.begins
  split
  · next hTurn => exact if_neg fun hEq => h (by rw [hTurn, hEq, Turn.worker?])
  all_goals rfl

theorem Moment.finishes_of_other {k : K} {e : Moment K L S I} (h : e.turn.worker? ≠ some k) (done : List (Doing S I)) :
    e.finishes k done = [] := by
  unfold Moment.finishes
  split
  · next hTurn => exact if_neg fun hEq => h (by rw [hTurn, hEq, Turn.worker?])
  all_goals rfl

/-! When a worker took up what it is at, and what that is -/

section Starts

variable {k : K} {job : L} {e : Moment K L S I} {past since : List (Moment K L S I)}

/-- The state in which a worker took up what it is at, after one more moment. -/
def Moment.startOf (k : K) (state : Option S) (e : Moment K L S I) : Option S :=
  match e.turn with
  | .takesUp j _ => if j = k then some e.before else state
  | .goesOn .. | .isDone .. | .outside => state

/-- The state in which a worker took up what it took up last. -/
def lastStart? (k : K) (past : List (Moment K L S I)) : Option S := past.foldl (Moment.startOf k) none

theorem lastStart?_snoc : lastStart? k (past ++ [e]) = e.startOf k (lastStart? k past) := by
  simp [lastStart?]

theorem Moment.startOf_of_other (h : ∀ job, e.turn ≠ .takesUp k job) (state : Option S) : e.startOf k state = state := by
  unfold Moment.startOf
  split
  · next j job hTurn => exact if_neg fun hEq : j = k => h job (hEq ▸ hTurn)
  all_goals rfl

theorem Moment.jobOf_of_none (h : ∀ job, e.turn ≠ .takesUp k job) (job : Option L) : e.jobOf k job = job := by
  unfold Moment.jobOf
  split
  · next j x hTurn => exact if_neg fun hEq : j = k => h x (hEq ▸ hTurn)
  all_goals rfl

omit [DecidableEq K] in
/-- What only changes when something is taken up is as it was made then. -/
theorem foldl_of_takesUp {β : Type} {f : β → Moment K L S I → β} (hSince : ∀ x ∈ since, ∀ job, x.turn ≠ .takesUp k job)
    (hSame : ∀ x y, (∀ job, x.turn ≠ .takesUp k job) → f y x = y) (y : β) :
    (past ++ e :: since).foldl f y = f (past.foldl f y) e := by
  rw [List.foldl_append, List.foldl_cons]
  generalize f (past.foldl f y) e = z
  induction since with
  | nil => rfl
  | cons x rest ih =>
    rw [List.foldl_cons, hSame x z (hSince x (by simp))]
    exact ih fun w hw => hSince w (by simp [hw])

theorem lastStart?_of_takesUp (h : e.turn = .takesUp k job) (hSince : ∀ x ∈ since, ∀ job, x.turn ≠ .takesUp k job) :
    lastStart? k (past ++ e :: since) = some e.before := by
  rw [lastStart?, foldl_of_takesUp hSince fun x y hNot => Moment.startOf_of_other hNot y]
  simp [Moment.startOf, h]

theorem lastJob?_of_takesUp (h : e.turn = .takesUp k job) (hSince : ∀ x ∈ since, ∀ job, x.turn ≠ .takesUp k job) :
    lastJob? k (past ++ e :: since) = some job := by
  rw [lastJob?, foldl_of_takesUp hSince fun x y hNot => Moment.jobOf_of_none hNot y]
  simp [Moment.jobOf, h]

end Starts

/-- Whatever a worker is done with it was done with at some moment. -/
theorem exists_of_mem_finished {k : K} {past : List (Moment K L S I)} {y : L × List (Doing S I)}
    (hy : y ∈ finished k past) : ∃ e ∈ past, e.turn = .isDone k y.1 := by
  induction past using List.reverseRecOn with
  | nil => cases hy
  | append_singleton past e ih =>
    rw [finished_snoc] at hy
    rcases List.mem_append.mp hy with hy | hy
    · obtain ⟨x, hx, hTurn⟩ := ih hy
      exact ⟨x, List.mem_append_left _ hx, hTurn⟩
    · refine ⟨e, by simp, ?_⟩
      unfold Moment.finishes at hy
      split at hy
      · next hTurn =>
        split at hy
        · next hSame => rw [hTurn, hSame, List.mem_singleton.mp hy]
        · cases hy
      all_goals cases hy

namespace Setting

variable {t : Setting K L S I M ρ} {start s s' : Scene K L S I M ρ} {e : Moment K L S I} {past : List (Moment K L S I)}
  {k : K} {job : L}

/-- Besides the jobs that it is done with, a worker has taken up the one that it is at. -/
theorem Leads.begun_eq (hLeads : t.Leads start past s) (hIdle : start.busy k = none) :
    begun k past = (finished k past).map Prod.fst ++ ((s.busy k).map Prod.fst).toList := by
  induction hLeads with
  | nil => simp [hIdle, begun, finished, finishedSince]
  | @snoc past e a b _ hHappens ih =>
    rw [begun_snoc, finished_snoc, ih]
    by_cases hTurn : e.turn.worker? = some k
    · cases hHappens with
      | takesUp hFree _ =>
        cases hTurn
        simp [Moment.begins, Moment.finishes, Scene.put, hFree]
      | goesOn hBusy _ =>
        cases hTurn
        simp [Moment.begins, Moment.finishes, Scene.put, hBusy]
      | isDone hBusy =>
        cases hTurn
        simp [Moment.begins, Moment.finishes, hBusy]
      | outside _ => cases hTurn
    · rw [Moment.begins_of_other hTurn, Moment.finishes_of_other hTurn, hHappens.busy_of_other hTurn]
      simp

/-- What holds whenever a worker is done with a job is true of all the jobs that it is done with. -/
theorem Leads.finished_all (hLeads : t.Leads start past s) {p : L → List (Doing S I) → Prop}
    (hDone : ∀ {past s job x}, t.Leads start past s → s.busy k = some (job, .done x) → p job (deeds k past)) :
    ∀ y ∈ finished k past, p y.1 y.2 := by
  induction hLeads with
  | nil => nofun
  | @snoc past e a b hLeads hHappens ih =>
    intro y hy
    rw [finished_snoc] at hy
    rcases List.mem_append.mp hy with hy | hy
    · exact ih y hy
    by_cases hTurn : e.turn.worker? = some k
    · cases hHappens with
      | isDone hBusy =>
        cases hTurn
        obtain rfl : y = _ := by simpa [Moment.finishes] using hy
        exact hDone hLeads hBusy
      | _ => cases hy
    · rw [Moment.finishes_of_other hTurn] at hy
      cases hy

/-! Coming to an end -/

/-- It is enough that there is a step, and that the worker comes to the end from wherever a step leads it. -/
theorem Ends.of_steps {r : Routine S I (ρ k)} (hBusy : s.busy k = some (job, r)) (hMiddle : ∀ x, r ≠ .done x)
    (hStep : ∃ asked r' state world, r.Step t.answers t.keep s.state s.world asked r' state world)
    (hRest : ∀ {asked r' state world}, r.Step t.answers t.keep s.state s.world asked r' state world →
      t.Ends k job { s.put k (some (job, r')) with state, world }) : t.Ends k job s := by
  obtain ⟨asked, r', state, world, hStep⟩ := hStep
  refine .goesOn ⟨_, _, .goesOn hBusy hStep, rfl⟩ fun e s' hHappens hTurn => ?_
  obtain ⟨asked, r', state, world, hStep, -, rfl⟩ := hHappens.step hTurn hBusy hMiddle
  exact hRest hStep

/-- A worker that never waits comes to the end of its job if its calls are answered. -/
theorem Ends.of_unwaiting (hAnswers : ∀ m x, ∃ a m', t.answers m x a m') {r : Routine S I (ρ k)} (h : r.Unwaiting)
    (hBusy : s.busy k = some (job, r)) : t.Ends k job s := by
  induction r generalizing s with
  | done x => exact .done hBusy
  | atomic change next ih =>
    refine .of_steps hBusy nofun ⟨_, _, _, _, .atomic change next _ _⟩ fun hStep => ?_
    cases hStep with
    | atomic => exact ih _ (h _) (s.busy_put k _)
  | wait => exact h.elim
  | call x next ih =>
    obtain ⟨a, m', hAnswer⟩ := hAnswers s.world x
    refine .of_steps hBusy nofun ⟨_, _, _, _, .call next _ hAnswer⟩ fun hStep => ?_
    cases hStep with
    | call => exact ih _ (h _) (s.busy_put k _)
  | note x next ih =>
    refine .of_steps hBusy nofun ⟨_, _, _, _, .note x next _ _⟩ fun hStep => ?_
    cases hStep with
    | note => exact ih h (s.busy_put k _)

/-- A worker that asks nothing, and waits for nothing beyond a limit, comes to the end of its job. -/
theorem Ends.of_prompt {r : Routine S I (ρ k)} (h : r.Prompt) (hBusy : s.busy k = some (job, r)) : t.Ends k job s := by
  induction r generalizing s with
  | done x => exact .done hBusy
  | atomic change next ih =>
    refine .of_steps hBusy nofun ⟨_, _, _, _, .atomic change next _ _⟩ fun hStep => ?_
    cases hStep with
    | atomic => exact ih _ (h _) (s.busy_put k _)
  | wait ready change limit next ih =>
    obtain ⟨hLimit, hNext⟩ := h
    obtain ⟨limit, rfl⟩ := Option.isSome_iff_exists.mp hLimit
    refine .of_steps hBusy nofun ⟨_, _, _, _, .expired ready change limit next _ _⟩ fun hStep => ?_
    cases hStep with
    | ready => exact ih true (hNext true) (s.busy_put k _)
    | expired => exact ih false (hNext false) (s.busy_put k _)
  | call => exact h.elim
  | note x next ih =>
    refine .of_steps hBusy nofun ⟨_, _, _, _, .note x next _ _⟩ fun hStep => ?_
    cases hStep with
    | note => exact ih h (s.busy_put k _)

end Setting

theorem Routine.Step.prompt {answers : Answering I M} {keep : Log.Record → S → S} {r r' : Routine S I α} {s s' : S}
    {m m' : M} {asked : Option (Asked I)} (hStep : r.Step answers keep s m asked r' s' m') (h : r.Prompt) : r'.Prompt := by
  cases hStep with
  | atomic => exact h s
  | ready => exact h.2 true
  | expired => exact h.2 false
  | call => exact h.elim
  | note => exact h

/-- A step leads to no wait where there was none. -/
theorem Routine.Step.unwaiting {answers : Answering I M} {keep : Log.Record → S → S} {r r' : Routine S I α} {s s' : S}
    {m m' : M} {asked : Option (Asked I)} (hStep : r.Step answers keep s m asked r' s' m') (h : r.Unwaiting) :
    r'.Unwaiting := by
  cases hStep with
  | atomic => exact h s
  | ready => exact h.elim
  | expired => exact h.elim
  | call => exact h _
  | note => exact h

end JvmDebug
