import JvmDebug.Proofs.List
import JvmDebug.Proofs.Routine.Outcome
import Mathlib.Data.List.Induction
import Mathlib.Logic.Function.Basic

/-!
# Routines side by side

Workers that share a state, each in the middle of a job or free. One step of one of them follows the other, in any
order, and between two steps the world outside may change the state by itself. What has happened is told by moments, so
that whatever is asked about the past is a question about a list.
-/

namespace JvmDebug
set_option autoImplicit false

variable {K L S M : Type} {I : Interface} {ρ : K → Type} {α : Type}

/-- A call that was made, and its answer. -/
abbrev Asked (I : Interface) := (c : I.Call) × I.Answer c

/-- One step of a routine. A wait that is limited may come to its limit at any time. -/
inductive Routine.Step (answers : Answering I M) (keep : Log.Record → S → S) :
    Routine S I α → S → M → Option (Asked I) → Routine S I α → S → M → Prop where
  | atomic (change : S → S) (next : S → Routine S I α) (s : S) (m : M) :
      Step answers keep (.atomic change next) s m none (next s) (change s) m
  | ready {ready : S → Bool} (change : S → S) (limit : Option Nat) (next : Bool → Routine S I α) {s : S} (m : M) :
      ready s = true → Step answers keep (.wait ready change limit next) s m none (next true) (change s) m
  | expired (ready : S → Bool) (change : S → S) (limit : Nat) (next : Bool → Routine S I α) (s : S) (m : M) :
      Step answers keep (.wait ready change (some limit) next) s m none (next false) s m
  | call {c : I.Call} {a : I.Answer c} (next : I.Answer c → Routine S I α) (s : S) {m m' : M} :
      answers m c a m' → Step answers keep (.call c next) s m (some ⟨c, a⟩) (next a) s m'
  | note (r : Log.Record) (next : Routine S I α) (s : S) (m : M) :
      Step answers keep (.note r next) s m none next (keep r s) m

/-- A step leads to no other waits. -/
theorem Routine.Step.waitsFor {answers : Answering I M} {keep : Log.Record → S → S} {awaited : S → Bool}
    {r r' : Routine S I α} {s s' : S} {m m' : M} {asked : Option (Asked I)}
    (hStep : r.Step answers keep s m asked r' s' m') (h : r.WaitsFor awaited) : r'.WaitsFor awaited := by
  cases hStep with
  | atomic => exact h s
  | ready => exact h.2 true
  | expired => exact h.2 false
  | call => exact h _
  | note => exact h

theorem Routine.Step.weaken {answers answers' : Answering I M} {keep : Log.Record → S → S} {r r' : Routine S I α} {s s' : S}
    {m m' : M} {asked : Option (Asked I)} (hAnswers : ∀ {m c a m'}, answers m c a m' → answers' m c a m')
    (hStep : r.Step answers keep s m asked r' s' m') : r.Step answers' keep s m asked r' s' m' := by
  cases hStep with
  | atomic => exact .atomic ..
  | ready _ _ _ _ hReady => exact .ready _ _ _ _ hReady
  | expired => exact .expired ..
  | call _ _ hAnswer => exact .call _ _ (hAnswers hAnswer)
  | note => exact .note ..

/-- The workers, by what they take up, and the world that they work in. `L` names the jobs, and `ρ` says what a worker
yields in the end. -/
structure Setting (K L S : Type) (I : Interface) (M : Type) (ρ : K → Type) where
  takes : (k : K) → L → S → Routine S I (ρ k) → S → Prop
  answers : Answering I M
  keep : Log.Record → S → S
  outside : S → M → S → M → Prop

structure Scene (K L S : Type) (I : Interface) (M : Type) (ρ : K → Type) where
  /-- What each worker is at, and what of it is left to be done. -/
  busy : (k : K) → Option (L × Routine S I (ρ k))
  state : S
  world : M

inductive Turn (K L : Type) (I : Interface) where
  | takesUp (k : K) (job : L)
  | goesOn (k : K) (job : L) (asked : Option (Asked I))
  | isDone (k : K) (job : L)
  | outside

/-- What happened, and the state before and after it. -/
structure Moment (K L S : Type) (I : Interface) where
  turn : Turn K L I
  before : S
  after : S

/-- A step of a routine, as it is seen from outside. -/
structure Doing (S : Type) (I : Interface) where
  asked : Option (Asked I)
  before : S
  after : S

def Turn.worker? : Turn K L I → Option K
  | takesUp k _ | goesOn k _ _ | isDone k _ => some k
  | outside => none

/-- What stands behind the end of a list that it had before. -/
def added (before after : List α) : List α := after.drop before.length

theorem added_append (before new : List α) : added before (before ++ new) = new := List.drop_left

theorem added_self (before : List α) : added before before = [] := List.drop_length

theorem added_of_length_le {before after : List α} (h : after.length ≤ before.length) : added before after = [] :=
  List.drop_eq_nil_of_le h

variable [DecidableEq K]

/-- What a worker did at one more moment, behind what it had done in its job so far. -/
def Moment.addTo (k : K) (done : List (Doing S I)) (e : Moment K L S I) : List (Doing S I) :=
  match e.turn with
  | .takesUp j _ => if j = k then [] else done
  | .goesOn j _ asked => if j = k then done ++ [⟨asked, e.before, e.after⟩] else done
  | .isDone _ _ | .outside => done

/-- What a worker has done in the job that it took up last. -/
def deeds (k : K) (past : List (Moment K L S I)) : List (Doing S I) := past.foldl (Moment.addTo k) []

@[simp] theorem deeds_nil (k : K) : deeds k ([] : List (Moment K L S I)) = [] := rfl

theorem deeds_snoc (k : K) (past : List (Moment K L S I)) (e : Moment K L S I) :
    deeds k (past ++ [e]) = e.addTo k (deeds k past) := by
  simp [deeds]

theorem Moment.addTo_of_other {k : K} {e : Moment K L S I} (h : e.turn.worker? ≠ some k) (done : List (Doing S I)) :
    e.addTo k done = done := by
  unfold Moment.addTo
  split
  next heq => exact if_neg fun hEq => h (by rw [heq, hEq, Turn.worker?])
  next heq => exact if_neg fun hEq => h (by rw [heq, hEq, Turn.worker?])
  all_goals rfl

/-- What was done before a job was taken up belongs to other jobs. -/
theorem deeds_of_takesUp {k : K} {job : L} {e : Moment K L S I} (h : e.turn = .takesUp k job)
    (past since : List (Moment K L S I)) : deeds k (past ++ e :: since) = deeds k since := by
  have hNone : e.addTo k (deeds k past) = [] := by simp [Moment.addTo, h]
  rw [deeds, List.foldl_append, List.foldl_cons]
  exact congrArg (since.foldl _) hNone

/-- Whatever a worker did in its job was done at some moment, behind what it had done before. -/
theorem exists_of_deeds_eq {k : K} {past : List (Moment K L S I)} {early late : List (Doing S I)} {x : Doing S I}
    (h : deeds k past = early ++ x :: late) : ∃ before e after job, past = before ++ e :: after ∧
      e.turn = .goesOn k job x.asked ∧ e.before = x.before ∧ e.after = x.after ∧ deeds k before = early := by
  induction past using List.reverseRecOn generalizing late with
  | nil => simp at h
  | append_singleton past e ih =>
    have hOld : ∀ late, deeds k past = early ++ x :: late → ∃ before e' after job, past ++ [e] = before ++ e' :: after ∧
        e'.turn = .goesOn k job x.asked ∧ e'.before = x.before ∧ e'.after = x.after ∧ deeds k before = early := by
      intro late h
      obtain ⟨before, e', after, job, rfl, hRest⟩ := ih h
      exact ⟨before, e', after ++ [e], job, by simp, hRest⟩
    rw [deeds_snoc, Moment.addTo] at h
    split at h
    · split at h
      · simp at h
      · exact hOld late h
    · next j job asked hTurn =>
      split at h
      · next hSame =>
        subst hSame
        rcases snoc_eq_cut.mp h with ⟨hEarly, rfl, -⟩ | ⟨late, -, hDid⟩
        · exact ⟨past, e, [], job, rfl, hTurn, rfl, rfl, hEarly.symm⟩
        · exact hOld late hDid
      · exact hOld late h
    · exact hOld late h
    · exact hOld late h

theorem exists_of_mem_deeds {k : K} {past : List (Moment K L S I)} {x : Doing S I} (hx : x ∈ deeds k past) :
    ∃ before e after job, past = before ++ e :: after ∧ e.turn = .goesOn k job x.asked ∧ e.before = x.before ∧
      e.after = x.after := by
  obtain ⟨early, late, hSplit⟩ := List.append_of_mem hx
  obtain ⟨before, e, after, job, hPast, hTurn, hBefore, hAfter, -⟩ := exists_of_deeds_eq hSplit
  exact ⟨before, e, after, job, hPast, hTurn, hBefore, hAfter⟩

/-- What a worker is at after one more moment, as far as it has taken something up. -/
def Moment.jobOf (k : K) (job : Option L) (e : Moment K L S I) : Option L :=
  match e.turn with
  | .takesUp j x => if j = k then some x else job
  | .goesOn .. | .isDone .. | .outside => job

/-- The job that a worker took up last. -/
def lastJob? (k : K) (past : List (Moment K L S I)) : Option L := past.foldl (Moment.jobOf k) none

theorem Moment.jobOf_of_other {k : K} {e : Moment K L S I} (h : e.turn.worker? ≠ some k) (job : Option L) :
    e.jobOf k job = job := by
  unfold Moment.jobOf
  split
  · next hTurn => exact if_neg fun hEq => h (by rw [hTurn, hEq, Turn.worker?])
  all_goals rfl

theorem lastJob?_snoc (k : K) (past : List (Moment K L S I)) (e : Moment K L S I) :
    lastJob? k (past ++ [e]) = e.jobOf k (lastJob? k past) := by
  simp [lastJob?]

/-- As long as a worker takes nothing else up, what it does stands behind what it did. -/
theorem deeds_grows {k : K} (past : List (Moment K L S I)) {since : List (Moment K L S I)}
    (h : ∀ e ∈ since, ∀ job, e.turn ≠ .takesUp k job) : deeds k past <+: deeds k (past ++ since) := by
  induction since using List.reverseRecOn with
  | nil => simp
  | append_singleton since e ih =>
    refine (ih fun x hx => h x (by simp [hx])).trans ?_
    rw [← List.append_assoc, deeds_snoc, Moment.addTo]
    split
    · next j job hTurn =>
      split
      · next hSame => exact absurd (hSame ▸ hTurn) (h e (by simp) job)
      · exact List.prefix_rfl
    · split
      · exact List.prefix_append ..
      · exact List.prefix_rfl
    · exact List.prefix_rfl
    · exact List.prefix_rfl

namespace Scene

def put (s : Scene K L S I M ρ) (k : K) (b : Option (L × Routine S I (ρ k))) : Scene K L S I M ρ :=
  { s with busy := Function.update s.busy k b }

@[simp] theorem busy_put (s : Scene K L S I M ρ) (k : K) (b : Option (L × Routine S I (ρ k))) :
    (s.put k b).busy k = b := Function.update_self ..

theorem busy_put_of_ne {j k : K} (h : j ≠ k) (s : Scene K L S I M ρ) (b : Option (L × Routine S I (ρ k))) :
    (s.put k b).busy j = s.busy j := Function.update_of_ne h ..

@[simp] theorem state_put (s : Scene K L S I M ρ) (k : K) (b : Option (L × Routine S I (ρ k))) :
    (s.put k b).state = s.state := rfl

@[simp] theorem world_put (s : Scene K L S I M ρ) (k : K) (b : Option (L × Routine S I (ρ k))) :
    (s.put k b).world = s.world := rfl

def idle (state : S) (world : M) : Scene K L S I M ρ := ⟨fun _ => none, state, world⟩

end Scene

namespace Setting

variable {t : Setting K L S I M ρ} {start a b c : Scene K L S I M ρ} {e : Moment K L S I} {past since : List (Moment K L S I)}

inductive Happens (t : Setting K L S I M ρ) : Scene K L S I M ρ → Moment K L S I → Scene K L S I M ρ → Prop where
  | takesUp {s : Scene K L S I M ρ} {k : K} {job : L} {r : Routine S I (ρ k)} {state : S} :
      s.busy k = none → t.takes k job s.state r state →
      Happens t s ⟨.takesUp k job, s.state, state⟩ { s.put k (some (job, r)) with state }
  | goesOn {s : Scene K L S I M ρ} {k : K} {job : L} {r r' : Routine S I (ρ k)} {asked : Option (Asked I)} {state : S}
      {world : M} : s.busy k = some (job, r) → r.Step t.answers t.keep s.state s.world asked r' state world →
      Happens t s ⟨.goesOn k job asked, s.state, state⟩ { s.put k (some (job, r')) with state, world }
  | isDone {s : Scene K L S I M ρ} {k : K} {job : L} {a : ρ k} : s.busy k = some (job, .done a) →
      Happens t s ⟨.isDone k job, s.state, s.state⟩ (s.put k none)
  | outside {s : Scene K L S I M ρ} {state : S} {world : M} : t.outside s.state s.world state world →
      Happens t s ⟨.outside, s.state, state⟩ { s with state, world }

/-- What may come of a scene, and by which moments. -/
inductive Leads (t : Setting K L S I M ρ) (start : Scene K L S I M ρ) : List (Moment K L S I) → Scene K L S I M ρ → Prop where
  | nil : Leads t start [] start
  | snoc {past : List (Moment K L S I)} {e : Moment K L S I} {s s' : Scene K L S I M ρ} :
      Leads t start past s → Happens t s e s' → Leads t start (past ++ [e]) s'

/-- What may come of a scene if each moment is as a rule asks for. -/
inductive LeadsBy (t : Setting K L S I M ρ) (rule : Scene K L S I M ρ → Moment K L S I → Prop)
    (start : Scene K L S I M ρ) : List (Moment K L S I) → Scene K L S I M ρ → Prop where
  | nil : LeadsBy t rule start [] start
  | snoc {past : List (Moment K L S I)} {e : Moment K L S I} {s s' : Scene K L S I M ρ} :
      LeadsBy t rule start past s → Happens t s e s' → rule s e → LeadsBy t rule start (past ++ [e]) s'

theorem LeadsBy.mono {rule rule' : Scene K L S I M ρ → Moment K L S I → Prop} (hRule : ∀ s e, rule s e → rule' s e)
    (hLeads : LeadsBy t rule start past b) : LeadsBy t rule' start past b := by
  induction hLeads with
  | nil => exact .nil
  | snoc _ hHappens hRuled ih => exact ih.snoc hHappens (hRule _ _ hRuled)

/-- Every run keeps to the rule that allows anything. -/
theorem Leads.by_rule (hLeads : Leads t start past b) : LeadsBy t (fun _ _ => True) start past b := by
  induction hLeads with
  | nil => exact .nil
  | snoc _ hHappens ih => exact ih.snoc hHappens trivial

theorem LeadsBy.leads {rule : Scene K L S I M ρ → Moment K L S I → Prop} (hLeads : LeadsBy t rule start past b) :
    Leads t start past b := by
  induction hLeads with
  | nil => exact .nil
  | snoc _ hHappens _ ih => exact ih.snoc hHappens

/-- A run keeps to a rule that is true of each of its moments. -/
theorem Leads.by_all {p : Moment K L S I → Prop} (hLeads : Leads t start past b) (hAll : ∀ e ∈ past, p e) :
    LeadsBy t (fun _ e => p e) start past b := by
  induction hLeads with
  | nil => exact .nil
  | snoc _ hHappens ih => exact (ih fun e he => hAll e (by simp [he])).snoc hHappens (hAll _ (by simp))

/-- What may come in a setting may come in one that allows more. -/
theorem Leads.weaken {t' : Setting K L S I M ρ} (hTakes : ∀ {k job s r s'}, t.takes k job s r s' → t'.takes k job s r s')
    (hAnswers : ∀ {m c a m'}, t.answers m c a m' → t'.answers m c a m') (hKeep : t.keep = t'.keep)
    (hOutside : ∀ {s m s' m'}, t.outside s m s' m' → t'.outside s m s' m') (hLeads : Leads t start past b) :
    Leads t' start past b := by
  induction hLeads with
  | nil => exact .nil
  | snoc _ hHappens ih =>
    refine ih.snoc ?_
    cases hHappens with
    | takesUp hFree hTaken => exact .takesUp hFree (hTakes hTaken)
    | goesOn hBusy hStep => exact .goesOn hBusy (hKeep ▸ hStep.weaken hAnswers)
    | isDone hDone => exact .isDone hDone
    | outside hOut => exact .outside (hOutside hOut)

theorem Happens.before (h : Happens t a e b) : e.before = a.state := by cases h <;> rfl

theorem Happens.after (h : Happens t a e b) : e.after = b.state := by cases h <;> rfl

/-- A worker whose turn it is not stays at what it is. -/
theorem Happens.busy_of_other (h : Happens t a e b) {k : K} (hk : e.turn.worker? ≠ some k) : b.busy k = a.busy k := by
  cases h with
  | takesUp _ _ => exact Scene.busy_put_of_ne (fun hEq => hk (congrArg some hEq.symm)) ..
  | goesOn _ _ => exact Scene.busy_put_of_ne (fun hEq => hk (congrArg some hEq.symm)) ..
  | isDone _ => exact Scene.busy_put_of_ne (fun hEq => hk (congrArg some hEq.symm)) ..
  | outside _ => rfl

/-- How a worker has come to what it is at. -/
theorem Happens.busy_cases (h : Happens t a e b) {k : K} {job : L} {r : Routine S I (ρ k)}
    (hBusy : b.busy k = some (job, r)) :
    (e.turn = .takesUp k job ∧ t.takes k job a.state r b.state) ∨
      (∃ asked r', e.turn = .goesOn k job asked ∧ a.busy k = some (job, r') ∧
        r'.Step t.answers t.keep a.state a.world asked r b.state b.world) ∨
      (e.turn.worker? ≠ some k ∧ a.busy k = some (job, r)) := by
  by_cases hTurn : e.turn.worker? = some k
  · cases h with
    | takesUp _ hTakes =>
      cases hTurn
      obtain ⟨rfl, rfl⟩ : _ = job ∧ _ = r := by simpa [Scene.put] using hBusy
      exact .inl ⟨rfl, hTakes⟩
    | goesOn hBefore hStep =>
      cases hTurn
      obtain ⟨rfl, rfl⟩ : _ = job ∧ _ = r := by simpa [Scene.put] using hBusy
      exact .inr (.inl ⟨_, _, rfl, hBefore, hStep⟩)
    | isDone _ =>
      cases hTurn
      simp [Scene.put] at hBusy
    | outside _ => cases hTurn
  · exact .inr (.inr ⟨hTurn, h.busy_of_other hTurn ▸ hBusy⟩)

theorem Leads.trans (hFirst : Leads t start past a) (hSecond : Leads t a since b) : Leads t start (past ++ since) b := by
  induction hSecond with
  | nil => rwa [List.append_nil]
  | snoc _ hHappens ih =>
    rw [← List.append_assoc]
    exact ih.snoc hHappens

theorem LeadsBy.trans {rule : Scene K L S I M ρ → Moment K L S I → Prop} (hFirst : LeadsBy t rule start past a)
    (hSecond : LeadsBy t rule a since b) : LeadsBy t rule start (past ++ since) b := by
  induction hSecond with
  | nil => rwa [List.append_nil]
  | snoc _ hHappens hRuled ih =>
    rw [← List.append_assoc]
    exact ih.snoc hHappens hRuled

theorem Leads.split (hLeads : Leads t start (past ++ since) b) :
    ∃ m, Leads t start past m ∧ Leads t m since b := by
  generalize hAll : past ++ since = all at hLeads
  induction hLeads generalizing since with
  | nil =>
    obtain ⟨rfl, rfl⟩ := List.append_eq_nil_iff.mp hAll
    exact ⟨start, .nil, .nil⟩
  | @snoc before e s s' hBefore hHappens ih =>
    rcases List.eq_nil_or_concat since with rfl | ⟨others, last, rfl⟩
    · rw [List.append_nil] at hAll
      subst hAll
      exact ⟨s', hBefore.snoc hHappens, .nil⟩
    · rw [List.concat_eq_append, ← List.append_assoc] at hAll
      obtain ⟨hPast, hLast⟩ := List.append_inj' hAll rfl
      obtain rfl := (List.cons.inj hLast).1
      obtain ⟨m, hFirst, hSecond⟩ := ih hPast
      rw [List.concat_eq_append]
      exact ⟨m, hFirst, hSecond.snoc hHappens⟩

theorem Leads.single (hLeads : Leads t a [e] b) : Happens t a e b := by
  generalize hAll : [e] = all at hLeads
  cases hLeads with
  | nil => cases hAll
  | @snoc before last s _ hBefore hHappens =>
    have hNone : before = [] := by
      cases before with
      | nil => rfl
      | cons _ others => simp at hAll
    subst hNone
    cases hAll
    generalize hNil : ([] : List (Moment K L S I)) = none at hBefore
    cases hBefore with
    | nil => exact hHappens
    | snoc _ _ => simp at hNil

/-- The scenes around a moment. -/
theorem Leads.around (hLeads : Leads t start (past ++ e :: since) b) :
    ∃ m m', Leads t start past m ∧ Happens t m e m' ∧ Leads t m' since b := by
  obtain ⟨m, hFirst, hRest⟩ := hLeads.split
  obtain ⟨m', hMoment, hRest⟩ := Leads.split (show Leads t m ([e] ++ since) b from hRest)
  exact ⟨m, m', hFirst, hMoment.single, hRest⟩

/-- A worker whose turn it never is stays free. -/
theorem Leads.idle_of_absent (hLeads : Leads t start past b) {k : K} (hIdle : start.busy k = none)
    (hAbsent : ∀ e ∈ past, e.turn.worker? ≠ some k) : b.busy k = none := by
  induction hLeads with
  | nil => exact hIdle
  | snoc _ hHappens ih =>
    rw [hHappens.busy_of_other (hAbsent _ (by simp))]
    exact ih fun e he => hAbsent e (by simp [he])

/-- A worker is at the job that it took up last. -/
theorem Leads.lastJob (hLeads : Leads t start past b) {k : K} (hIdle : start.busy k = none) {job : L} {r : Routine S I (ρ k)}
    (hBusy : b.busy k = some (job, r)) : lastJob? k past = some job := by
  induction hLeads generalizing r with
  | nil => simp [hIdle] at hBusy
  | snoc _ hHappens ih =>
    rw [lastJob?_snoc]
    rcases hHappens.busy_cases hBusy with ⟨hTurn, -⟩ | ⟨asked, r', hTurn, hBefore, -⟩ | ⟨hOther, hBefore⟩
    · simp [Moment.jobOf, hTurn]
    · simpa [Moment.jobOf, hTurn] using ih hBefore
    · rw [Moment.jobOf_of_other hOther]
      exact ih hBefore

/-- When a worker took up the job that it is at. -/
theorem Leads.taken (hLeads : Leads t start past b) {k : K} (hIdle : start.busy k = none) {job : L} {r : Routine S I (ρ k)}
    (hBusy : b.busy k = some (job, r)) : ∃ before e since, past = before ++ e :: since ∧ e.turn = .takesUp k job := by
  induction hLeads generalizing r with
  | nil => simp [hIdle] at hBusy
  | @snoc past e a b _ hHappens ih =>
    have hBefore : ∀ {r'}, a.busy k = some (job, r') →
        ∃ before e' since, past ++ [e] = before ++ e' :: since ∧ e'.turn = .takesUp k job := by
      intro r' hBefore
      obtain ⟨before, e', since, rfl, hTurn⟩ := ih hBefore
      exact ⟨before, e', since ++ [e], by simp, hTurn⟩
    rcases hHappens.busy_cases hBusy with ⟨hTurn, -⟩ | ⟨_, _, -, hThere, -⟩ | ⟨-, hThere⟩
    · exact ⟨past, e, [], rfl, hTurn⟩
    · exact hBefore hThere
    · exact hBefore hThere

/-- When a worker did what it did last in its job. It has done nothing since. -/
theorem Leads.last_deed (hLeads : Leads t start past b) {k : K} (hIdle : start.busy k = none) {job : L}
    {r : Routine S I (ρ k)} {did : List (Doing S I)} {x : Doing S I} (hBusy : b.busy k = some (job, r))
    (hDid : deeds k past = did ++ [x]) : ∃ before e since, past = before ++ e :: since ∧
      e.turn = .goesOn k job x.asked ∧ e.before = x.before ∧ e.after = x.after ∧ ∀ y ∈ since, y.turn.worker? ≠ some k := by
  induction hLeads generalizing r with
  | nil => simp [hIdle] at hBusy
  | @snoc past e a b _ hHappens ih =>
    rw [deeds_snoc] at hDid
    rcases hHappens.busy_cases hBusy with ⟨hTurn, -⟩ | ⟨asked, r', hTurn, hBefore, -⟩ | ⟨hOther, hBefore⟩
    · simp [Moment.addTo, hTurn] at hDid
    · have hLast : deeds k past ++ [⟨asked, e.before, e.after⟩] = did ++ [x] := by simpa [Moment.addTo, hTurn] using hDid
      obtain ⟨-, hSame⟩ := List.append_inj' hLast rfl
      obtain rfl := (List.cons.inj hSame).1
      exact ⟨past, e, [], rfl, hTurn, rfl, rfl, fun y hy => absurd hy List.not_mem_nil⟩
    · rw [Moment.addTo_of_other hOther] at hDid
      obtain ⟨before, e', since, rfl, hTurn, hBeforeEq, hAfterEq, hSince⟩ := ih hBefore hDid
      refine ⟨before, e', since ++ [e], by simp, hTurn, hBeforeEq, hAfterEq, fun y hy => ?_⟩
      rcases List.mem_append.mp hy with hy | hy
      · exact hSince y hy
      · exact List.mem_singleton.mp hy ▸ hOther

/-- What is true of whatever a worker takes up in a job, and stays true by its steps, is true of what it has left. -/
theorem Leads.left_at (hLeads : Leads t start past b) {k : K} {p : L → Routine S I (ρ k) → Prop} (hIdle : start.busy k = none)
    (hTakes : ∀ job s r s', t.takes k job s r s' → p job r)
    (hStep : ∀ job r s m asked r' s' m', r.Step t.answers t.keep s m asked r' s' m' → p job r → p job r') {job : L}
    {r : Routine S I (ρ k)} (hBusy : b.busy k = some (job, r)) : p job r := by
  induction hLeads generalizing r with
  | nil => simp [hIdle] at hBusy
  | snoc _ hHappens ih =>
    rcases hHappens.busy_cases hBusy with ⟨-, hTaken⟩ | ⟨asked, r', -, hBefore, hGone⟩ | ⟨-, hBefore⟩
    · exact hTakes _ _ _ _ hTaken
    · exact hStep _ _ _ _ _ _ _ _ hGone (ih hBefore)
    · exact ih hBefore

/-- The same of what is true whatever the job is. -/
theorem Leads.left (hLeads : Leads t start past b) {k : K} {p : Routine S I (ρ k) → Prop} (hIdle : start.busy k = none)
    (hTakes : ∀ job s r s', t.takes k job s r s' → p r)
    (hStep : ∀ r s m asked r' s' m', r.Step t.answers t.keep s m asked r' s' m' → p r → p r') {job : L}
    {r : Routine S I (ρ k)} (hBusy : b.busy k = some (job, r)) : p r :=
  hLeads.left_at (p := fun _ => p) hIdle hTakes (fun _ => hStep) hBusy

/-- Whatever its calls are answered, a worker comes to the end of its job by itself. -/
inductive Ends (t : Setting K L S I M ρ) (k : K) (job : L) : Scene K L S I M ρ → Prop where
  | done {s : Scene K L S I M ρ} {a : ρ k} : s.busy k = some (job, .done a) → Ends t k job s
  | goesOn {s : Scene K L S I M ρ} : (∃ e s', Happens t s e s' ∧ e.turn.worker? = some k) →
      (∀ e s', Happens t s e s' → e.turn.worker? = some k → Ends t k job s') → Ends t k job s

/-- A worker in the middle of its job does nothing but go on with it. -/
theorem Happens.step (h : Happens t a e b) {k : K} (hTurn : e.turn.worker? = some k) {job : L} {r : Routine S I (ρ k)}
    (hBusy : a.busy k = some (job, r)) (hMiddle : ∀ x, r ≠ .done x) :
    ∃ asked r' state world, r.Step t.answers t.keep a.state a.world asked r' state world ∧
      e = ⟨.goesOn k job asked, a.state, state⟩ ∧ b = { a.put k (some (job, r')) with state, world } := by
  cases h with
  | takesUp hFree _ =>
    cases hTurn
    rw [hFree] at hBusy
    cases hBusy
  | goesOn hBusy' hStep =>
    cases hTurn
    obtain ⟨rfl, rfl⟩ : _ = job ∧ _ = r := by simpa [hBusy'] using hBusy
    exact ⟨_, _, _, _, hStep, rfl, rfl⟩
  | isDone hDone =>
    cases hTurn
    obtain ⟨-, hEnd⟩ : _ = job ∧ _ = r := by simpa [hDone] using hBusy
    exact absurd hEnd.symm (hMiddle _)
  | outside _ => cases hTurn

theorem Leads.answered (hLeads : Leads t start past b) (he : e ∈ past) {k : K} {job : L} {x : Asked I}
    (hTurn : e.turn = .goesOn k job (some x)) : ∃ m m', t.answers m x.1 x.2 m' := by
  obtain ⟨before, after, rfl⟩ := List.append_of_mem he
  obtain ⟨m, m', -, hHappens, -⟩ := hLeads.around
  cases hHappens with
  | goesOn _ hStep =>
    cases hTurn
    cases hStep with
    | call _ _ hAnswer => exact ⟨_, _, hAnswer⟩
  | _ => cases hTurn

end Setting
end JvmDebug
