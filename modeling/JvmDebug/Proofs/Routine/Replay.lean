import JvmDebug.Proofs.Routine.Scene

/-!
# Runs that are given by cues

A cue says whose turn it is, or what comes from outside. Cues are followed by a function, so that a run can be computed;
what comes of cues that can be followed may come of the scene.
-/

namespace JvmDebug
set_option autoImplicit false

variable {K L S M H X : Type} {I : Interface} {ρ : K → Type} {α : Type}

inductive Cue (K H X : Type) where
  | takesUp (k : K) (hint : H)
  | goesOn (k : K)
  | isDone (k : K)
  | outside (x : X)

/-- How cues are followed in a setting. -/
structure Script (t : Setting K L S I M ρ) (H X : Type) where
  take? : (k : K) → H → S → Option (L × Routine S I (ρ k) × S)
  answer? : M → (c : I.Call) → Option (I.Answer c × M)
  come? : X → S → M → Option (S × M)
  takes : ∀ {k hint s job r s'}, take? k hint s = some (job, r, s') → t.takes k job s r s'
  answers : ∀ {m c a m'}, answer? m c = some (a, m') → t.answers m c a m'
  outside : ∀ {x s m s' m'}, come? x s m = some (s', m') → t.outside s m s' m'

/-- One step of a routine that need not wait. -/
def Routine.step? (answer? : M → (c : I.Call) → Option (I.Answer c × M)) (keep : Log.Record → S → S) :
    Routine S I α → S → M → Option (Option (Asked I) × Routine S I α × S × M)
  | .done _, _, _ => none
  | .atomic change next, s, m => some (none, next s, change s, m)
  | .wait ready change _ next, s, m => if ready s then some (none, next true, change s, m) else none
  | .call c next, s, m => (answer? m c).map fun x => (some ⟨c, x.1⟩, next x.1, s, x.2)
  | .note r next, s, m => some (none, next, keep r s, m)

namespace Script

variable [DecidableEq K] {t : Setting K L S I M ρ} (p : Script t H X) {start s s' : Scene K L S I M ρ} {e : Moment K L S I}
  {past : List (Moment K L S I)}

omit [DecidableEq K] in
theorem step {r r' : Routine S I α} {state state' : S} {m m' : M} {asked : Option (Asked I)}
    (h : r.step? p.answer? t.keep state m = some (asked, r', state', m')) :
    r.Step t.answers t.keep state m asked r' state' m' := by
  cases r with
  | done _ => cases h
  | atomic change next =>
    cases h
    exact .atomic ..
  | wait ready change limit next =>
    simp only [Routine.step?] at h
    split at h
    · next hReady =>
      cases h
      exact .ready change limit next m hReady
    · cases h
  | call c next =>
    obtain ⟨⟨a, m₁⟩, hAnswer, hEq⟩ := Option.map_eq_some_iff.mp h
    cases hEq
    exact .call next state (p.answers hAnswer)
  | note r next =>
    cases h
    exact .note ..

/-- What comes of a cue, where it can be followed. -/
def follow? (s : Scene K L S I M ρ) : Cue K H X → Option (Moment K L S I × Scene K L S I M ρ)
  | .takesUp k hint =>
    match s.busy k with
    | some _ => none
    | none => (p.take? k hint s.state).map fun (job, r, state) =>
      (⟨.takesUp k job, s.state, state⟩, { s.put k (some (job, r)) with state })
  | .goesOn k =>
    match s.busy k with
    | none => none
    | some (job, r) => (r.step? p.answer? t.keep s.state s.world).map fun (asked, r', state, world) =>
      (⟨.goesOn k job asked, s.state, state⟩, { s.put k (some (job, r')) with state, world })
  | .isDone k =>
    match s.busy k with
    | some (job, .done _) => some (⟨.isDone k job, s.state, s.state⟩, s.put k none)
    | _ => none
  | .outside x => (p.come? x s.state s.world).map fun (state, world) =>
      (⟨.outside, s.state, state⟩, { s with state, world })

theorem happens {cue : Cue K H X} (h : p.follow? s cue = some (e, s')) : t.Happens s e s' := by
  cases cue with
  | takesUp k hint =>
    simp only [follow?] at h
    split at h
    · cases h
    · next hFree =>
      obtain ⟨⟨job, r, state⟩, hTake, hEq⟩ := Option.map_eq_some_iff.mp h
      cases hEq
      exact .takesUp hFree (p.takes hTake)
  | goesOn k =>
    simp only [follow?] at h
    split at h
    · cases h
    · next job r hBusy =>
      obtain ⟨⟨asked, r', state, world⟩, hStep, hEq⟩ := Option.map_eq_some_iff.mp h
      cases hEq
      exact .goesOn hBusy (p.step hStep)
  | isDone k =>
    simp only [follow?] at h
    split at h
    · next job a hBusy =>
      cases h
      exact .isDone hBusy
    · cases h
  | outside x =>
    obtain ⟨⟨state, world⟩, hCome, hEq⟩ := Option.map_eq_some_iff.mp h
    cases hEq
    exact .outside (p.outside hCome)

def replay? : List (Cue K H X) → Scene K L S I M ρ → Option (List (Moment K L S I) × Scene K L S I M ρ)
  | [], s => some ([], s)
  | cue :: rest, s => do
    let (e, s) ← p.follow? s cue
    let (past, s) ← replay? rest s
    return (e :: past, s)

theorem leads {cues : List (Cue K H X)} (h : p.replay? cues start = some (past, s)) : t.Leads start past s := by
  induction cues generalizing start past with
  | nil =>
    cases h
    exact .nil
  | cons cue rest ih =>
    obtain ⟨⟨e, s₁⟩, hFollow, h⟩ := Option.bind_eq_some_iff.mp h
    obtain ⟨⟨past₁, s₂⟩, hRest, h⟩ := Option.bind_eq_some_iff.mp h
    cases h
    exact Setting.Leads.trans (.snoc .nil (p.happens hFollow)) (ih hRest)

/-- What happens by some cues, as far as they can be followed all the way. -/
def story (cues : List (Cue K H X)) (start : Scene K L S I M ρ) : List (Moment K L S I) :=
  ((p.replay? cues start).map (·.1)).getD []

/-- Where some cues lead to. -/
def ending (cues : List (Cue K H X)) (start : Scene K L S I M ρ) : Scene K L S I M ρ :=
  ((p.replay? cues start).map (·.2)).getD start

theorem leads_ending (cues : List (Cue K H X)) (start : Scene K L S I M ρ) :
    t.Leads start (p.story cues start) (p.ending cues start) := by
  unfold story ending
  cases hReplay : p.replay? cues start with
  | none => exact .nil
  | some x => exact p.leads hReplay

section Outside

variable (rule : S → S → Prop) (hCome : ∀ {x s m s' m'}, p.come? x s m = some (s', m') → rule s s')

include hCome

theorem outside_of_follow? {cue : Cue K H X} (h : p.follow? s cue = some (e, s')) (hOutside : e.turn = .outside) :
    rule e.before e.after := by
  cases cue with
  | takesUp =>
    simp only [follow?] at h
    split at h
    · cases h
    · obtain ⟨_, -, hEq⟩ := Option.map_eq_some_iff.mp h
      cases hEq
      cases hOutside
  | goesOn =>
    simp only [follow?] at h
    split at h
    · cases h
    · obtain ⟨_, -, hEq⟩ := Option.map_eq_some_iff.mp h
      cases hEq
      cases hOutside
  | isDone =>
    simp only [follow?] at h
    split at h
    · cases h
      cases hOutside
    · cases h
  | outside x =>
    obtain ⟨⟨state, world⟩, hSome, hEq⟩ := Option.map_eq_some_iff.mp h
    cases hEq
    exact hCome hSome

theorem outside_of_replay? {cues : List (Cue K H X)} (h : p.replay? cues start = some (past, s)) (he : e ∈ past)
    (hOutside : e.turn = .outside) : rule e.before e.after := by
  induction cues generalizing start past with
  | nil =>
    cases h
    cases he
  | cons cue rest ih =>
    obtain ⟨⟨e₁, s₁⟩, hFollow, h⟩ := Option.bind_eq_some_iff.mp h
    obtain ⟨⟨past₁, s₂⟩, hRest, h⟩ := Option.bind_eq_some_iff.mp h
    cases h
    rcases List.mem_cons.mp he with rfl | he
    · exact p.outside_of_follow? rule hCome hFollow hOutside
    · exact ih hRest he

/-- In a story, nothing comes of itself but what the cues call for. -/
theorem outside_of_story {cues : List (Cue K H X)} (he : e ∈ p.story cues start) (hOutside : e.turn = .outside) :
    rule e.before e.after := by
  unfold story at he
  cases hReplay : p.replay? cues start with
  | none => simp [hReplay] at he
  | some x => exact p.outside_of_replay? rule hCome hReplay (by simpa [hReplay] using he) hOutside

end Outside

/-- What is true of the run that some cues give is true of a run that may come. -/
theorem leads_of_check (cues : List (Cue K H X)) (start : Scene K L S I M ρ)
    (check : List (Moment K L S I) → Scene K L S I M ρ → Bool)
    (h : (p.replay? cues start).any (fun x => check x.1 x.2) = true) :
    ∃ past s, t.Leads start past s ∧ check past s = true := by
  cases hReplay : p.replay? cues start with
  | none => simp [hReplay] at h
  | some x =>
    simp only [hReplay, Option.any_some] at h
    exact ⟨x.1, x.2, p.leads hReplay, h⟩

/-- Whether each moment that some cues give is as a rule asks for. -/
def isRuled (rule : Scene K L S I M ρ → Moment K L S I → Bool) : List (Cue K H X) → Scene K L S I M ρ → Bool
  | [], _ => true
  | cue :: rest, s =>
    match p.follow? s cue with
    | none => false
    | some (e, s') => rule s e && isRuled rule rest s'

theorem leadsBy {rule : Scene K L S I M ρ → Moment K L S I → Bool} {before : List (Moment K L S I)}
    {cues : List (Cue K H X)} (hBefore : t.LeadsBy (rule · ·) start before s) (hRuled : p.isRuled rule cues s = true)
    (h : p.replay? cues s = some (past, s')) : t.LeadsBy (rule · ·) start (before ++ past) s' := by
  induction cues generalizing before s past with
  | nil =>
    cases h
    rwa [List.append_nil]
  | cons cue rest ih =>
    obtain ⟨⟨e, s₁⟩, hFollow, h⟩ := Option.bind_eq_some_iff.mp h
    obtain ⟨⟨past₁, s₂⟩, hRest, h⟩ := Option.bind_eq_some_iff.mp h
    cases h
    rw [isRuled, hFollow] at hRuled
    obtain ⟨hHere, hRuled⟩ := Bool.and_eq_true_iff.mp hRuled
    rw [List.append_cons]
    exact ih (hBefore.snoc (p.happens hFollow) hHere) hRuled hRest

/-- What is true of the run that some cues give is true of a run that keeps to a rule, where each moment does. -/
theorem leadsBy_of_check (rule : Scene K L S I M ρ → Moment K L S I → Bool) (cues : List (Cue K H X))
    (start : Scene K L S I M ρ) (check : List (Moment K L S I) → Scene K L S I M ρ → Bool)
    (hRuled : p.isRuled rule cues start = true)
    (h : (p.replay? cues start).any (fun x => check x.1 x.2) = true) :
    ∃ past s, t.LeadsBy (rule · ·) start past s ∧ check past s = true := by
  cases hReplay : p.replay? cues start with
  | none => simp [hReplay] at h
  | some x =>
    simp only [hReplay, Option.any_some] at h
    exact ⟨x.1, x.2, p.leadsBy .nil hRuled hReplay, h⟩

end Script
end JvmDebug
