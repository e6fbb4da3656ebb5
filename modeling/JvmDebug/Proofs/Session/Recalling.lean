import JvmDebug.Proofs.Session.Minding

/-!
# The exception that stopped a thread last

What the client is told of a thread depends on two kinds of moments alone: those at which an exception of the thread is
noted, and those at which its exceptions are forgotten. The last of them tells, whatever happens to other threads.
-/

namespace JvmDebug.Session
set_option autoImplicit false

open Jdwp (ThreadId)

variable {told : (c : Call) → Answer c → Prop} {journal : Option Log.Journal} {past before after : List Happening}
  {e e' : Happening} {s s' : Scene Hand Job Session World Unit fun _ => Unit} {k : Hand} {job job' : Job} {t : ThreadId}
  {q : Dap.Request} {x y : Thrown} {found found' : Option Thrown}

/-! ## Moments -/

def Notes (t : ThreadId) (x : Thrown) (past : List Happening) (e : Happening) : Prop :=
  ∃ k job asked, e.turn = .goesOn k job asked ∧ job.notes t x (deeds k past)

/-- A job that is to do so leaves no exception of a thread behind. -/
def Forgets (t : ThreadId) (past : List Happening) (e : Happening) : Prop :=
  ∃ k job asked, e.turn = .goesOn k job asked ∧ job.mayForget t (deeds k past) ∧ lastThrown t e.after = none

/-- The exception of a thread that was noted last, and has not been forgotten since; or there is none. -/
def Latest (t : ThreadId) (past : List Happening) : Option Thrown → Prop
  | some x => ∃ before e after, past = before ++ e :: after ∧ Notes t x before e ∧ ∀ early e' late, after = early ++ e' :: late →
      (∀ y, ¬Notes t y (before ++ e :: early) e') ∧ ¬Forgets t (before ++ e :: early) e'
  | none => ∀ before e after x, past = before ++ e :: after → Notes t x before e →
      ∃ early e' late, after = early ++ e' :: late ∧ Forgets t (before ++ e :: early) e'

theorem Notes.unique (h : Notes t x past e) (h' : Notes t y past e) : x = y := by
  obtain ⟨k, job, asked, hTurn, rfl, -⟩ := h
  obtain ⟨k', job', asked', hTurn', rfl, -⟩ := h'
  cases hTurn.symm.trans hTurn'
  rfl

theorem Notes.not_forgets (h : Notes t x past e) : ¬Forgets t past e := by
  obtain ⟨k, job, asked, hTurn, rfl, -⟩ := h
  rintro ⟨k', job', asked', hTurn', hMay, -⟩
  cases hTurn.symm.trans hTurn'
  exact hMay

/-! ## One more moment -/

theorem latest_of_notes (h : Notes t x past e) : Latest t (past ++ [e]) (some x) :=
  ⟨past, e, [], rfl, h, by simp⟩

theorem latest_of_forgets (h : Forgets t past e) : Latest t (past ++ [e]) none := by
  intro before e' after x hCut hNotes
  rcases snoc_eq_cut.mp hCut with ⟨rfl, rfl, -⟩ | ⟨rest, rfl, rfl⟩
  · exact absurd h hNotes.not_forgets
  · exact ⟨rest, e, [], rfl, h⟩

theorem latest_snoc_iff (hNotes : ∀ x, ¬Notes t x past e) (hForgets : ¬Forgets t past e) :
    Latest t (past ++ [e]) found ↔ Latest t past found := by
  cases found with
  | some x =>
    constructor
    · rintro ⟨before, e', after, hCut, hHere, hSince⟩
      rcases snoc_eq_cut.mp hCut with ⟨rfl, rfl, -⟩ | ⟨rest, rfl, rfl⟩
      · exact absurd hHere (hNotes x)
      · refine ⟨before, e', rest, rfl, hHere, ?_⟩
        rintro early y late rfl
        exact hSince early y (late ++ [e]) (by simp)
    · rintro ⟨before, e', after, rfl, hHere, hSince⟩
      refine ⟨before, e', after ++ [e], by simp, hHere, ?_⟩
      intro early y late hCut
      rcases snoc_eq_cut.mp hCut with ⟨rfl, rfl, -⟩ | ⟨rest, rfl, rfl⟩
      · exact ⟨hNotes, hForgets⟩
      · exact hSince early y rest rfl
  | none =>
    constructor
    · rintro h before e' after x rfl hHere
      obtain ⟨early, y, late, hCut, hGone⟩ := h before e' (after ++ [e]) x (by simp) hHere
      rcases snoc_eq_cut.mp hCut with ⟨rfl, rfl, -⟩ | ⟨rest, rfl, rfl⟩
      · exact absurd hGone hForgets
      · exact ⟨early, y, rest, rfl, hGone⟩
    · intro h before e' after x hCut hHere
      rcases snoc_eq_cut.mp hCut with ⟨rfl, rfl, -⟩ | ⟨rest, rfl, rfl⟩
      · exact absurd hHere (hNotes x)
      · obtain ⟨early, y, late, rfl, hGone⟩ := h before e' rest x rfl hHere
        exact ⟨early, y, late ++ [e], by simp, hGone⟩

theorem eq_some_of_notes (hNotes : Notes t x past e) (h : Latest t (past ++ [e]) found) : found = some x := by
  cases found with
  | none =>
    obtain ⟨early, e', late, hCut, -⟩ := h past e [] x rfl hNotes
    simp at hCut
  | some y =>
    obtain ⟨before, e', after, hCut, hHere, hSince⟩ := h
    rcases snoc_eq_cut.mp hCut with ⟨rfl, rfl, -⟩ | ⟨rest, rfl, rfl⟩
    · rw [hHere.unique hNotes]
    · exact absurd hNotes ((hSince rest e [] rfl).1 x)

theorem eq_none_of_forgets (hForgets : Forgets t past e) (h : Latest t (past ++ [e]) found) : found = none := by
  cases found with
  | none => rfl
  | some y =>
    obtain ⟨before, e', after, hCut, hHere, hSince⟩ := h
    rcases snoc_eq_cut.mp hCut with ⟨rfl, rfl, -⟩ | ⟨rest, rfl, rfl⟩
    · exact absurd hForgets hHere.not_forgets
    · exact absurd hForgets (hSince rest e [] rfl).2

theorem Latest.unique (h : Latest t past found) (h' : Latest t past found') : found = found' := by
  induction past using List.reverseRecOn with
  | nil =>
    have hNone : ∀ {f}, Latest t [] f → f = none := by
      rintro (_ | x) h
      · rfl
      · obtain ⟨before, e, after, hCut, -⟩ := h
        simp at hCut
    rw [hNone h, hNone h']
  | append_singleton past e ih =>
    -- The last moment decides, or leaves the answer as it was.
    by_cases hNotes : ∃ x, Notes t x past e
    · obtain ⟨x, hNotes⟩ := hNotes
      rw [eq_some_of_notes hNotes h, eq_some_of_notes hNotes h']
    by_cases hForgets : Forgets t past e
    · rw [eq_none_of_forgets hForgets h, eq_none_of_forgets hForgets h']
    have hNone := not_exists.mp hNotes
    exact ih ((latest_snoc_iff hNone hForgets).mp h) ((latest_snoc_iff hNone hForgets).mp h')

/-! ## Along a run -/

theorem takes_lastThrown {state state' : Session} {r : Activity Unit} (h : Takes k job state r state') :
    lastThrown t state' = lastThrown t state := by
  cases h with
  | event => rfl
  | job hJob hTake =>
    cases taken_of_take hJob hTake with
    | forwarder hOutput =>
      unfold takeOutput at hOutput
      repeat' split at hOutput
      all_goals cases hOutput
      all_goals rfl
    | _ => rfl

theorem outside_lastThrown {state state' : Session} (h : Outside state state') : lastThrown t state' = lastThrown t state := by
  cases h with
  | dispatch q =>
    rw [dispatch_eq]
    cases route q.command <;> rfl
  | _ => rfl

/-- Nothing else changes what is known of a thread. -/
theorem Comes.lastThrown_step (h : Comes told journal past s) (hHappens : (setting told).Happens s e s') :
    (∃ x, Notes t x past e ∧ lastThrown t s'.state = some x) ∨ Forgets t past e ∧ lastThrown t s'.state = none ∨
      (∀ x, ¬Notes t x past e) ∧ lastThrown t s'.state = lastThrown t s.state := by
  have hKept := Setting.Leads.kept h (minds_accord told t) (fun _ => rfl) trivial
  have hNone : (∀ k job asked, e.turn ≠ .goesOn k job asked) → ∀ x, ¬Notes t x past e := by
    rintro hTurn x ⟨k, job, asked, hHere, -⟩
    exact hTurn k job asked hHere
  cases hHappens with
  | takesUp _ hTakes => exact .inr (.inr ⟨hNone (by simp), takes_lastThrown hTakes⟩)
  | isDone _ => exact .inr (.inr ⟨hNone (by simp), rfl⟩)
  | outside hOutside => exact .inr (.inr ⟨hNone (by simp), outside_lastThrown hOutside⟩)
  | @goesOn k job r r' asked state world hBusy hStep =>
    have hMinds : Minds t job (deeds k past) ⟨asked, s.state, state⟩ := (hKept.goes (minds_accord told t) hBusy hStep).1
    cases hMinds with
    | notes x hNotes hAfter => exact .inl ⟨x, ⟨k, job, asked, rfl, hNotes⟩, hAfter⟩
    | forgets hMay hAfter => exact .inr (.inl ⟨⟨k, job, asked, rfl, hMay, hAfter⟩, hAfter⟩)
    | keeps hNot hSame =>
      refine .inr (.inr ⟨?_, hSame⟩)
      rintro x ⟨k', job', asked', hTurn, hNotes⟩
      cases hTurn
      exact hNot x hNotes

/-- What a session knows of a thread is what was noted last, if it has not been forgotten since. -/
theorem Comes.latest (h : Comes told journal past s) : Latest t past (lastThrown t s.state) := by
  induction h with
  | nil =>
    intro before e after x hCut
    simp at hCut
  | @snoc past e s s' hBefore hHappens ih =>
    rcases Comes.lastThrown_step hBefore hHappens with ⟨x, hNotes, hAfter⟩ | ⟨hForgets, hAfter⟩ | ⟨hNot, hSame⟩
    · rw [hAfter]
      exact latest_of_notes hNotes
    · rw [hAfter]
      exact latest_of_forgets hForgets
    · -- A job that may forget and finds nothing known counts as one that forgets.
      by_cases hForgets : Forgets t past e
      · have hAfter : lastThrown t s'.state = none := by
          obtain ⟨-, -, -, -, -, hNone⟩ := hForgets
          rw [← hHappens.after]
          exact hNone
        rw [hAfter]
        exact latest_of_forgets hForgets
      · rw [hSame]
        exact (latest_snoc_iff hNot hForgets).mpr ih

/-! ## From the beginning of a job to its end -/

/-- What was done in a job was done at a moment between its beginning and its end. -/
theorem Comes.moment_of_deed (h : Comes told journal past s) (span : Span past k job) {did rest : List Act} {d : Act}
    (hCut : deeds k span.during = did ++ d :: rest) : ∃ early e late, span.during = early ++ e :: late ∧
      e.turn = .goesOn k job d.asked ∧ e.before = d.before ∧ e.after = d.after ∧
      deeds k (span.before ++ span.began :: early) = did := by
  obtain ⟨early, e, late, job', hDuring, hTurn, hBefore, hAfter, hDid⟩ := exists_of_deeds_eq hCut
  have hPast : past = (span.before ++ span.began :: early) ++ e :: (late ++ span.ended :: span.after) := by
    simp [span.past_eq, hDuring]
  rw [hPast] at h
  obtain ⟨m, m', hFirst, hHappens, -⟩ := Setting.Leads.around h
  have hSame : lastJob? k (span.before ++ span.began :: early) = some job :=
    lastJob?_of_takesUp span.takesUp fun x hx => span.same x (by simp [hDuring, hx])
  have hJob : job' = job := by
    cases hHappens with
    | goesOn hBusy _ =>
      cases hTurn
      exact Option.some.inj ((Setting.Leads.lastJob hFirst rfl hBusy).symm.trans hSame)
    | _ => cases hTurn
  refine ⟨early, e, late, hDuring, hJob ▸ hTurn, hBefore, hAfter, ?_⟩
  rw [deeds_of_takesUp span.takesUp, hDid]

/-- What a job has forgotten was forgotten at a moment between its beginning and its end. -/
theorem Comes.forgets_of_forgot (h : Comes told journal past s) (span : Span past k job) {may : List Act → Prop}
    (hAllowed : ∀ did, may did → job.mayForget t did) (hForgot : Forgot t may (deeds k span.during)) :
    ∃ early e late, span.during = early ++ e :: late ∧ may (deeds k (span.before ++ span.began :: early)) ∧
      Forgets t (span.before ++ span.began :: early) e := by
  obtain ⟨did, d, rest, hCut, hMay, hNone⟩ := hForgot
  obtain ⟨early, e, late, hDuring, hTurn, -, hAfter, rfl⟩ := h.moment_of_deed span hCut
  exact ⟨early, e, late, hDuring, hMay, k, job, _, hTurn, hAllowed _ hMay, hAfter ▸ hNone⟩

theorem serve_asking_prompt (hAsks : q.asksAfter t) : (serve q).Prompt := by
  obtain ⟨hCommand, -⟩ := hAsks
  have hNamed : serveNamed q = withThread q serveExceptionInfo := by
    unfold serveNamed
    rw [hCommand]
    rfl
  refine serve_prompt ?_ ?_
  · rw [hNamed]
    refine Attempt.prompt_bind (w := require _) trivial fun n => Attempt.prompt_bind (fun _ => trivial) fun found => ?_
    cases found <;> trivial
  · unfold follow
    rw [hCommand]
    rfl

/-- What a client that asks after an exception is told, whatever the workers do in between each other. -/
structure Recalls (told : (c : Call) → Answer c → Prop) (past : List Happening)
    (now : Scene Hand Job Session World Unit fun _ => Unit) : Prop where
  /-- A request that asks comes to its end by itself. -/
  ends : ∀ k q t r, q.asksAfter t → now.busy k = some (.request q, r) → (setting told).Ends k (.request q) now
  /-- It tells of the exception that was noted last and has not been forgotten since; if there is none, it says so. -/
  answered : ∀ k q t (span : Span past k (.request q)), q.asksAfter t → ∃ early looks late found,
    span.during = early ++ looks :: late ∧ Latest t (span.before ++ span.began :: early) found ∧
      (∀ other, Latest t (span.before ++ span.began :: early) other → other = found) ∧
      responsesBy k span.during = [.of q (.ok (some (shownException found)))] ∧
      (shownException found = Dap.ExceptionView.unknown ↔ found = none)
  /-- An exception that was heard of was noted. -/
  noted : ∀ k t x (span : Span past k (.event (.exceptionThrown t x))), ∃ early e late,
    span.during = early ++ e :: late ∧ Notes t x (span.before ++ span.began :: early) e
  /-- The exceptions of a thread that runs or is gone were forgotten. -/
  forgotten : ∀ k job t (span : Span past k job), job.hasForgotten t (deeds k span.during) → ∃ early e late,
    span.during = early ++ e :: late ∧ Forgets t (span.before ++ span.began :: early) e
  /-- Where a thread could not be resumed on its own, this was done again after that, and for all threads. -/
  fallen : ∀ k q t (span : Span past k (.request q)), fellBack (deeds k span.during) → ∃ early e late,
    span.during = early ++ e :: late ∧ fellBack (deeds k (span.before ++ span.began :: early)) ∧
      Forgets t (span.before ++ span.began :: early) e

theorem recalls (h : Comes told journal past s) : Recalls told past s where
  ends k q t r hAsks hBusy := h.ends_of_prompt (p := (·.asksAfter t)) (fun _ => serve_asking_prompt) hAsks hBusy
  answered k q t span hAsks := by
    obtain ⟨-, hMinded⟩ := h.done_as (minds_accord told t) trivial span
    obtain ⟨d, hd, hResponses⟩ := hMinded.told q rfl hAsks
    obtain ⟨did, rest, hCut⟩ := List.append_of_mem hd
    obtain ⟨early, e, late, hDuring, hTurn, hBefore, hAfter, -⟩ := h.moment_of_deed span hCut
    have hPast : past = (span.before ++ span.began :: early) ++ e :: (late ++ span.ended :: span.after) := by
      simp [span.past_eq, hDuring]
    -- It is told what is known when it looks; what comes later in the job makes no difference.
    have hLatest : Latest t (span.before ++ span.began :: early) (lastThrown t d.before) := by
      rw [hPast] at h
      obtain ⟨m, m', hFirst, hHappens, -⟩ := Setting.Leads.around h
      rw [← hBefore, hHappens.before]
      exact Comes.latest hFirst
    exact ⟨early, e, late, _, hDuring, hLatest, fun _ hOther => hOther.unique hLatest, hResponses,
      shownException_eq_unknown_iff _⟩
  noted k t x span := by
    obtain ⟨-, hMinded⟩ := h.done_as (minds_accord told t) trivial span
    obtain ⟨d, rest, hFirst⟩ := List.exists_cons_of_ne_nil (hMinded.begun x rfl)
    have hCut : deeds k span.during = [] ++ d :: rest := hFirst
    obtain ⟨early, e, late, hDuring, hTurn, -, -, hDid⟩ := h.moment_of_deed span hCut
    exact ⟨early, e, late, hDuring, k, _, _, hTurn, rfl, hDid⟩
  forgotten k job t span hForgotten := by
    obtain ⟨-, hMinded⟩ := h.done_as (minds_accord told t) trivial span
    obtain ⟨early, e, late, hDuring, -, hForgets⟩ := h.forgets_of_forgot span (fun _ => id) (hMinded.forgot hForgotten)
    exact ⟨early, e, late, hDuring, hForgets⟩
  fallen k q t span hFallen := by
    obtain ⟨-, hMinded⟩ := h.done_as (minds_accord told t) trivial span
    obtain ⟨early, e, late, hDuring, ⟨hBack, -⟩, hForgets⟩ :=
      h.forgets_of_forgot span (fun _ h => h.2) (hMinded.fallen q rfl hFallen)
    exact ⟨early, e, late, hDuring, hBack, hForgets⟩

/-! Two threads have thrown. One of them is let run, and only its exception is forgotten. -/

section TwoThrown

/-- A debuggee whose threads can be resumed one by one. -/
def resumable : (c : Call) → Option (Answer c)
  | .files => some (.folder [])
  | .attach .. => some (.ok 7)
  | .drive _ .threads => some (.ok [])
  | .drive _ (.resume _) => some (.ok .resumed)
  | _ => none

def throws (n : Nat) (t : ThreadId) (name : String) : List (Cue Hand (Option DebugEvent) Dap.Request) :=
  [.takesUp (.event n) (some (.exceptionThrown t ⟨"thrown", none, name, name, false⟩)), .goesOn (.event n), .goesOn (.event n),
    .isDone (.event n)]

def ofThread (seq : Int) (command : String) (t : Int) : Dap.Request := ⟨seq, command, some (.obj [("threadId", .int t)])⟩

def oneRunsOn : List (Cue Hand (Option DebugEvent) Dap.Request) :=
  [.outside attachRequest] ++ works .launcherLane 11 ++ [.isDone (.worker .launcherLane)] ++ throws 0 1 "A" ++ throws 1 2 "B" ++
    servedAlone (ofThread 2 "exceptionInfo" 1) 4 ++ servedAlone (ofThread 3 "continue" 1) 8 ++
    servedAlone (ofThread 4 "exceptionInfo" 1) 4 ++ servedAlone (ofThread 5 "exceptionInfo" 2) 4

theorem recalls_two_thrown : ∃ past now, Comes (fun c a => resumable c = some a) none past now ∧
    Recalls (fun c a => resumable c = some a) past now ∧
    (Dap.responses now.state.outbox).map (fun r => (r.requestSeq, (r.body.bind (·.get? "exceptionId")).bind Json.string?)) =
      [(1, none), (2, some "A"), (3, none), (4, some "unknown"), (5, some "B")] := by
  have hLeads := (script resumable fun _ _ => id).leads_ending oneRunsOn (fresh none)
  refine ⟨_, _, hLeads, recalls hLeads, ?_⟩
  decide +kernel

end TwoThrown

end JvmDebug.Session
