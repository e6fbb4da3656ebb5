import JvmDebug.Proofs.Session.Accounting
import JvmDebug.Proofs.Session.Lifetime
import JvmDebug.Proofs.Session.Sparing

/-!
# What jobs do with exceptions

An exception is noted when the session hears of it, before anything else is done about it. It is forgotten when its thread
is gone, and by a request that lets the thread run: after a debuggee has been found, and before it is asked. Nothing else
changes what is known of the exceptions of a thread.
-/

namespace JvmDebug.Session
set_option autoImplicit false

open Jdwp (ThreadId)

/-- The exception that a session tells of a thread. -/
def lastThrown (t : ThreadId) (s : Session) : Option Thrown := s.exceptions.latest? t

def Silent (did : List Act) : Prop := ∀ x ∈ did, x.asked = none

/-- What an event does first, if an exception was thrown. -/
def Job.notes (t : ThreadId) (e : Thrown) (did : List Act) (job : Job) : Prop :=
  job = .event (.exceptionThrown t e) ∧ did = []

/-- Whether a job may forget what a thread has thrown, after what it has done. -/
def Job.mayForget (t : ThreadId) (did : List Act) : Job → Prop
  | .request q =>
    Silent did ∧ (q.resumes t ∧ (∃ x ∈ did, x.before.debuggee.isSome) ∨ q.command = "disconnect") ∨
      fellBack did ∧ ∀ x ∈ did, ∀ d a, x.asked ≠ asked d .resumeAll a
  | .event e => ends t e
  | .run .. | .forward _ => False

/-- Whether a job was to forget it, after all that it has done. A request that has asked for something had a debuggee. -/
def Job.hasForgotten (t : ThreadId) (did : List Act) : Job → Prop
  | .request q => q.resumes t ∧ ¬Silent did ∨ HasFreed q did t
  | .event e => ends t e
  | .run .. | .forward _ => False

/-- It was forgotten at some step, after such things had been done. -/
def Forgot (t : ThreadId) (may : List Act → Prop) (did : List Act) : Prop :=
  ∃ early x late, did = early ++ x :: late ∧ may early ∧ lastThrown t x.after = none

abbrev Job.forgot (t : ThreadId) (did : List Act) (job : Job) : Prop := Forgot t (job.mayForget t) did

/-- It was forgotten after all because a thread could not be resumed on its own. -/
abbrev Job.forgotAll (t : ThreadId) (did : List Act) (job : Job) : Prop :=
  Forgot t (fun early => fellBack early ∧ job.mayForget t early) did

/-- One step of a job. -/
inductive Minds (t : ThreadId) (job : Job) (did : List Act) (x : Act) : Prop where
  | keeps : (∀ e, ¬job.notes t e did) → lastThrown t x.after = lastThrown t x.before → Minds t job did x
  | notes (e : Thrown) : job.notes t e did → lastThrown t x.after = some e → Minds t job did x
  | forgets : job.mayForget t did → lastThrown t x.after = none → Minds t job did x

def shownException : Option Thrown → Json
  | some e => (exceptionView e).json
  | none => Dap.ExceptionView.unknown

theorem shownException_eq_unknown_iff (found : Option Thrown) :
    shownException found = Dap.ExceptionView.unknown ↔ found = none := by
  cases found with
  | none => simp [shownException]
  | some e =>
    have hShown : (shownException (some e)).get? "details" = some (exceptionView e).detailsJson := by
      simp [shownException, Dap.ExceptionView.json, Json.get?_object]
    have hUnknown : Dap.ExceptionView.unknown.get? "details" = none := Json.get?_object_of_absent (by simp)
    refine ⟨?_, nofun⟩
    intro hSame
    rw [hSame, hUnknown] at hShown
    cases hShown

end Session

/-- Whether a request asks after the exception that stopped a thread. -/
def Dap.Request.asksAfter (q : Dap.Request) (t : Jdwp.ThreadId) : Prop :=
  q.command = "exceptionInfo" ∧ ∃ n, q.argumentsAs Dap.threadArgument = .ok n ∧ threadFromClient n = t

namespace Session

open Jdwp (ThreadId)

def responsesIn (did : List Act) : List Dap.Response := did.flatMap fun x => Dap.responses (added x.before.outbox x.after.outbox)

/-- What holds of a job that is done. -/
structure Minded (t : ThreadId) (job : Job) (did : List Act) : Prop where
  begun : ∀ e, job = .event (.exceptionThrown t e) → did ≠ []
  forgot : job.hasForgotten t did → job.forgot t did
  fallen : ∀ q, job = .request q → fellBack did → job.forgotAll t did
  told : ∀ q, job = .request q → q.asksAfter t →
    ∃ x ∈ did, responsesIn did = [.of q (.ok (some (shownException (lastThrown t x.before))))]

def minding (t : ThreadId) (job : Job) : Terms Session World where
  others _ _ := True
  refl _ := trivial
  trans _ _ := trivial
  asks _ _ _ := True
  does := Minds t job
  keep := keep

/-! ## Steps -/

variable {told : (c : Call) → Answer c → Prop} {t u : ThreadId} {job : Job} {q : Dap.Request} {did did' : List Act} {x : Act}
  {s s' : Session} {calls : Call → Prop} {α β : Type}

theorem Silent.snoc (h : Silent did) (hx : x.asked = none) : Silent (did ++ [x]) := by
  intro y hy
  rcases List.mem_append.mp hy with hy | hy
  · exact h y hy
  · rw [List.mem_singleton.mp hy, hx]

theorem Silent.not_fellBack (h : Silent did) : ¬fellBack did := by
  rintro ⟨x, hx, d, u, hAsked⟩
  simp [h x hx] at hAsked

theorem Silent.not_fellBack_snoc (h : Silent did) (hAsked : ∀ d t, x.asked ≠ asked d (.resume t) (.ok .threadUnavailable)) :
    ¬fellBack (did ++ [x]) := by
  rintro hFallen
  rcases fellBack_snoc.mp hFallen with hFallen | ⟨d, u, hHere⟩
  · exact h.not_fellBack hFallen
  · exact hAsked d u hHere

theorem Forgot.mono {may : List Act → Prop} (hMore : did <+: did') (h : Forgot t may did) : Forgot t may did' := by
  obtain ⟨early, x, late, rfl, hMay, hNone⟩ := h
  obtain ⟨rest, rfl⟩ := hMore
  exact ⟨early, x, late ++ rest, by simp, hMay, hNone⟩

theorem forgot_snoc {may : List Act → Prop} (hMay : may did) (hNone : lastThrown t x.after = none) : Forgot t may (did ++ [x]) :=
  ⟨did, x, [], rfl, hMay, hNone⟩

theorem request_notes_nothing (e : Thrown) : ¬(Job.request q).notes t e did := nofun

theorem exceptions_keep (r : Log.Record) (s : Session) : (keep r s).exceptions = s.exceptions :=
  congrArg Memory.exceptions (memory_keep r s)

def leaving (calls : Call → Prop) : Bounds Session World := ⟨fun s s' => s'.exceptions = s.exceptions, calls, keep⟩

theorem allows_leaving (hNot : ¬job.excepts) : Allows job (leaving job.leave.calls) where
  stays _ := rfl
  notes := exceptions_keep
  journal _ _ := rfl
  calls _ := id
  tells _ _ _ := rfl
  phase _ _ _ := rfl
  forwards _ _ _ := rfl
  views _ _ _ := rfl
  numbers _ _ _ := rfl
  exceptions hExcepts := absurd hExcepts hNot
  sets _ _ _ _ := rfl
  filters _ _ := rfl
  subscribes _ _ := rfl
  replaces _ _ := rfl
  installs _ _ _ := rfl
  enlists _ _ _ _ := rfl
  loses _ _ := rfl
  clears _ _ := rfl

theorem plain_leaving : Plain (leaving calls) where
  stays _ := rfl
  notes := exceptions_keep
  journal _ _ := rfl

/-- What leaves the exceptions as they are is no matter, as long as it is not the first thing to be done about one. -/
theorem minds_of_leaving {r : Activity α} {yields : α → Prop} (h : r.Within (leaving calls) yields) (keeps : List Act → Prop)
    (hNot : ∀ {did}, keeps did → ∀ e, ¬job.notes t e did)
    (hKeeps : ∀ {did x}, keeps did → (∀ c ∈ x.asked, calls c.1) → keeps (did ++ [x])) (hHere : keeps did) :
    r.Heeds (minding t job) (fun a did' _ => yields a ∧ keeps did') did s := by
  refine h.heeds (fun did' _ => keeps did') rfl (fun h _ _ => h) ?_ (fun _ _ _ => trivial) hHere
  intro did asked s s' hHere _ hSame hCalls
  exact ⟨.keeps (hNot hHere) (congrArg (Handles.latest? · t) hSame), hKeeps hHere hCalls⟩

section Request

variable {post : Except Error β → List Act → Session → Prop}

theorem minds_pure {a : β} {post : β → List Act → Session → Prop} (h : ∀ s, post a did s) :
    (pure a : Activity β).Heeds (minding t job) post did s := fun s' _ _ => h s'

theorem minds_note {r : Log.Record} {k : Unit → Work β}
    (h : ∀ s', (k ()).run.Heeds (minding t (.request q)) post (did ++ [⟨none, s', keep r s'⟩]) (keep r s')) :
    (act (.note r (.done ())) >>= k).run.Heeds (minding t (.request q)) post did s :=
  fun s' _ _ => ⟨.keeps request_notes_nothing (congrArg (Handles.latest? · t) (exceptions_keep r s')), h s'⟩

theorem minds_alterGet {f : Session → α × Session} {k : α → Work β} (hSame : ∀ s, (f s).2.exceptions = s.exceptions)
    (h : ∀ s', (k (f s').1).run.Heeds (minding t (.request q)) post (did ++ [⟨none, s', (f s').2⟩]) (f s').2) :
    (alterGet f >>= k).run.Heeds (minding t (.request q)) post did s :=
  fun s' _ _ => ⟨.keeps request_notes_nothing (congrArg (Handles.latest? · t) (hSame s')), h s'⟩

theorem minds_theDebuggee {k : DebuggeeId → Work β}
    (hNone : ∀ s', s'.debuggee = none → ∀ s, post (.error .noDebuggee) (did ++ [⟨none, s', s'⟩]) s)
    (hSome : ∀ d s', s'.debuggee = some d → (k d).run.Heeds (minding t (.request q)) post (did ++ [⟨none, s', s'⟩]) s') :
    (theDebuggee >>= k).run.Heeds (minding t (.request q)) post did s := by
  unfold theDebuggee
  rw [bind_assoc]
  refine minds_alterGet (f := fun s => (s.debuggee, s)) (fun _ => rfl) fun s' => ?_
  cases hDebuggee : s'.debuggee with
  | none => exact minds_pure (hNone s' hDebuggee)
  | some d => exact hSome d s' hDebuggee

theorem minds_releaseThread {k : Unit → Work β} (hSilent : Silent did) (hPresent : ∃ x ∈ did, x.before.debuggee.isSome)
    (hResumes : u = t → q.resumes t)
    (h : ∀ did' s', did <+: did' → Silent did' → (u = t → (Job.request q).forgot t did') →
      (k ()).run.Heeds (minding t (.request q)) post did' s') :
    (act (releaseThread u) >>= k).run.Heeds (minding t (.request q)) post did s := by
  -- Frames and variables go first, and the exception in a step of its own.
  intro s₁ _ _
  refine ⟨.keeps request_notes_nothing rfl, ?_⟩
  intro s₂ _ _
  refine ⟨.keeps request_notes_nothing rfl, ?_⟩
  intro s₃ _ _
  let did₂ := did ++ [⟨none, s₁, { s₁ with view := s₁.view.releaseFrames u }⟩] ++
    [⟨none, s₂, { s₂ with view := s₂.view.releaseVariables u }⟩]
  have hSilent₂ : Silent did₂ := (hSilent.snoc rfl).snoc rfl
  have hMore : did <+: did₂ := prefix_snoc (prefix_snoc List.prefix_rfl)
  have hMay : u = t → (Job.request q).mayForget t did₂ := by
    intro hSame
    obtain ⟨x, hx, hSome⟩ := hPresent
    exact .inl ⟨hSilent₂, .inl ⟨hResumes hSame, x, hMore.subset hx, hSome⟩⟩
  have hGone : u = t → lastThrown t { s₃ with exceptions := s₃.exceptions.release u } = none := by
    rintro rfl
    exact Handles.latest?_release ..
  refine ⟨?_, h _ _ (prefix_snoc hMore) (hSilent₂.snoc rfl) fun hSame => forgot_snoc (hMay hSame) (hGone hSame)⟩
  by_cases hSame : u = t
  · exact .forgets (hMay hSame) (hGone hSame)
  · exact .keeps request_notes_nothing (Handles.latest?_release_of_ne hSame)

theorem minds_releaseAll {k : Unit → Work β} (may : List Act → Prop) (hMay : ∀ x, x.asked = none → may (did ++ [x]))
    (hAllowed : ∀ did', may did' → (Job.request q).mayForget t did')
    (h : ∀ did' s', did <+: did' → (Silent did → Silent did') → Forgot t may did' →
      (k ()).run.Heeds (minding t (.request q)) post did' s') :
    (act releaseAll >>= k).run.Heeds (minding t (.request q)) post did s := by
  intro s₁ _ _
  refine ⟨.keeps request_notes_nothing rfl, ?_⟩
  intro s₂ _ _
  have hGone : lastThrown t { s₂ with exceptions := s₂.exceptions.releaseAll } = none := Handles.latest?_releaseAll ..
  refine ⟨.forgets (hAllowed _ (hMay _ rfl)) hGone, h _ _ (prefix_snoc (prefix_snoc List.prefix_rfl)) ?_ ?_⟩
  · exact fun hSilent => (hSilent.snoc rfl).snoc rfl
  · exact forgot_snoc (hMay _ rfl) hGone

/-! ## Requests -/

/-- A request has forgotten what it was to forget. -/
structure Settled (t : ThreadId) (q : Dap.Request) (did : List Act) : Prop where
  forgot : (Job.request q).hasForgotten t did → (Job.request q).forgot t did
  fallen : fellBack did → (Job.request q).forgotAll t did

/-- A step that asks nothing gives nothing more to forget. -/
theorem Settled.snoc (h : Settled t q did) (hAsked : x.asked = none) : Settled t q (did ++ [x]) where
  forgot hForgotten := by
    refine (h.forgot ?_).mono (prefix_snoc List.prefix_rfl)
    rcases hForgotten with ⟨hResumes, hSpoken⟩ | hFreed
    · exact .inl ⟨hResumes, fun hSilent => hSpoken (hSilent.snoc hAsked)⟩
    · exact .inr (hFreed.of_snoc (by simp [hAsked]))
  fallen hFallen := by
    rcases fellBack_snoc.mp hFallen with hFallen | ⟨d, u, hHere⟩
    · exact (h.fallen hFallen).mono (prefix_snoc List.prefix_rfl)
    · simp [hAsked] at hHere

theorem Silent.settled (hSilent : Silent did) (hForgot : HasFreed q did t → (Job.request q).forgot t did) : Settled t q did where
  forgot := by
    rintro (⟨-, hSpoken⟩ | hFreed)
    · exact absurd hSilent hSpoken
    · exact hForgot hFreed
  fallen hFallen := absurd hFallen hSilent.not_fellBack

theorem Settled.minded (h : Settled t q did)
    (hTold : q.asksAfter t → ∃ x ∈ did, responsesIn did = [.of q (.ok (some (shownException (lastThrown t x.before))))]) :
    Minded t (.request q) did where
  begun := nofun
  forgot := h.forgot
  fallen _ _ := h.fallen
  told := by
    rintro _ ⟨⟩ hAsks
    exact hTold hAsks

/-- What was forgotten for all threads was forgotten for each. -/
theorem settled_of_all (h : (Job.request q).forgotAll t did) : Settled t q did where
  forgot _ := by
    obtain ⟨early, x, late, hCut, ⟨-, hMay⟩, hNone⟩ := h
    exact ⟨early, x, late, hCut, hMay, hNone⟩
  fallen _ := h

/-- Where no debuggee is found, nothing is to be forgotten. -/
theorem settled_of_none (hSilent : Silent did) (hDisconnect : q.command ≠ "disconnect") (s' : Session) (hNone : s'.debuggee = none)
    (_ : Session) : Settled t q (did ++ [⟨none, s', s'⟩]) := by
  refine (hSilent.snoc rfl).settled ?_
  rintro (⟨-, hPresent⟩ | hHere | hFallen)
  · simpa [hNone] using hPresent _ (List.mem_concat_self ..)
  · exact absurd hHere hDisconnect
  · exact absurd hFallen (hSilent.snoc rfl).not_fellBack

theorem settled_of_forgot (hNotFallen : ¬fellBack did) (hResumes : ∀ v, q.resumes v ↔ v = u) (hDisconnect : q.command ≠ "disconnect")
    (hForgot : u = t → (Job.request q).forgot t did) : Settled t q did where
  forgot := by
    rintro (⟨hHere, -⟩ | ⟨hHere, -⟩ | hHere | hFallen)
    · exact hForgot ((hResumes t).mp hHere).symm
    · exact hForgot ((hResumes t).mp hHere).symm
    · exact absurd hHere hDisconnect
    · exact absurd hFallen hNotFallen
  fallen hFallen := absurd hFallen hNotFallen

theorem minds_serveStep {kind : StepKind} (hSilent : Silent did) (hResumes : ∀ v, q.resumes v ↔ v = u)
    (hDisconnect : q.command ≠ "disconnect") :
    (serveStep u kind).run.Heeds (minding t (.request q)) (fun _ did' _ => Settled t q did') did s := by
  refine minds_theDebuggee (settled_of_none hSilent hDisconnect) ?_
  intro d s₁ hSome
  refine minds_releaseThread (hSilent.snoc rfl) ⟨_, List.mem_concat_self .., by simp [hSome]⟩ (fun h => (hResumes t).mpr h.symm) ?_
  intro did₂ s₂ _ hSilent₂ hForgot s₃ _ _
  refine ⟨trivial, ?_⟩
  rintro a -
  refine ⟨.keeps request_notes_nothing rfl, ?_⟩
  have hSettled : Settled t q (did₂ ++ [⟨asked d (.step u kind) a, s₃, s₃⟩]) :=
    settled_of_forgot (hSilent₂.not_fellBack_snoc fun _ _ => nofun) hResumes hDisconnect fun hSame =>
      (hForgot hSame).mono (prefix_snoc List.prefix_rfl)
  rcases a with e | _
  · exact minds_pure fun _ => hSettled
  · exact minds_pure fun _ => hSettled

theorem minds_serveContinue (hSilent : Silent did) (hResumes : ∀ v, q.resumes v ↔ v = u) (hDisconnect : q.command ≠ "disconnect") :
    (serveContinue u).run.Heeds (minding t (.request q)) (fun _ did' _ => Settled t q did') did s := by
  refine minds_theDebuggee (settled_of_none hSilent hDisconnect) ?_
  intro d s₁ hSome
  refine minds_releaseThread (hSilent.snoc rfl) ⟨_, List.mem_concat_self .., by simp [hSome]⟩ (fun h => (hResumes t).mpr h.symm) ?_
  intro did₂ s₂ _ hSilent₂ hForgot s₃ _ _
  refine ⟨trivial, ?_⟩
  rintro a -
  refine ⟨.keeps request_notes_nothing rfl, ?_⟩
  have hSettled : ∀ {a}, a ≠ .ok .threadUnavailable → Settled t q (did₂ ++ [⟨asked d (.resume u) a, s₃, s₃⟩]) := by
    intro a hOther
    refine settled_of_forgot (hSilent₂.not_fellBack_snoc ?_) hResumes hDisconnect fun hSame => ?_
    · rintro _ _ ⟨⟩
      exact hOther rfl
    · exact (hForgot hSame).mono (prefix_snoc List.prefix_rfl)
  rcases a with e | (_ | _)
  · exact minds_pure fun _ => hSettled nofun
  · exact minds_pure fun _ => hSettled nofun
  -- The thread cannot run on its own, so all threads are forgotten before all of them are let run.
  have hBack : fellBack (did₂ ++ [⟨asked d (.resume u) (.ok .threadUnavailable), s₃, s₃⟩]) :=
    fellBack_snoc.mpr (.inr ⟨d, u, rfl⟩)
  change (act (debug _) >>= fun _ => act releaseAll >>= fun _ => demand (drive d .resumeAll) >>= fun _ =>
    (return some (Json.object [("allThreadsContinued", .bool true)]) : Work _)).run.Heeds _ _ _ _
  refine minds_note fun s₄ => ?_
  have hStill : ∀ {did' : List Act} {x}, fellBack did' → fellBack (did' ++ [x]) := fun h => fellBack_snoc.mpr (.inl h)
  refine minds_releaseAll (fun early => fellBack early ∧ (Job.request q).mayForget t early) ?_ (fun _ h => h.2) ?_
  · intro x hx
    refine ⟨hStill (hStill hBack), .inr ⟨hStill (hStill hBack), ?_⟩⟩
    intro y hy d' a hAsked
    simp only [List.mem_append, List.mem_singleton] at hy
    rcases hy with ((hy | rfl) | rfl) | rfl
    · simp [hSilent₂ y hy] at hAsked
    · cases hAsked
    · cases hAsked
    · simp [hx] at hAsked
  intro did₄ s₅ _ _ hForgot₄ s₆ _ _
  refine ⟨trivial, ?_⟩
  rintro a -
  refine ⟨.keeps request_notes_nothing rfl, ?_⟩
  have hSettled₄ : Settled t q (did₄ ++ [⟨asked d .resumeAll a, s₆, s₆⟩]) :=
    settled_of_all (hForgot₄.mono (prefix_snoc List.prefix_rfl))
  rcases a with e | _
  · exact minds_pure fun _ => hSettled₄
  · exact minds_pure fun _ => hSettled₄

theorem minds_serveDisconnect (hSilent : Silent did) (hDisconnect : q.command = "disconnect") :
    serveDisconnect.run.Heeds (minding t (.request q)) (fun _ did' _ => Settled t q did') did s := by
  refine minds_alterGet (f := fun s => ((), { s with phase := s.phase.release })) (fun _ => rfl) fun s₁ => ?_
  refine minds_alterGet (f := fun s => ((), replaceSubscriptions [] s)) (fun _ => rfl) fun s₂ => ?_
  refine minds_alterGet (f := takeDebuggee) (fun _ => rfl) fun s₃ => ?_
  refine minds_releaseAll ((Job.request q).mayForget t) ?_ (fun _ h => h) ?_
  · exact fun x hx => .inl ⟨(((hSilent.snoc rfl).snoc rfl).snoc rfl).snoc hx, .inr hDisconnect⟩
  intro did₄ s₄ _ hSilent₄ hForgot
  have hSilent₅ : Silent did₄ := hSilent₄ (((hSilent.snoc rfl).snoc rfl).snoc rfl)
  cases (takeDebuggee s₃).1 with
  | none => exact minds_pure fun _ => hSilent₅.settled fun _ => hForgot
  | some d =>
    intro s₅ _ _
    refine ⟨trivial, ?_⟩
    rintro a -
    refine ⟨.keeps request_notes_nothing rfl, ?_⟩
    have hAsked : Settled t q (did₄ ++ [⟨asked d .disconnect a, s₅, s₅⟩]) :=
      ⟨fun _ => hForgot.mono (prefix_snoc List.prefix_rfl), fun hFallen =>
        absurd hFallen (hSilent₅.not_fellBack_snoc fun _ _ => nofun)⟩
    rcases a with e | _
    · change (if !e.isDisconnect then throw e >>= fun (_ : PUnit) => act (debug _) >>= fun _ => pure none
        else act (debug _) >>= fun _ => pure none : Work (Option Json)).run.Heeds _ _ _ _
      split
      · exact minds_pure fun _ => hAsked
      · exact minds_note fun s₆ => minds_pure fun _ => hAsked.snoc rfl
    · exact minds_pure fun _ => hAsked

theorem minds_withThread {serve : ThreadId → Work (Option Json)} (hSilent : Silent did)
    (hCommand : q.command ∈ ["continue", "next", "stepIn", "stepOut"])
    (h : ∀ u, (∀ v, q.resumes v ↔ v = u) → q.command ≠ "disconnect" →
      (serve u).run.Heeds (minding t (.request q)) (fun _ did' _ => Settled t q did') did s) :
    (withThread q serve).run.Heeds (minding t (.request q)) (fun _ did' _ => Settled t q did') did s := by
  have hDisconnect : q.command ≠ "disconnect" := by
    rintro hEq
    simp [hEq] at hCommand
  unfold withThread withArguments
  cases hArguments : q.argumentsAs Dap.threadArgument with
  | error e =>
    refine minds_pure fun _ => hSilent.settled ?_
    rintro (⟨⟨-, n, hGood, -⟩, -⟩ | hHere | hFallen)
    · cases hArguments.symm.trans hGood
    · exact absurd hHere hDisconnect
    · exact absurd hFallen hSilent.not_fellBack
  | ok n => exact h _ (fun v => by simp [Dap.Request.resumes, hCommand, hArguments, eq_comm]) hDisconnect

theorem minds_serveNamed (hSilent : Silent did) (hExcepts : (Job.request q).excepts) :
    (serveNamed q).run.Heeds (minding t (.request q)) (fun _ did' _ => Settled t q did') did s := by
  have hCommand : q.command ∈ ["continue", "next", "stepIn", "stepOut", "disconnect"] := hExcepts
  unfold serveNamed
  split
  case h_8 hHere =>
    exact minds_withThread hSilent (by simp [hHere]) fun u hResumes hOther => minds_serveContinue hSilent hResumes hOther
  case h_9 hHere =>
    exact minds_withThread hSilent (by simp [hHere]) fun u hResumes hOther => minds_serveStep hSilent hResumes hOther
  case h_10 hHere =>
    exact minds_withThread hSilent (by simp [hHere]) fun u hResumes hOther => minds_serveStep hSilent hResumes hOther
  case h_11 hHere =>
    exact minds_withThread hSilent (by simp [hHere]) fun u hResumes hOther => minds_serveStep hSilent hResumes hOther
  case h_19 hHere => exact minds_serveDisconnect hSilent hHere
  all_goals simp_all

end Request

theorem minds_excepting (hSilent : Silent did) (hExcepts : (Job.request q).excepts) :
    (serve q).Heeds (minding t (.request q)) (fun _ did' _ => Minded t (.request q) did') did s := by
  have hAsks : ∀ u, ¬q.asksAfter u := by
    rintro u ⟨hCommand, -⟩
    simp [Job.excepts, hCommand] at hExcepts
  have hAnswer : (answer q).run.Heeds (minding t (.request q)) (fun _ did' _ => Settled t q did') did s :=
    minds_note fun _ => minds_serveNamed (hSilent.snoc rfl) hExcepts
  refine Routine.Heeds.bind (hAnswer.mono ?_)
  intro result did₁ s₁ hSettled
  have hReply := plain_leaving.reply (b := leaving fun _ => False) (fun _ _ _ => rfl) (fun _ => rfl) q result
  refine (minds_of_leaving hReply (Settled t q) (fun _ => request_notes_nothing) ?_ hSettled).mono ?_
  · intro did x hSettled hCalls
    exact hSettled.snoc (Option.eq_none_iff_forall_not_mem.mpr hCalls)
  · rintro _ did' _ ⟨-, hSettled⟩
    exact hSettled.minded fun hHere => absurd hHere (hAsks t)

theorem responsesIn_snoc : responsesIn (did ++ [x]) = responsesIn did ++ Dap.responses (added x.before.outbox x.after.outbox) := by
  simp [responsesIn]

theorem responsesIn_keep (r : Log.Record) : responsesIn (did ++ [⟨none, s, keep r s⟩]) = responsesIn did := by
  rw [responsesIn_snoc, responses_added_keep, List.append_nil]

/-- A request is about to be answered with the exception that it has seen. -/
structure Seen (t : ThreadId) (did : List Act) (result : Except Error (Option Json)) : Prop where
  silent : Silent did
  unanswered : responsesIn did = []
  found : ∃ x ∈ did, result = .ok (some (shownException (lastThrown t x.before)))

theorem minds_answer_asking (hSilent : Silent did) (hUnanswered : responsesIn did = []) (hAsks : q.asksAfter t) :
    (answer q).run.Heeds (minding t (.request q)) (fun result did' _ => Seen t did' result) did s := by
  obtain ⟨hCommand, n, hArguments, rfl⟩ := hAsks
  have hNamed : serveNamed q = serveExceptionInfo (threadFromClient n) := by
    unfold serveNamed
    rw [hCommand]
    change withThread q serveExceptionInfo = _
    rw [withThread, withArguments, hArguments]
    rfl
  refine minds_note fun s₁ => ?_
  rw [hNamed]
  refine minds_alterGet (f := fun s => (s.exceptions.latest? (threadFromClient n), s)) (fun _ => rfl) fun s₂ => ?_
  have hSeen : ∀ {did₁ found}, lastThrown (threadFromClient n) s₂ = found → Silent did₁ → responsesIn did₁ = [] →
      Seen (threadFromClient n) (did₁ ++ [⟨none, s₂, s₂⟩]) (.ok (some (shownException found))) := by
    rintro did₁ _ rfl hSilent₁ hUnanswered₁
    refine ⟨hSilent₁.snoc rfl, ?_, _, List.mem_concat_self .., rfl⟩
    rw [responsesIn_snoc, hUnanswered₁, added_self]
    rfl
  cases hFound : s₂.exceptions.latest? (threadFromClient n) with
  | some e => exact minds_pure fun _ => hSeen hFound (hSilent.snoc rfl) ((responsesIn_keep ..).trans hUnanswered)
  | none => exact minds_pure fun _ => hSeen hFound (hSilent.snoc rfl) ((responsesIn_keep ..).trans hUnanswered)

/-- A request that asks after an exception is told of the one that is known when it looks, whatever comes after that. -/
theorem minds_asking (hSilent : Silent did) (hUnanswered : responsesIn did = []) (hAsks : q.asksAfter t) :
    (serve q).Heeds (minding t (.request q)) (fun _ did' _ => Minded t (.request q) did') did s := by
  have hFollow : follow q = pure () := by
    unfold follow
    rw [hAsks.1]
    rfl
  refine Routine.Heeds.bind ((minds_answer_asking hSilent hUnanswered hAsks).mono ?_)
  rintro _ did₁ s₁ ⟨hSilent₁, hUnanswered₁, x, hx, rfl⟩
  intro s₂ _ _
  refine ⟨.keeps request_notes_nothing rfl, ?_⟩
  change (follow q).Heeds _ _ _ _
  rw [hFollow]
  refine minds_pure fun _ => ((hSilent₁.snoc rfl).settled ?_).minded fun _ => ⟨x, List.mem_append_left _ hx, ?_⟩
  · rintro (⟨⟨hHere, -⟩, -⟩ | hHere | hFallen)
    · simp [hAsks.1] at hHere
    · simp [hAsks.1] at hHere
    · exact absurd hFallen (hSilent₁.snoc rfl).not_fellBack
  · rw [responsesIn_snoc, hUnanswered₁, post, added_append]
    rfl

theorem minds_serve (hSilent : Silent did) (hUnanswered : responsesIn did = []) :
    (serve q).Heeds (minding t (.request q)) (fun _ did' _ => Minded t (.request q) did') did s := by
  by_cases hAsks : q.asksAfter t
  · exact minds_asking hSilent hUnanswered hAsks
  by_cases hExcepts : (Job.request q).excepts
  · exact minds_excepting hSilent hExcepts
  have hCommand : q.command ∉ ["continue", "next", "stepIn", "stepOut", "disconnect"] := hExcepts
  simp only [List.mem_cons, List.not_mem_nil, or_false, not_or] at hCommand
  have hWithin := (allows_leaving hExcepts).serve (fun _ _ _ => rfl) fun _ => rfl
  refine (minds_of_leaving hWithin (¬fellBack ·) (fun _ => request_notes_nothing) ?_ hSilent.not_fellBack).mono ?_
  · rintro did x hNotFallen hCalls hFallen
    rcases fellBack_snoc.mp hFallen with hFallen | ⟨d, u, hAsked⟩
    · exact hNotFallen hFallen
    · have hResumes := hCalls _ hAsked trivial
      simp [hCommand] at hResumes
  · rintro _ did' _ ⟨-, hNotFallen⟩
    have hSettled : Settled t q did' := by
      refine ⟨?_, fun hFallen => absurd hFallen hNotFallen⟩
      rintro (⟨⟨hHere, -⟩, -⟩ | ⟨⟨hHere, -⟩, -⟩ | hHere | hFallen)
      · simp [hCommand] at hHere
      · simp [hCommand] at hHere
      · simp [hCommand] at hHere
      · exact absurd hFallen hNotFallen
    exact hSettled.minded fun hHere => absurd hHere hAsks

/-! ## Events -/

theorem minds_send {m : Dap.Outgoing} (keeps : List Act → Prop) (hNot : ∀ {did}, keeps did → ∀ x, ¬job.notes t x did)
    (hKeeps : ∀ {did x}, keeps did → keeps (did ++ [x])) (hHere : keeps did) :
    (send m : Activity Unit).Heeds (minding t job) (fun _ did' _ => keeps did') did s := by
  have hSend : (send m : Activity Unit).Within (leaving fun _ => False) fun _ => True := fun _ => ⟨rfl, trivial⟩
  exact (minds_of_leaving hSend keeps hNot (fun h _ => hKeeps h) hHere).mono fun _ _ _ h => h.2

theorem minds_thrown (u : ThreadId) (e : Thrown) (s : Session) :
    (onEvent (.exceptionThrown u e) : Activity Unit).Heeds (minding t (.event (.exceptionThrown u e)))
      (fun _ did _ => Minded t (.event (.exceptionThrown u e)) did) [] s := by
  intro s₁ _ _
  constructor
  · by_cases hSame : u = t
    · subst hSame
      exact .notes e ⟨rfl, rfl⟩ (Handles.latest?_store ..)
    · refine .keeps ?_ (Handles.latest?_store_of_ne hSame)
      rintro _ ⟨⟨⟩, -⟩
      exact hSame rfl
  · refine (minds_send (· ≠ []) (fun hSome _ hNotes => hSome hNotes.2) (by simp) (by simp)).mono ?_
    exact fun _ did _ hSome => ⟨fun _ _ => hSome, False.elim, nofun, nofun⟩

theorem minds_threadExited (u : ThreadId) (s : Session) :
    (onEvent (.threadChanged u .exited) : Activity Unit).Heeds (minding t (.event (.threadChanged u .exited)))
      (fun _ did _ => Minded t (.event (.threadChanged u .exited)) did) [] s := by
  have hNot : ∀ {did} e, ¬(Job.event (.threadChanged u .exited)).notes t e did := nofun
  intro s₁ _ _
  refine ⟨.keeps hNot rfl, ?_⟩
  intro s₂ _ _
  refine ⟨.keeps hNot rfl, ?_⟩
  intro s₃ _ _
  have hGone : u = t → lastThrown t { s₃ with exceptions := s₃.exceptions.release u } = none := by
    rintro rfl
    exact Handles.latest?_release ..
  constructor
  · by_cases hSame : u = t
    · exact .forgets hSame (hGone hSame)
    · exact .keeps hNot (Handles.latest?_release_of_ne hSame)
  · refine (minds_send (fun did => u = t → Job.forgot t did (.event (.threadChanged u .exited))) (fun _ => hNot) ?_ ?_).mono ?_
    · exact fun hForgot hSame => (hForgot hSame).mono (prefix_snoc List.prefix_rfl)
    · exact fun hSame => forgot_snoc hSame (hGone hSame)
    · exact fun _ _ _ hForgot => ⟨nofun, hForgot, nofun, nofun⟩

theorem minds_exited (code : Option Int32) (s : Session) :
    (onEvent (.exited code) : Activity Unit).Heeds (minding t (.event (.exited code)))
      (fun _ did _ => Minded t (.event (.exited code)) did) [] s := by
  have hNot : ∀ {did} e, ¬(Job.event (.exited code)).notes t e did := nofun
  intro s₁ _ _
  refine ⟨.keeps hNot (congrArg (Handles.latest? · t) (exceptions_keep _ s₁)), ?_⟩
  intro s₂ _ _
  refine ⟨.keeps hNot rfl, ?_⟩
  intro s₃ _ _
  refine ⟨.keeps hNot rfl, ?_⟩
  intro s₄ _ _
  refine ⟨.keeps hNot rfl, ?_⟩
  intro s₅ _ _
  have hGone : lastThrown t { s₅ with exceptions := s₅.exceptions.releaseAll } = none := Handles.latest?_releaseAll ..
  refine ⟨.forgets trivial hGone, ?_⟩
  have hRest : (do change fun s => { s with phase := s.phase.release }; send (.exited ((code.map (·.toInt)).getD 0)); send .terminated :
      Activity Unit).Within (leaving fun _ => False) fun _ => True :=
    fun _ => ⟨rfl, fun _ => ⟨rfl, fun _ => ⟨rfl, trivial⟩⟩⟩
  refine (minds_of_leaving hRest (Job.forgot t · (.event (.exited code))) (fun _ => hNot) ?_ (forgot_snoc trivial hGone)).mono ?_
  · exact fun hForgot _ => hForgot.mono (prefix_snoc List.prefix_rfl)
  · exact fun _ _ _ h => ⟨nofun, fun _ => h.2, nofun, nofun⟩

theorem minds_other {r : Activity Unit} (h : r.Within (leaving calls) fun _ => True) (hNot : ∀ did e, ¬job.notes t e did)
    (hMinded : ∀ did, Minded t job did) : r.Heeds (minding t job) (fun _ did _ => Minded t job did) [] s :=
  (minds_of_leaving h (fun _ => True) (fun _ => hNot _) (fun _ _ => trivial) trivial).mono fun _ did _ _ => hMinded did

theorem minds_onEvent (e : DebugEvent) (s : Session) :
    (onEvent e : Activity Unit).Heeds (minding t (.event e)) (fun _ did _ => Minded t (.event e) did) [] s := by
  have hOther : ¬(Job.event e).excepts → (∀ did x, ¬(Job.event e).notes t x did) → ¬ends t e →
      (onEvent e : Activity Unit).Heeds (minding t (.event e)) (fun _ did _ => Minded t (.event e) did) [] s := by
    intro hExcepts hNot hEnds
    refine minds_other (allows_leaving hExcepts).onEvent hNot fun did => ⟨?_, fun h => absurd h hEnds, nofun, nofun⟩
    intro x hHere
    exact absurd ⟨hHere, rfl⟩ (hNot [] x)
  cases e with
  | exceptionThrown u e => exact minds_thrown u e s
  | exited code => exact minds_exited code s
  | threadChanged u c =>
    cases c with
    | exited => exact minds_threadExited u s
    | started => exact hOther id (fun _ _ => nofun) id
  | breakpointHit | step | breakpointResolved => exact hOther id (fun _ _ => nofun) id

/-! ## All jobs -/

theorem takes_minds {k : Hand} {r : Activity Unit} (h : Takes k job s r s') :
    r.Heeds (minding t job) (fun _ did _ => Minded t job did) [] s' := by
  -- The lanes note what they take up before they serve it, so that nothing has been asked or answered by then.
  have hServe : ∀ {q : Dap.Request} {name : String} {s}, (Worker.onLane name (serve q)).Heeds (minding t (.request q))
      (fun _ did _ => Minded t (.request q) did) [] s := by
    intro q name s s₁ _ _
    refine ⟨.keeps request_notes_nothing (congrArg (Handles.latest? · t) (exceptions_keep _ s₁)), ?_⟩
    exact minds_serve (by simp [Silent]) (responsesIn_keep ..)
  have hOther : ∀ {job : Job} {r : Activity Unit} {s}, (∀ did e, ¬job.notes t e did) → (∀ did, ¬job.hasForgotten t did) →
      (∀ q, job ≠ .request q) → r.Within (leaving job.leave.calls) (fun _ => True) →
      r.Heeds (minding t job) (fun _ did _ => Minded t job did) [] s := by
    intro job r s hNot hNone hRequest hWithin
    refine minds_other hWithin hNot fun did => ⟨?_, fun h => absurd h (hNone did), ?_, fun q hq => absurd hq (hRequest q)⟩
    · exact fun e hHere => absurd ⟨hHere, rfl⟩ (hNot [] e)
    · exact fun q hq => absurd hq (hRequest q)
  cases h with
  | event => exact minds_onEvent _ _
  | job hJob hTake =>
    cases taken_of_take hJob hTake with
    | default _ => exact hServe
    | @launcher j rest _ =>
      cases j with
      | request q => exact hServe
      | run d announceThreads =>
        have hAllows : Allows (.run d announceThreads) _ := allows_leaving id
        exact hOther (fun _ _ => nofun) (fun _ => id) nofun (hAllows.onLane hAllows.runDebuggee)
    | arrival _ => exact minds_serve (by simp [Silent]) rfl
    | forwarder hOutput => exact hOther (fun _ _ => nofun) (fun _ => id) nofun ((allows_leaving id).takeOutput hOutput)

theorem minds_accord (told : (c : Call) → Answer c → Prop) (t : ThreadId) :
    Accord (setting told) (fun _ => True) (fun _ => minding t) fun _ job _ did _ => Minded t job did where
  valid _ _ := rfl
  keep _ _ := rfl
  answered _ := trivial
  takes _ hTakes := ⟨trivial, takes_minds hTakes⟩
  own _ _ := trivial
  outside _ _ := trivial
  others_own _ _ := trivial
  others_takes _ _ := trivial
  others_outside _ := trivial

end JvmDebug.Session
