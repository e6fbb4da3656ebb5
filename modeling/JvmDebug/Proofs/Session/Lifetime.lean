import JvmDebug.Proofs.Session.Origins
import JvmDebug.Proofs.Session.Resuming

/-!
# The life of the handles of a session

A handle is told once, in the response to the request that it was given out for. From then on it stands for one thing,
which belongs to one thread, until the thread runs or is gone; and after that it means nothing.
-/

namespace JvmDebug.Session
set_option autoImplicit false

open Jdwp (ThreadId)

variable {told : (c : Call) → Answer c → Prop} {journal : Option Log.Journal} {past since : List Happening}
  {e : Happening} {s s' m : Scene Hand Job Session World Unit fun _ => Unit} {k : Hand} {job : Job} {t u : ThreadId}
  {q : Dap.Request} {did : List Act} {asked : Option (Asked World)}

/-! ## Handles in messages -/

/-- The messages tell the handles of a pool that were given out for them. -/
structure IsTold {β : Type} (pool : Session → Handles ThreadId β) (kind : String) (tells : Dap.Outgoing → List Int) :
    Prop extends IsPool pool kind where
  none : ∀ m, m.tellsNone → tells m = []
  response : ∀ {q did result}, Answered q did result →
    tells (.response (.of q result)) = (issued pool did).map (·.1)

theorem frames_isTold : IsTold frames "frame" (·.frameIds) where
  toIsPool := frames_isPool
  none _ h := h.1
  response h := h.frameIds

theorem references_isTold : IsTold references "variable reference" (·.references) where
  toIsPool := references_isPool
  none _ h := h.2
  response h := h.references

section Told

variable {β : Type} {pool : Session → Handles ThreadId β} {kind : String} {tells : Dap.Outgoing → List Int}

/-- What has been told, and what the request that is being served has still to tell, was given out in that order. -/
def Tells (pool : Session → Handles ThreadId β) (tells : Dap.Outgoing → List Int) (past : List Happening) (s : Session) :
    Prop :=
  ∃ pending, (s.outbox.flatMap tells ++ pending).Sublist ((given pool past).map (·.1)) ∧
    (sendsNoResponse (deeds (.worker .defaultLane) past) →
      pending = (issued pool (deeds (.worker .defaultLane) past)).map (·.1))

theorem sendsNoResponse_of_snoc {x : Act} (h : sendsNoResponse (did ++ [x])) : sendsNoResponse did :=
  fun y hy => h y (List.mem_append_left _ hy)

/-- A moment at which no handles are told. -/
theorem Tells.silent (h : Tells pool tells past e.before)
    (hSends : ∃ new, e.after.outbox = e.before.outbox ++ new ∧ ∀ m ∈ new, tells m = []) :
    Tells pool tells (past ++ [e]) e.after := by
  obtain ⟨pending, hSublist, hPending⟩ := h
  obtain ⟨new, hNew, hNone⟩ := hSends
  have hSame : e.after.outbox.flatMap tells = e.before.outbox.flatMap tells := by
    rw [hNew, List.flatMap_append, List.flatMap_eq_nil_iff.mpr hNone, List.append_nil]
  unfold Tells
  rw [hSame, given_snoc, List.map_append, deeds_snoc, Moment.addTo]
  have hOther : (e.before.outbox.flatMap tells ++ pending).Sublist
      ((given pool past).map (·.1) ++ (added (pool e.before).entries (pool e.after).entries).map (·.1)) :=
    hSublist.trans (List.sublist_append_left ..)
  split
  · split
    · refine ⟨[], ?_, fun _ => rfl⟩
      rw [List.append_nil]
      exact (List.sublist_append_left ..).trans hOther
    · exact ⟨pending, hOther, hPending⟩
  · split
    · refine ⟨pending ++ (added (pool e.before).entries (pool e.after).entries).map (·.1), ?_, fun hUnanswered => ?_⟩
      · rw [← List.append_assoc]
        exact hSublist.append (.refl _)
      · rw [issued_snoc, List.map_append, hPending (sendsNoResponse_of_snoc hUnanswered)]
    · exact ⟨pending, hOther, hPending⟩
  · exact ⟨pending, hOther, hPending⟩
  · exact ⟨pending, hOther, hPending⟩

/-- The moment at which a request is answered: what it had to tell is told. -/
theorem Tells.response (hTold : IsTold pool kind tells) (h : Tells pool tells past e.before)
    (hServes : servesAt e.turn q asked) {result : Except Error (Option Json)}
    (hAfter : e.after = e.before.post (.response (.of q result)))
    (hAnswered : Answered q (deeds (.worker .defaultLane) past) result) : Tells pool tells (past ++ [e]) e.after := by
  obtain ⟨pending, hSublist, hPending⟩ := h
  refine ⟨[], ?_, fun hUnanswered => ?_⟩
  · rw [hAfter, List.append_nil]
    simp only [post, List.flatMap_append, List.flatMap_cons, List.flatMap_nil, List.append_nil]
    rw [hTold.response hAnswered, ← hPending hAnswered.unanswered, given_snoc, List.map_append]
    exact hSublist.trans (List.sublist_append_left ..)
  · have hHere : ⟨asked, e.before, e.after⟩ ∈ deeds (.worker .defaultLane) (past ++ [e]) := by
      rw [deeds_snoc, Moment.addTo, hServes]
      simp
    obtain ⟨new, hNew, hEvents⟩ := hUnanswered _ hHere
    have hResponse : [Dap.Outgoing.response (.of q result)] = new := List.append_cancel_left (hAfter ▸ hNew)
    have hEvent : (Dap.Outgoing.response (.of q result)).isEvent := hEvents _ (hResponse ▸ List.mem_singleton.mpr rfl)
    exact hEvent.elim

theorem IsTold.all (hTold : IsTold pool kind tells) (h : Comes told journal past s) :
    Tells pool tells past s.state := by
  refine Comes.along (Tells pool tells) .nil h ⟨[], .refl _, fun _ => rfl⟩ ?_
  intro past e hHere hEffect
  cases hEffect with
  | request q asked hServes hConduct =>
    cases hConduct with
    | quiet hQuiet =>
      obtain ⟨new, hNew, hEvents⟩ := hQuiet.sends
      exact hHere.silent ⟨new, hNew, fun m hm => hTold.none m (Dap.Outgoing.tellsNone_of_event (hEvents m hm))⟩
    | frame f hAfter _ =>
      exact hHere.silent ⟨[], by rw [show e.after = e.before.withFrame f from hAfter]; simp [withFrame], by simp⟩
    | reference r hAfter _ =>
      exact hHere.silent ⟨[], by rw [show e.after = e.before.withReference r from hAfter]; simp [withReference], by simp⟩
    | responds result hAfter hAnswered => exact hHere.response hTold hServes hAfter hAnswered
  | other _ hReserved =>
    obtain ⟨new, hNew, hNone⟩ := hReserved.sends
    exact hHere.silent ⟨new, hNew, fun m hm => hTold.none m (hNone m hm)⟩

/-- The handles that were told: each is new, and none of them is 0. -/
structure Fresh (ids : List Int) (issued : List (Int × ThreadId × β)) : Prop where
  nodup : ids.Nodup
  positive : ∀ n ∈ ids, 1 ≤ n
  known : ∀ n ∈ ids, ∃ x ∈ issued, x.1 = n
  issuedOnce : (issued.map (·.1)).Nodup

theorem IsTold.tellsFresh (hTold : IsTold pool kind tells) (h : Comes told journal past s) :
    Fresh (s.state.outbox.flatMap tells) (given pool past) := by
  obtain ⟨pending, hSublist, -⟩ := hTold.all h
  have hChronicle := hTold.chronicle h
  have hOnly := (List.sublist_append_left ..).trans hSublist
  refine ⟨hChronicle.nodup.sublist hOnly, fun n hn => ?_, fun n hn => List.mem_map.mp (hOnly.subset hn),
    hChronicle.nodup⟩
  obtain ⟨x, hx, rfl⟩ := List.mem_map.mp (hOnly.subset hn)
  exact (hChronicle.ascending.2.1 x hx).1

end Told

/-- What is known of a response when it is sent. -/
theorem Comes.answered {before after : List Happening} {r : Dap.Response}
    (h : Comes told journal (before ++ e :: after) s) (hServes : servesAt e.turn q asked)
    (hSent : .response r ∈ added e.before.outbox e.after.outbox) :
    ∃ result, r = .of q result ∧ Answered q (deeds (.worker .defaultLane) before) result := by
  cases h.effect with
  | request q' asked' hServes' hConduct =>
    obtain rfl := servesAt_unique hServes hServes'
    cases hConduct with
    | quiet hQuiet =>
      obtain ⟨new, hNew, hEvents⟩ := hQuiet.sends
      rw [show e.after.outbox = _ from hNew, added_append] at hSent
      exact False.elim (hEvents _ hSent)
    | frame f hAfter _ =>
      rw [show e.after = e.before.withFrame f from hAfter] at hSent
      simp [withFrame, added_self] at hSent
    | reference f hAfter _ =>
      rw [show e.after = e.before.withReference f from hAfter] at hSent
      simp [withReference, added_self] at hSent
    | responds result hAfter hAnswered =>
      rw [show e.after = e.before.post (.response (.of q result)) from hAfter] at hSent
      simp only [post, added_append, List.mem_singleton, Dap.Outgoing.response.injEq] at hSent
      exact ⟨result, hSent, hAnswered⟩
  | other hNot _ => exact absurd hServes (hNot _ _)

/-! ## From the beginning of a job to its end -/

/-- A job from the moment at which a worker takes it up to the one at which the worker is done with it. -/
structure Span (past : List Happening) (k : Hand) (job : Job) where
  before : List Happening
  began : Happening
  during : List Happening
  ended : Happening
  after : List Happening
  past_eq : past = before ++ began :: during ++ ended :: after
  takesUp : began.turn = .takesUp k job
  isDone : ended.turn = .isDone k job
  same : ∀ e ∈ during, ∀ other, e.turn ≠ .takesUp k other

/-- Whether the handles of a thread end with a job, after what was done in it: with a request that has the thread run,
if there is a debuggee, with one that lets all threads run or ends the session, and with the end of the thread itself. -/
def endsWith (t : ThreadId) (did : List Act) : Hand → Job → Prop
  | .worker .defaultLane, .request q => HasFreed q did t
  | .event _, .event e => ends t e
  | _, _ => False

theorem frees_of_endsWith {did : List Act} {s : Session} {a : Unit} (hEnding : ending k job a did s)
    (h : endsWith t did k job) : Frees t did := by
  unfold endsWith at h
  split at h
  · exact hEnding t h
  · exact hEnding t h
  · exact h.elim

/-- A job that was done kept to its terms to the end. -/
theorem Comes.done_as {holds : Session → Prop} {bound : Hand → Job → Terms Session World}
    {post : Hand → Job → Unit → List Act → Session → Prop} (hAccord : Accord (setting told) holds bound post)
    (hFresh : holds { journal }) (h : Comes told journal past s) (span : Span past k job) :
    ∃ m, post k job () (deeds k span.during) m := by
  rw [span.past_eq] at h
  obtain ⟨m, m', hFirst, hHappens, -⟩ := Setting.Leads.around h
  have hIsDone := span.isDone
  have hKept := Setting.Leads.kept hFirst hAccord (fun _ => rfl) hFresh
  generalize span.ended = ended at hHappens hIsDone
  cases hHappens with
  | isDone hBusy =>
    cases hIsDone
    have hValid : (bound k job).valid m.state := hAccord.valid k job ▸ hKept.valid
    have hPost := hKept.busy hBusy m.state ((bound k job).refl _) hValid
    rw [deeds_of_takesUp span.takesUp] at hPost
    exact ⟨m.state, hPost⟩
  | _ => cases hIsDone

theorem Comes.frees (h : Comes told journal past s) (span : Span past k job)
    (hEnds : endsWith t (deeds k span.during) k job) : Frees t (deeds k span.during) := by
  obtain ⟨m, hEnding⟩ := h.done_as (accord told) (sound_fresh journal) span
  exact frees_of_endsWith hEnding hEnds

/-- Where a thread had no handles of a pool at some moment, those that it had before are gone for ever. -/
theorem IsPool.gone_since {β : Type} {pool : Session → Handles ThreadId β} {kind : String} {before : List Happening}
    {began : Happening} {during after : List Happening} {n : Int} {v : β} {x : Act} (hPool : IsPool pool kind)
    (h : Comes told journal (before ++ began :: during ++ after) s) (hx : x ∈ deeds k during)
    (hBare : (pool x.after).ownedBy t = []) (hGiven : (n, t, v) ∈ given pool before) :
    (pool s.state).get n = .error (.notFound s!"{kind} {n}") := by
  obtain ⟨early, y, late, job, rfl, -, -, hAfter⟩ := exists_of_mem_deeds hx
  have hSplit : before ++ began :: (early ++ y :: late) ++ after =
      (before ++ began :: early) ++ y :: (late ++ after) := by simp
  rw [hSplit] at h
  obtain ⟨m₁, m₂, hEarly, hHappens, hRest⟩ := Setting.Leads.around h
  have hStill : (n, t, v) ∈ given pool (before ++ began :: early ++ [y]) := by
    rw [List.append_assoc]
    exact given_mono hGiven
  refine hPool.gone_of_bare (.snoc hEarly hHappens) hRest hStill ?_
  · rw [← hHappens.after, hAfter]
    exact hBare

theorem Comes.gone_with (h : Comes told journal past s) (span : Span past k job)
    (hEnds : endsWith t (deeds k span.during) k job) : Gone span.before s.state t := by
  obtain ⟨⟨x, hx, hFrames⟩, y, hy, hReferences⟩ := h.frees span hEnds
  rw [span.past_eq] at h
  exact ⟨fun n f hGiven => frames_isPool.gone_since h hx hFrames hGiven,
    fun n r hGiven => references_isPool.gone_since h hy hReferences hGiven⟩

/-! ## Other threads -/

/-- The handles of a thread are kept. -/
structure Spares (t : ThreadId) (s s' : Session) : Prop where
  frames : ∀ n f, (n, t, f) ∈ s.frames.entries → (n, t, f) ∈ s'.frames.entries
  references : ∀ n r, (n, t, r) ∈ s.references.entries → (n, t, r) ∈ s'.references.entries

theorem Spares.trans {s s' s'' : Session} (h : Spares t s s') (h' : Spares t s' s'') : Spares t s s'' :=
  ⟨fun n f hf => h'.frames n f (h.frames n f hf), fun n r hr => h'.references n r (h.references n r hr)⟩

theorem Sheds.spares {may : ThreadId → Prop} {s s' : Session} (h : s.Sheds may s') (hNot : ¬may t) : Spares t s s' :=
  ⟨fun _ _ hf => h.frames.keeps _ hf hNot, fun _ _ hr => h.references.keeps _ hr hNot⟩

theorem Conduct.spares {x : Act} (h : Conduct q did x) (hNot : ¬MayFree q did t) : Spares t x.before x.after := by
  cases h with
  | quiet hQuiet => exact hQuiet.toSheds.spares hNot
  | frame f hAfter _ => exact hAfter ▸ ⟨fun _ _ hf => List.mem_append_left _ hf, fun _ _ hr => hr⟩
  | reference r hAfter _ => exact hAfter ▸ ⟨fun _ _ hf => hf, fun _ _ hr => List.mem_append_left _ hr⟩
  | responds result hAfter _ => exact hAfter ▸ ⟨fun _ _ hf => hf, fun _ _ hr => hr⟩

/-- While the default lane serves one request, which may not give up the handles of a thread, they are kept, unless an
event ends them. -/
theorem Comes.spares (hFirst : Comes told journal past m) (hRest : (setting told).Leads m since s)
    (hBusy : ∃ r, m.busy (.worker .defaultLane) = some (.request q, r))
    (hSame : ∀ e ∈ since, ∀ other, e.turn ≠ .takesUp (.worker .defaultLane) other)
    (hNot : ¬MayFree q (deeds (.worker .defaultLane) (past ++ since)) u) (hNoEvent : ∀ e ∈ since, ¬endsAt e.turn u) :
    Spares u m.state s.state ∧ ∀ job r, s.busy (.worker .defaultLane) = some (job, r) → job = .request q := by
  induction hRest with
  | nil =>
    obtain ⟨r, hBusy⟩ := hBusy
    refine ⟨⟨fun _ _ hf => hf, fun _ _ hr => hr⟩, fun job r' hBusy' => ?_⟩
    rw [hBusy] at hBusy'
    cases hBusy'
    rfl
  | @snoc since e s s' hBefore hHappens ih =>
    have hMore : deeds (.worker .defaultLane) (past ++ since) <+: deeds (.worker .defaultLane) (past ++ (since ++ [e])) := by
      rw [← List.append_assoc]
      exact deeds_grows _ fun x hx => hSame x (by simpa using .inr (List.mem_singleton.mp hx))
    have hNotYet : ¬MayFree q (deeds (.worker .defaultLane) (past ++ since)) u := fun h => hNot (h.mono hMore)
    obtain ⟨hSpares, hStill⟩ := ih (fun x hx => hSame x (by simp [hx])) hNotYet fun x hx => hNoEvent x (by simp [hx])
    have hStep : Spares u e.before e.after := by
      cases effect_of_happens (Comes.kept (hFirst.trans hBefore)) hHappens with
      | request q' asked hServes hConduct =>
        have hJob : Job.request q' = .request q := by
          cases hHappens with
          | goesOn hBusy' _ =>
            cases hServes
            exact hStill _ _ hBusy'
          | _ => cases hServes
        cases hJob
        exact hConduct.spares hNotYet
      | other _ hReserved => exact hReserved.toSheds.spares (hNoEvent e (by simp))
    refine ⟨hSpares.trans (hHappens.before ▸ hHappens.after ▸ hStep), ?_⟩
    intro job r hBusy'
    by_cases hTurn : e.turn.worker? = some (.worker .defaultLane)
    · cases hHappens with
      | takesUp _ _ =>
        cases hTurn
        exact absurd rfl (hSame _ (List.mem_concat_self ..) _)
      | goesOn hBusy₀ _ =>
        cases hTurn
        simp only [Scene.put, Function.update_self, Option.some.injEq, Prod.mk.injEq] at hBusy'
        exact hBusy'.1 ▸ hStill _ _ hBusy₀
      | isDone _ =>
        cases hTurn
        simp [Scene.put] at hBusy'
      | outside _ => cases hTurn
    · rw [hHappens.busy_of_other hTurn] at hBusy'
      exact hStill job r hBusy'

/-- The handles of a thread that are valid stay so, and stand for the same. -/
structure StaysValid (t : ThreadId) (s s' : Session) : Prop where
  frames : ∀ n f, f.thread = t → s.view.frame n = .ok f → s'.view.frame n = .ok f
  references : ∀ n r, r.thread = t → s.view.reference n = .ok r → s'.view.reference n = .ok r

theorem Comes.staysValid (hFirst : Comes told journal past m) (hLast : Comes told journal since s)
    (h : Spares t m.state s.state) : StaysValid t m.state s.state where
  frames n f hThread hFound := by
    have hChronicle := frames_isPool.chronicle hFirst
    obtain ⟨o, hThere⟩ := hChronicle.get_eq_ok_iff.mp hFound
    obtain rfl := hThread.symm.trans (hFirst.frame_owner (hChronicle.sublist.subset hThere))
    exact (frames_isPool.chronicle hLast).get_eq_ok_iff.mpr ⟨_, h.frames n f hThere⟩
  references n r hThread hFound := by
    have hChronicle := references_isPool.chronicle hFirst
    obtain ⟨o, hThere⟩ := hChronicle.get_eq_ok_iff.mp hFound
    obtain rfl := hThread.symm.trans (hFirst.reference_owner (hChronicle.sublist.subset hThere))
    exact (references_isPool.chronicle hLast).get_eq_ok_iff.mpr ⟨_, h.references n r hThere⟩

theorem not_mayFree_of_resumes (hResumes : q.resumes t) (hOther : u ≠ t) (hNotFallen : ¬fellBack did) :
    ¬MayFree q did u := by
  obtain ⟨hCommand, n, hArguments, hThread⟩ := hResumes
  rintro (⟨-, n', hArguments', hThread'⟩ | hDisconnect | hFallen)
  · cases hArguments.symm.trans hArguments'
    exact hOther (hThread'.symm.trans hThread)
  · simp [hDisconnect] at hCommand
  · exact hNotFallen hFallen

theorem Comes.spared (h : Comes told journal past s) (span : Span past (.worker .defaultLane) (.request q))
    (hResumes : q.resumes t) (hOther : u ≠ t) (hNotFallen : ¬fellBack (deeds (.worker .defaultLane) span.during))
    (hNoEvent : ∀ e ∈ span.during, ¬endsAt e.turn u) : StaysValid u span.began.before span.ended.after := by
  obtain ⟨before, began, during, ended, after, rfl, hTakesUp, hIsDone, hSame⟩ := span
  obtain ⟨m₂, m₃, hBefore, hEnd, -⟩ := Setting.Leads.around h
  obtain ⟨m₀, m₁, hFirst, hBegin, hDuring⟩ := Setting.Leads.around hBefore
  have hSecond : Comes told journal (before ++ [began]) m₁ := .snoc hFirst hBegin
  have hDeeds : deeds (.worker .defaultLane) (before ++ [began] ++ during) = deeds (.worker .defaultLane) during := by
    rw [List.append_assoc]
    exact deeds_of_takesUp hTakesUp ..
  have hBusy : ∃ r, m₁.busy (.worker .defaultLane) = some (.request q, r) := by
    cases hBegin with
    | takesUp _ _ =>
      cases hTakesUp
      simp [Scene.put]
    | _ => cases hTakesUp
  have hSpares := (hSecond.spares hDuring hBusy hSame (hDeeds ▸ not_mayFree_of_resumes hResumes hOther hNotFallen) hNoEvent).1
  have hTaken : Spares u m₀.state m₁.state := by
    cases hBegin with
    | takesUp _ hTakes => exact (takes_sheds hTakes).spares id
    | _ => cases hTakesUp
  rw [hBegin.before, hEnd.after]
  refine Comes.staysValid hFirst (Setting.Leads.snoc hBefore hEnd) (hTaken.trans ?_)
  cases hEnd with
  | isDone _ => exact hSpares
  | _ => cases hIsDone

/-! ## The life of a handle -/

structure Lifetime (past : List Happening) (s : Session) : Prop where
  /-- No handle is told twice. -/
  frameIds : Fresh (s.outbox.flatMap (·.frameIds)) (given frames past)
  referenceIds : Fresh (s.outbox.flatMap (·.references)) (given references past)
  /-- A response tells the handles that were given out for it, for what the debuggee had told. -/
  answered : ∀ before e after q asked r, past = before ++ e :: after → servesAt e.turn q asked →
    .response r ∈ added e.before.outbox e.after.outbox →
    ∃ result, r = .of q result ∧ Answered q (deeds (.worker .defaultLane) before) result
  /-- A handle stands for what it was given out for, or is not found. -/
  frame : ∀ n t f, (n, t, f) ∈ given frames past →
    f.thread = t ∧ (s.view.frame n = .ok f ∨ s.view.frame n = .error (.notFound s!"frame {n}"))
  reference : ∀ n t r, (n, t, r) ∈ given references past →
    r.thread = t ∧ (s.view.reference n = .ok r ∨ s.view.reference n = .error (.notFound s!"variable reference {n}"))
  /-- It belongs to the thread that it stems from. -/
  stems : ∀ t x, Stems past t x ↔ x.belongs past t
  /-- It is never found again when the thread has run on, or is gone. -/
  ended : ∀ k job t (span : Span past k job), endsWith t (deeds k span.during) k job → Gone span.before s t
  /-- Until then it is kept, also when another thread runs on. -/
  spared : ∀ q t u (span : Span past (.worker .defaultLane) (.request q)), q.resumes t → u ≠ t →
    ¬fellBack (deeds (.worker .defaultLane) span.during) → (∀ e ∈ span.during, ¬endsAt e.turn u) →
    StaysValid u span.began.before span.ended.after

theorem IsPool.found_or_not {β : Type} {pool : Session → Handles ThreadId β} {kind : String} {n : Int} {v : β}
    (hPool : IsPool pool kind) (h : Comes told journal past s) (hGiven : (n, t, v) ∈ given pool past) :
    (pool s.state).get n = .ok v ∨ (pool s.state).get n = .error (.notFound s!"{kind} {n}") := by
  rw [(hPool.chronicle h).get_of_issued hGiven]
  split
  · exact .inl rfl
  · exact .inr rfl

theorem lifetime (h : Comes driven journal past s) : Lifetime past s.state where
  frameIds := frames_isTold.tellsFresh h
  referenceIds := references_isTold.tellsFresh h
  answered _ _ _ _ _ _ hPast hServes hSent := Comes.answered (hPast ▸ h) hServes hSent
  frame _ _ _ hGiven := ⟨h.frame_owner hGiven, frames_isPool.found_or_not h hGiven⟩
  reference _ _ _ hGiven := ⟨h.reference_owner hGiven, references_isPool.found_or_not h hGiven⟩
  stems _ _ := stems_iff h
  ended _ _ _ span hEnds := h.gone_with span hEnds
  spared _ _ _ span hResumes hOther hNotFallen hNoEvent := h.spared span hResumes hOther hNotFallen hNoEvent

/-! A machine with one stopped thread: its stack is shown and one of its frames looked at, and then it makes a step. The
machine does not let it, but the handles are gone all the same. -/

section OneStep

open Jdwp

/-- The machine tells of one frame, and refuses everything else. -/
def oneFrameMachine : (c : Debuggee.Call) → Debuggee.Answer c
  | .command c =>
    if c.set = 11 ∧ c.number = 6 then
      .ok ⟨0, 0, [0, 0, 0, 1] ++ Layout.u64 7 ++ [1] ++ Layout.u64 3 ++ Layout.u64 5 ++ Layout.u64 0⟩
    else .ok ⟨0, 13, []⟩
  | .publish _ => ()
  | .exitCode => none
  | .kill => .ok ()

def onOneFrame : (c : Call) → Option (Answer c)
  | .files => some (.folder [])
  | .attach .. => some (.ok 7)
  | .drive _ r => ((Debuggee.serve r).advance (m := Id) oneFrameMachine (fun _ d => d)
      { origin := .attached, book := {}, placer := { index := {}, root := ⟨"/w"⟩ } }).1.result?
  | _ => none

theorem driven_of_onOneFrame (c : Call) (a : Answer c) (h : onOneFrame c = some a) : driven c a := by
  cases c with
  | drive d r => exact Routine.mayYield_of_advance h
  | _ => trivial

def scopesRequest : Dap.Request := ⟨3, "scopes", some (.obj [("frameId", .int 1)])⟩
def nextRequest : Dap.Request := ⟨4, "next", some (.obj [("threadId", .int 1)])⟩

def shownThenStepped : List (Cue Hand (Option DebugEvent) Dap.Request) :=
  [.outside attachRequest] ++ works .launcherLane 11 ++ [.isDone (.worker .launcherLane)] ++
    [.outside stackTraceRequest] ++ works .defaultLane 6 ++ [.isDone (.worker .defaultLane)] ++
    [.outside scopesRequest] ++ works .defaultLane 7 ++ [.isDone (.worker .defaultLane)] ++
    [.outside nextRequest] ++ works .defaultLane 9 ++ [.isDone (.worker .defaultLane)]

theorem lifetime_of_shownThenStepped : ∃ past s, Comes driven none past s ∧ Lifetime past s.state ∧
    given frames past = [(1, 1, shownFrame)] ∧ given references past = [(1, 1, .locals shownFrame)] ∧
    s.state.view.frame 1 = .error (.notFound "frame 1") := by
  obtain ⟨past, s, hComes, hCheck⟩ := (script onOneFrame driven_of_onOneFrame).leads_of_check shownThenStepped (fresh none)
    (fun past s => decide (given frames past = [(1, 1, shownFrame)] ∧
      given references past = [(1, 1, .locals shownFrame)] ∧ s.state.view.frames.entries = [])) (by decide +kernel)
  obtain ⟨hFrames, hReferences, hNone⟩ := of_decide_eq_true hCheck
  refine ⟨past, s, hComes, lifetime hComes, hFrames, hReferences, ?_⟩
  exact (frames_isPool.chronicle hComes).get_eq_error_iff.mpr (by simp [Session.frames, hNone])

end OneStep

end JvmDebug.Session
