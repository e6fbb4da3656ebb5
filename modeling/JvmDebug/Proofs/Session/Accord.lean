import JvmDebug.Proofs.Session.Showing

/-!
# Every job keeps to its terms

Whatever a session does, it treats handles as the terms of its jobs say, in any order in which the jobs take their
steps.
-/

namespace JvmDebug.Session
set_option autoImplicit false

open Jdwp (ThreadId)

variable {q : Dap.Request} {did did' : List Act} {s : Session} {t : ThreadId} {α β : Type}

/-! ## Requests that leave handles alone -/

/-- The requests that have to do with handles. -/
def handleRequests : List String :=
  ["continue", "next", "stepIn", "stepOut", "stackTrace", "scopes", "variables", "evaluate", "completions", "disconnect"]

theorem withArguments_calm {read : Json.Reading α} {serve : α → Work (Option Json)}
    (h : ∀ a, (serve a).run.Within calm Handless) : (withArguments q read serve).run.Within calm Handless := by
  simp only [withArguments, Attempt.within_bind, within_require]
  cases q.argumentsAs read with
  | error e => trivial
  | ok a => exact h a

theorem serveNamed_calm (hCalm : q.command ∉ handleRequests) : (serveNamed q).run.Within calm Handless := by
  unfold serveNamed
  split
  case h_1 => exact withArguments_calm serveInitialize_calm
  case h_2 => exact serveConfigurationDone_calm
  case h_3 => exact withArguments_calm serveLaunch_calm
  case h_4 => exact withArguments_calm serveAttach_calm
  case h_5 => exact withArguments_calm serveSetBreakpoints_calm
  case h_6 => exact withArguments_calm serveSetExceptionBreakpoints_calm
  case h_7 => exact serveThreads_calm
  case h_12 => exact withArguments_calm fun n => servePause_calm (threadFromClient n)
  case h_18 => exact withArguments_calm fun n => serveExceptionInfo_calm (threadFromClient n)
  case h_20 => exact handless_error
  all_goals simp_all [handleRequests]

theorem answer_calm (hCalm : q.command ∉ handleRequests) : (answer q).run.Within calm Handless := by
  simp only [answer, Attempt.within_bind, within_act]
  exact ⟨quiet_keep _ _, serveNamed_calm hCalm⟩

/-! ## Requests on the default lane -/

theorem heeds_withArguments {read : Json.Reading α} {serve : α → Work (Option Json)} (hNothing : Nothing did)
    (hNotFallen : ¬fellBack did)
    (hBad : ∀ e, q.argumentsAs read = .error e → Keeps q ∧ ∀ result, LookedUp q did result)
    (hGood : ∀ a, q.argumentsAs read = .ok a →
      (serve a).run.Heeds (requestTerms q) (fun result did' _ => Ready q did' result) did s) :
    (withArguments q read serve).run.Heeds (requestTerms q) (fun result did' _ => Ready q did' result) did s := by
  refine heeds_require hGood fun e h => heeds_pure fun _ => ?_
  obtain ⟨hKeeps, hLookedUp⟩ := hBad e h
  exact hNothing.ready_error hKeeps hNotFallen (hLookedUp _)

theorem heeds_withThread {serve : ThreadId → Work (Option Json)} (hNothing : Nothing did) (hNotFallen : ¬fellBack did)
    (hCommand : q.command ∈ ["continue", "next", "stepIn", "stepOut"])
    (h : ∀ t, Runs q t → (serve t).run.Heeds (requestTerms q) (fun result did' _ => Ready q did' result) did s) :
    (withThread q serve).run.Heeds (requestTerms q) (fun result did' _ => Ready q did' result) did s := by
  have hFrame : ∀ n, ¬q.asksFrame n := by
    simp only [List.mem_cons, List.not_mem_nil, or_false] at hCommand
    rcases hCommand with h | h | h | h <;> simp [Dap.Request.asksFrame, h]
  have hReference : ∀ n, ¬q.asksReference n := by
    simp only [List.mem_cons, List.not_mem_nil, or_false] at hCommand
    rcases hCommand with h | h | h | h <;> simp [Dap.Request.asksReference, h]
  have hShows : ¬q.shows := by
    simp only [List.mem_cons, List.not_mem_nil, or_false] at hCommand
    rcases hCommand with h | h | h | h <;> simp [Dap.Request.shows, h]
  have hDisconnect : q.command ≠ "disconnect" := by
    rintro hEq
    simp [hEq] at hCommand
  refine heeds_withArguments hNothing hNotFallen ?_ ?_
  · intro e hBad
    refine ⟨⟨?_, hDisconnect⟩, fun _ => ⟨fun n h => absurd h (hFrame n), fun n h => absurd h (hReference n)⟩⟩
    rintro t ⟨-, n, hGood, -⟩
    cases hBad.symm.trans hGood
  · intro n hGood
    refine h _ ⟨?_, hShows, hFrame, hReference, hDisconnect⟩
    intro u
    simp [Dap.Request.resumes, hCommand, hGood, eq_comm]

theorem heeds_serveNamed (hNothing : Nothing did) (hNotFallen : ¬fellBack did) :
    (serveNamed q).run.Heeds (requestTerms q) (fun result did' _ => Ready q did' result) did s := by
  by_cases hCalm : q.command ∉ handleRequests
  · refine (heeds_of_calm (serveNamed_calm hCalm) hNothing hNotFallen).mono ?_
    rintro result did' s' ⟨hHandless, -, hNothing', hNotFallen'⟩
    simp only [handleRequests, List.mem_cons, List.not_mem_nil, or_false, not_or] at hCalm
    have hKeeps : Keeps q := by simp [Keeps, Dap.Request.resumes, hCalm]
    refine hNothing'.ready hHandless ?_ (fun t h => absurd h (hKeeps.not_freed hNotFallen' t)) ?_ ?_
    · simp [Dap.Request.shows, hCalm]
    · simp [Dap.Request.asksFrame, hCalm]
    · simp [Dap.Request.asksReference, hCalm]
  unfold serveNamed
  split
  case h_8 hCommand =>
    exact heeds_withThread hNothing hNotFallen (by simp [hCommand]) fun t hRuns =>
      heeds_serveContinue hRuns hNothing hNotFallen
  case h_9 hCommand =>
    exact heeds_withThread hNothing hNotFallen (by simp [hCommand]) fun t hRuns =>
      heeds_serveStep hRuns hNothing hNotFallen
  case h_10 hCommand =>
    exact heeds_withThread hNothing hNotFallen (by simp [hCommand]) fun t hRuns =>
      heeds_serveStep hRuns hNothing hNotFallen
  case h_11 hCommand =>
    exact heeds_withThread hNothing hNotFallen (by simp [hCommand]) fun t hRuns =>
      heeds_serveStep hRuns hNothing hNotFallen
  case h_13 hCommand =>
    refine heeds_withArguments hNothing hNotFallen (fun e hBad => ⟨?_, fun _ => ⟨?_, ?_⟩⟩) fun a hGood =>
      heeds_serveStackTrace hCommand hGood hNothing hNotFallen
    · simp [Keeps, Dap.Request.resumes, hCommand]
    · simp [Dap.Request.asksFrame, hCommand]
    · simp [Dap.Request.asksReference, hCommand]
  case h_14 hCommand =>
    refine heeds_withArguments hNothing hNotFallen (fun e hBad => ⟨?_, fun _ => ⟨?_, ?_⟩⟩) fun a hGood =>
      heeds_serveScopes hCommand hGood hNothing hNotFallen
    · simp [Keeps, Dap.Request.resumes, hCommand]
    · simp [Dap.Request.asksFrame, hCommand, hBad]
    · simp [Dap.Request.asksReference, hCommand]
  case h_15 hCommand =>
    refine heeds_withArguments hNothing hNotFallen (fun e hBad => ⟨?_, fun _ => ⟨?_, ?_⟩⟩) fun a hGood =>
      heeds_serveVariables hCommand hGood hNothing hNotFallen
    · simp [Keeps, Dap.Request.resumes, hCommand]
    · simp [Dap.Request.asksFrame, hCommand]
    · simp [Dap.Request.asksReference, hCommand, hBad]
  case h_16 hCommand =>
    refine heeds_withArguments hNothing hNotFallen (fun e hBad => ⟨?_, fun _ => ⟨?_, ?_⟩⟩) fun a hGood =>
      heeds_serveEvaluate hCommand hGood hNothing hNotFallen
    · simp [Keeps, Dap.Request.resumes, hCommand]
    · simp [Dap.Request.asksFrame, hCommand, hBad]
    · simp [Dap.Request.asksReference, hCommand]
  case h_17 hCommand =>
    refine heeds_withArguments hNothing hNotFallen (fun e hBad => ⟨?_, fun _ => ⟨?_, ?_⟩⟩) fun a hGood =>
      heeds_serveCompletions hCommand hGood hNothing hNotFallen
    · simp [Keeps, Dap.Request.resumes, hCommand]
    · simp [Dap.Request.asksFrame, hCommand, hBad]
    · simp [Dap.Request.asksReference, hCommand]
  case h_19 hCommand => exact heeds_serveDisconnect hCommand hNothing
  all_goals simp_all [handleRequests]

theorem follow_calm (q : Dap.Request) : (follow q).Within calm fun _ => True := by
  have hSend : ∀ {m : Dap.Outgoing}, m.isEvent → (send m : Activity Unit).Within calm fun _ => True :=
    fun h s => ⟨quiet_post _ h s, trivial⟩
  unfold follow
  split
  · refine Routine.within_then (fun s => ⟨quiet_of_eq _ rfl rfl rfl rfl rfl, trivial⟩) fun isOld => ?_
    split
    · trivial
    · exact hSend trivial
  · split
    · exact hSend trivial
    · trivial
  · trivial

/-- A request that is ready to be answered stays so while it only notes things. -/
theorem Ready.snoc {result : Except Error (Option Json)} {s s' : Session} (h : Ready q did result)
    (hQuiet : Quiet (fun _ => False) s s') : Ready q (did ++ [⟨none, s, s'⟩]) result := by
  have hFrames : issued frames (did ++ [⟨none, s, s'⟩]) = issued frames did := by
    rw [issued_snoc, hQuiet.frames.added, List.append_nil]
  have hReferences : issued references (did ++ [⟨none, s, s'⟩]) = issued references did := by
    rw [issued_snoc, hQuiet.references.added, List.append_nil]
  have hMore : did <+: did ++ [⟨none, s, s'⟩] := prefix_snoc List.prefix_rfl
  have hLookedUp : LookedUp q (did ++ [⟨none, s, s'⟩]) result := (LookedUp.mk h.frame h.reference).mono hMore
  refine ⟨⟨?_, ?_, ?_, ?_, hLookedUp.frame, hLookedUp.reference⟩, ?_⟩
  · intro x hx
    rcases List.mem_append.mp hx with hx | hx
    · exact h.unanswered x hx
    · exact List.mem_singleton.mp hx ▸ hQuiet.sends
  · rw [hFrames, h.frameIds]
  · rw [hReferences, h.references]
  · intro hShows hOk
    rw [AllShown, hFrames, hReferences]
    exact (h.shown hShows hOk).mono hMore
  · exact fun t hFreed => (h.freed t (hFreed.of_snoc (by simp))).mono hMore

/-- What a request has given up, it has given up for good. -/
theorem freed_snoc {x : Act} (h : ∀ t, HasFreed q did t → Frees t did)
    (hAsked : ∀ d t, x.asked ≠ asked d (.resume t) (.ok .threadUnavailable)) :
    ∀ t, HasFreed q (did ++ [x]) t → Frees t (did ++ [x]) :=
  fun t hFreed => (h t (hFreed.of_snoc hAsked)).mono (prefix_snoc List.prefix_rfl)

theorem heeds_respond {result : Except Error (Option Json)} {k : Unit → Activity Unit} (hReady : Ready q did result)
    (hNext : ∀ u, (k u).Within calm fun _ => True) :
    (respond q result >>= k).Heeds (requestTerms q) (fun _ did' _ => ∀ t, HasFreed q did' t → Frees t did') did s := by
  have hSend : ∀ did s, Ready q did result → (send (.response (.of q result)) >>= k).Heeds (requestTerms q)
      (fun _ did' _ => ∀ t, HasFreed q did' t → Frees t did') did s := by
    intro did s hReady s₁ _ _
    refine ⟨.responds result rfl hReady.toAnswered, ?_⟩
    refine ((hNext ()).heeds (fun did' _ => ∀ t, HasFreed q did' t → Frees t did') rfl (fun h _ _ => h) ?_ ?_
      (freed_snoc hReady.freed (by simp))).mono fun _ _ _ h => h.2
    · intro did' asked s s' hFreed _ hQuiet hCalls
      refine ⟨.quiet (hQuiet.mono fun _ => False.elim), freed_snoc hFreed ?_⟩
      rintro d t rfl
      exact hCalls _ rfl trivial
    · exact fun _ _ hCalls => safe_of_not_resumes hCalls _
  cases result with
  | ok body => exact hSend did s hReady
  | error e =>
    intro s₁ _ _
    exact goes_of_quiet (quiet_keep _ _ s₁) (hSend _ _ (hReady.snoc (quiet_keep _ _ s₁)))

theorem heeds_serve (hNothing : Nothing did) (hNotFallen : ¬fellBack did) :
    (serve q).Heeds (requestTerms q) (fun _ did' _ => ∀ t, HasFreed q did' t → Frees t did') did s := by
  have hAnswer : (answer q).run.Heeds (requestTerms q) (fun result did' _ => Ready q did' result) did s := by
    refine heeds_note fun s₁ _ => heeds_serveNamed (hNothing.snoc (quiet_keep (fun _ => False) _ s₁)) fun h => ?_
    exact hNotFallen (fellBack_of_silent h)
  refine Routine.Heeds.bind (hAnswer.mono ?_)
  intro result did₁ s₁ hReady
  refine heeds_respond hReady fun _ => ?_
  cases result with
  | ok body => exact follow_calm q
  | error e => trivial

/-! ## Other jobs -/

section Modest

variable {may : ThreadId → Prop} {calls : Call → Prop}

/-- What only sends events tells no handles. -/
theorem Modest.tellsNone {s s' : Session} (h : Quiet may s s') : Modest may Dap.Outgoing.tellsNone s s' :=
  { h with
    sends :=
      have ⟨new, hNew, hEvents⟩ := h.sends
      ⟨new, hNew, fun m hm => Dap.Outgoing.tellsNone_of_event (hEvents m hm)⟩ }

theorem modest_of_calm {r : Activity α} {post : α → Prop} (hCalls : ∀ c, ¬resumes c → calls c)
    (h : r.Within calm post) : r.Within (modestly may Dap.Outgoing.tellsNone calls) post := by
  refine Routine.Within.weaken (b := calm) (fun s s' hQuiet => ?_) hCalls rfl h
  exact (Modest.mono (fun _ => False.elim) hQuiet).tellsNone

theorem serve_modest (hCalm : q.command ∉ handleRequests) :
    (serve q).Within (modestly (fun _ => False) Dap.Outgoing.tellsNone fun c => ¬resumes c) fun _ => True := by
  have hSend : ∀ {result}, Handless result → (send (.response (.of q result)) : Activity Unit).Within
      (modestly (fun _ => False) Dap.Outgoing.tellsNone fun c => ¬resumes c) fun _ => True := by
    intro result hHandless s
    refine ⟨⟨.of_view_eq _ rfl rfl, ⟨[_], rfl, ?_⟩, ⟨[], by simp [post], by simp⟩, rfl⟩, trivial⟩
    rcases result with e | (_ | body) <;> simp [Dap.Outgoing.tellsNone, Dap.Outgoing.frameIds, Dap.Outgoing.references,
      Dap.Response.of]
    exact hHandless
  refine Routine.within_bind.mpr ((modest_of_calm (fun _ h => h) (answer_calm hCalm)).mono ?_)
  rintro (e | body) hHandless
  · refine Routine.within_then ?_ fun _ => trivial
    exact Routine.within_bind.mpr ⟨fun s => (quiet_keep _ _ s).tellsNone, hSend handless_error⟩
  · exact Routine.within_then (hSend hHandless) fun _ => modest_of_calm (fun _ h => h) (follow_calm q)

theorem modest_of_eq {s s' : Session} (hFrames : s'.view.frames = s.view.frames)
    (hReferences : s'.view.references = s.view.references) (hOutbox : s'.outbox = s.outbox)
    (hLauncher : s'.launcherLane = s.launcherLane) (hArrivals : s'.arrivals = s.arrivals) :
    Modest may Dap.Outgoing.tellsNone s s' :=
  (quiet_of_eq may hFrames hReferences hOutbox hLauncher hArrivals).tellsNone

theorem announce_calm (d : DebuggeeId) : (announce d).Within calm fun _ => True := by
  refine Routine.within_then (r := drive d .threads) ⟨id, quiet_refl _, fun _ => trivial⟩ fun answer => ?_
  split
  · exact Routine.within_each fun x _ s => ⟨quiet_post (m := .thread _ _) _ trivial s, trivial⟩
  · exact ⟨quiet_keep _ _, trivial⟩

/-- The job that lets a debuggee run resumes it as a whole, and leaves all handles as they are. -/
theorem runDebuggee_modest (d : DebuggeeId) (announceThreads : Bool) :
    (runDebuggee d announceThreads).Within
      (modestly (fun _ => False) Dap.Outgoing.tellsNone fun c => resumes c → resumesAll c) fun _ => True := by
  refine Routine.within_then (r := onPhase Rendezvous.releaseWhenWaiting) ?_ fun _ => ?_
  · exact ⟨fun s => ⟨fun _ => modest_of_eq rfl rfl rfl rfl rfl, nofun⟩,
      fun _ s => ⟨modest_of_eq rfl rfl rfl rfl rfl, trivial⟩⟩
  have hResume : resumeDebuggee.Within
      (modestly (fun _ => False) Dap.Outgoing.tellsNone fun c => resumes c → resumesAll c) fun _ => True := by
    refine Routine.within_then (r := look (·.debuggee)) (fun s => ⟨modest_of_eq rfl rfl rfl rfl rfl, trivial⟩) fun found => ?_
    split
    · trivial
    · refine Routine.within_then ⟨fun s => (quiet_keep _ _ s).tellsNone, trivial⟩ fun _ => ?_
      refine Routine.within_then (r := drive _ .resumeAll) ⟨fun _ => trivial, fun s => (quiet_refl _ s).tellsNone,
        fun _ => trivial⟩ fun answer => ?_
      split
      · trivial
      · exact ⟨fun s => (quiet_keep _ _ s).tellsNone, trivial⟩
  have hRest : (do change (forwardStreams d); resumeDebuggee : Activity Unit).Within
      (modestly (fun _ => False) Dap.Outgoing.tellsNone fun c => resumes c → resumesAll c) fun _ => True :=
    Routine.within_then (fun s => ⟨modest_of_eq rfl rfl rfl rfl rfl, trivial⟩) fun _ => hResume
  split
  · exact Routine.within_then (modest_of_calm (fun c h hResumes => absurd hResumes h) (announce_calm d)) fun _ => hRest
  · exact hRest

/-- What a debuggee has written is forwarded as events. -/
theorem takeOutput_calm {n : Nat} {s s' : Session} {r : Activity Unit} (hTake : takeOutput n s = some (r, s')) :
    r.Within calm (fun _ => True) ∧ Quiet (fun _ => False) s s' := by
  have hClosed : ∀ category, (closed category : Activity Unit).Within calm fun _ => True :=
    fun _ => ⟨quiet_keep _ _, trivial⟩
  unfold takeOutput at hTake
  split at hTake
  · cases hTake
  split at hTake
  · cases hTake
  split at hTake
  · cases hTake
  · cases hTake
    exact ⟨fun s => ⟨quiet_post (m := .output _ _) _ trivial s, trivial⟩, quiet_of_eq _ rfl rfl rfl rfl rfl⟩
  · cases hTake
    exact ⟨hClosed _, quiet_of_eq _ rfl rfl rfl rfl rfl⟩
  · cases hTake
    exact ⟨Routine.within_then (r := warn _) ⟨quiet_keep _ _, trivial⟩ fun _ => hClosed _,
      quiet_of_eq _ rfl rfl rfl rfl rfl⟩

/-- A job that tells no handles keeps to its bounds, and what it has given up stays given up. -/
theorem heeds_modest {r : Activity α} (keeps : List Act → Prop)
    (h : r.Within (modestly may Dap.Outgoing.tellsNone calls) fun _ => True) (hKeeps : ∀ did x, keeps did → keeps (did ++ [x]))
    (hHere : keeps did) : r.Heeds (modestTerms may calls) (fun _ did' _ => keeps did') did s :=
  (h.heeds (fun did' _ => keeps did') rfl (fun h _ _ => h) (fun _ _ _ h _ hModest _ => ⟨hModest, hKeeps _ _ h⟩)
    (fun _ _ hCalls => hCalls) hHere).mono fun _ _ _ h => h.2

theorem heeds_modest_then {r : Activity α} {k : α → Activity β} {post : β → List Act → Session → Prop}
    (h : r.Within (modestly may Dap.Outgoing.tellsNone calls) fun _ => True)
    (hNext : ∀ a did s, (k a).Heeds (modestTerms may calls) post did s) :
    (r >>= k).Heeds (modestTerms may calls) post did s :=
  Routine.Heeds.bind ((heeds_modest (fun _ => True) h (fun _ _ _ => trivial) trivial).mono fun a did s _ =>
    hNext a did s)

end Modest

/-! ## Events -/

theorem Frees.snoc {x : Act} (h : Frees t did) : Frees t (did ++ [x]) := h.mono (prefix_snoc List.prefix_rfl)

theorem send_modest {may : ThreadId → Prop} {calls : Call → Prop} {m : Dap.Outgoing} (h : m.isEvent) :
    (send m : Activity Unit).Within (modestly may Dap.Outgoing.tellsNone calls) fun _ => True :=
  fun s => ⟨(quiet_post _ h s).tellsNone, trivial⟩

theorem heeds_threadExited (t : ThreadId) (s : Session) :
    (onEvent (.threadChanged t .exited) : Activity Unit).Heeds
      (modestTerms (ends · (.threadChanged t .exited)) fun _ => False)
      (fun _ did _ => ∀ u, ends u (.threadChanged t .exited) → Frees u did) [] s := by
  intro s₁ _ _
  refine ⟨((quiet_releaseFrames t s₁).mono fun _ h => h.symm).tellsNone, ?_⟩
  intro s₂ _ _
  refine ⟨((quiet_releaseVariables t s₂).mono fun _ h => h.symm).tellsNone, ?_⟩
  refine heeds_modest (fun did => ∀ u, ends u (.threadChanged t .exited) → Frees u did)
    (r := do change fun s => { s with exceptions := s.exceptions.release t }; send (.thread "exited" (threadToClient t)))
    (Routine.within_then (fun s => ⟨modest_of_eq rfl rfl rfl rfl rfl, trivial⟩) fun _ => send_modest trivial)
    (fun _ _ h u hEnds => (h u hEnds).snoc) ?_
  rintro u rfl
  exact ⟨⟨_, List.mem_cons_self, Handles.ownedBy_release ..⟩, _, List.mem_cons_of_mem _ List.mem_cons_self,
    Handles.ownedBy_release ..⟩

theorem heeds_exited (code : Option Int32) (s : Session) :
    (onEvent (.exited code) : Activity Unit).Heeds (modestTerms (ends · (.exited code)) fun _ => False)
      (fun _ did _ => ∀ u, ends u (.exited code) → Frees u did) [] s := by
  refine heeds_modest_then (r := info _) ⟨fun s => (quiet_keep _ _ s).tellsNone, trivial⟩ fun _ _ _ => ?_
  refine heeds_modest_then (fun s => ⟨modest_of_eq rfl rfl rfl rfl rfl, trivial⟩) fun _ _ _ => ?_
  refine heeds_modest_then (fun s => ⟨modest_of_eq rfl rfl rfl rfl rfl, trivial⟩) fun _ did s => ?_
  have hAll : (releaseAll : Activity Unit).Heeds (modestTerms (ends · (.exited code)) fun _ => False)
      (fun _ did _ => ∀ u, ends u (.exited code) → Frees u did) did s := by
    intro s' _ _
    refine ⟨((quiet_releaseAll s').mono fun _ _ => trivial).tellsNone, ?_⟩
    refine heeds_modest (fun did => ∀ u, ends u (.exited code) → Frees u did)
      (fun s => ⟨modest_of_eq rfl rfl rfl rfl rfl, trivial⟩) (fun _ _ h u hEnds => (h u hEnds).snoc) ?_
    exact fun u _ => ⟨⟨_, List.mem_concat_self .., rfl⟩, _, List.mem_concat_self .., rfl⟩
  refine Routine.Heeds.bind (hAll.mono fun _ did s hFrees => ?_)
  refine heeds_modest (fun did => ∀ u, ends u (.exited code) → Frees u did) ?_
    (fun _ _ h u hEnds => (h u hEnds).snoc) hFrees
  refine Routine.within_then (fun s => ⟨modest_of_eq rfl rfl rfl rfl rfl, trivial⟩) fun _ => ?_
  exact Routine.within_then (send_modest trivial) fun _ => send_modest trivial

theorem heeds_onEvent (e : DebugEvent) (s : Session) :
    (onEvent e : Activity Unit).Heeds (modestTerms (ends · e) fun _ => False)
      (fun _ did _ => ∀ u, ends u e → Frees u did) [] s := by
  have hOther : ∀ {r : Activity Unit}, (∀ u, ¬ends u e) →
      r.Within (modestly (ends · e) Dap.Outgoing.tellsNone fun _ => False) (fun _ => True) →
      r.Heeds (modestTerms (ends · e) fun _ => False) (fun _ did _ => ∀ u, ends u e → Frees u did) [] s :=
    fun hNone h => heeds_modest (fun did => ∀ u, ends u e → Frees u did) h
      (fun _ _ h u hEnds => (h u hEnds).snoc) fun u hEnds => absurd hEnds (hNone u)
  cases e with
  | breakpointHit t => exact hOther (fun _ => id) (send_modest trivial)
  | step t => exact hOther (fun _ => id) (send_modest trivial)
  | exceptionThrown t x =>
    exact hOther (fun _ => id) (Routine.within_then (fun s => ⟨modest_of_eq rfl rfl rfl rfl rfl, trivial⟩) fun _ =>
      send_modest trivial)
  | threadChanged t c =>
    cases c with
    | started => exact hOther (fun _ => id) (send_modest trivial)
    | exited => exact heeds_threadExited t s
  | breakpointResolved id line =>
    refine hOther (fun _ h => h) (Routine.within_then (fun s => ⟨modest_of_eq rfl rfl rfl rfl rfl, trivial⟩) fun set => ?_)
    split
    · exact Routine.within_then (fun s => ⟨modest_of_eq rfl rfl rfl rfl rfl, trivial⟩) fun _ => send_modest trivial
    · trivial
  | exited code => exact heeds_exited code s

/-! ## All jobs -/

theorem heeds_onLane {name : String} {r : Activity Unit} {k : Hand} {job : Job}
    (hNote : ∀ s, (terms k job).does [] ⟨none, s, keep ⟨.trace, .lanes, s!"Lane {name} running job"⟩ s⟩)
    (hKeep : (terms k job).keep = keep)
    (h : ∀ s', r.Heeds (terms k job) (ending k job)
      [⟨none, s', keep ⟨.trace, .lanes, s!"Lane {name} running job"⟩ s'⟩]
      (keep ⟨.trace, .lanes, s!"Lane {name} running job"⟩ s')) :
    (Worker.onLane name r).Heeds (terms k job) (ending k job) [] s := by
  intro s' _ _
  rw [hKeep]
  exact ⟨hNote s', h s'⟩

theorem sound_of_eq {s s' : Session} (h : Sound s) (hReferences : s'.references = s.references)
    (hLauncher : s'.launcherLane = s.launcherLane) (hArrivals : s'.arrivals = s.arrivals) : Sound s' :=
  ⟨hReferences ▸ h.next, hLauncher ▸ h.launcherLane, hArrivals ▸ h.arrivals⟩

theorem Modest.sound {may : ThreadId → Prop} {tells : Dap.Outgoing → Prop} {s s' : Session} (h : Modest may tells s s')
    (hSound : Sound s) : Sound s' where
  next := h.references.next ▸ hSound.next
  launcherLane q hq := by
    obtain ⟨new, hNew, hRuns⟩ := h.launcherLane
    rw [hNew] at hq
    rcases List.mem_append.mp hq with hq | hq
    · exact hSound.launcherLane q hq
    · obtain ⟨d, announce, hRun⟩ := hRuns _ hq
      cases hRun
  arrivals := h.arrivals ▸ hSound.arrivals

theorem takes_sheds {k : Hand} {job : Job} {s s' : Session} {r : Activity Unit} (hTakes : Takes k job s r s') :
    s.Sheds (fun _ => False) s' := by
  cases hTakes with
  | event => exact .refl ..
  | @job w _ _ _ _ _ hTake =>
    cases w with
    | forwarder n => exact (takeOutput_calm hTake).2.toSheds
    | _ =>
      simp only [Worker.take] at hTake
      split at hTake <;> cases hTake
      exact .of_view_eq _ rfl rfl

theorem takes_sound {k : Hand} {job : Job} {s s' : Session} {r : Activity Unit} (hSound : Sound s)
    (hTakes : Takes k job s r s') : Sound s' := by
  cases hTakes with
  | event => exact hSound
  | @job w _ _ _ _ _ hTake =>
    cases w with
    | defaultLane =>
      simp only [Worker.take] at hTake
      split at hTake <;> cases hTake
      exact sound_of_eq hSound rfl rfl rfl
    | launcherLane =>
      simp only [Worker.take] at hTake
      split at hTake <;> cases hTake
      next first rest hLane =>
        refine ⟨hSound.next, fun q hq => hSound.launcherLane q ?_, hSound.arrivals⟩
        rw [hLane]
        exact List.mem_cons_of_mem _ hq
    | forwarder n => exact (takeOutput_calm hTake).2.sound hSound
    | arrival n =>
      simp only [Worker.take] at hTake
      split at hTake <;> cases hTake
      exact ⟨hSound.next, hSound.launcherLane, fun x hx => hSound.arrivals x (List.mem_filter.mp hx).1⟩

theorem takes_heeds {k : Hand} {job : Job} {s s' : Session} {r : Activity Unit} (hSound : Sound s)
    (hTakes : Takes k job s r s') : r.Heeds (terms k job) (ending k job) [] s' := by
  cases hTakes with
  | event => exact heeds_onEvent _ _
  | @job w _ _ _ _ hJob hTake =>
    cases w with
    | defaultLane =>
      simp only [Worker.take] at hTake
      simp only [Worker.job?] at hJob
      split at hTake
      · cases hTake
      · next q rest hLane =>
        cases hTake
        rw [hLane] at hJob
        cases hJob
        refine heeds_onLane (fun s => .quiet (quiet_keep _ _ s)) rfl fun s' => ?_
        exact heeds_serve (nothing_nil.snoc (quiet_keep (fun _ => False) _ s')) (by simp [fellBack])
    | launcherLane =>
      simp only [Worker.take] at hTake
      simp only [Worker.job?] at hJob
      split at hTake
      · cases hTake
      · next first rest hLane =>
        cases hTake
        rw [hLane] at hJob
        cases first with
        | request q =>
          cases hJob
          refine heeds_onLane (fun s => (quiet_keep _ _ s).tellsNone) rfl fun s' => ?_
          refine heeds_modest (fun _ => True) (serve_modest ?_) (fun _ _ _ => trivial) trivial
          rcases hSound.launcherLane q (by simp [hLane]) with h | h <;> simp [handleRequests, h]
        | run d announceThreads =>
          cases hJob
          refine heeds_onLane (fun s => (quiet_keep _ _ s).tellsNone) rfl fun s' => ?_
          exact heeds_modest (fun _ => True) (runDebuggee_modest d announceThreads) (fun _ _ _ => trivial) trivial
    | forwarder n =>
      cases hJob
      have hCalm := (takeOutput_calm hTake).1
      exact heeds_modest (fun _ => True) (modest_of_calm (fun _ h => h) hCalm) (fun _ _ _ => trivial) trivial
    | arrival n =>
      simp only [Worker.take] at hTake
      simp only [Worker.job?] at hJob
      split at hTake
      · next m q hFound =>
        cases hTake
        rw [hFound] at hJob
        cases hJob
        refine heeds_modest (fun _ => True) (serve_modest ?_) (fun _ _ _ => trivial) trivial
        have hCommand := hSound.arrivals _ (List.mem_of_find?_eq_some hFound)
        simp only at hCommand
        simp [handleRequests, hCommand]
      · cases hTake

theorem Outside.sheds {s s' : Session} (h : Outside s s') : s.Sheds (fun _ => False) s' := by
  cases h with
  | dispatch q =>
    unfold Session.dispatch
    split <;> exact .of_view_eq _ rfl rfl
  | _ => exact .of_view_eq _ rfl rfl

theorem Outside.sound {s s' : Session} (h : Outside s s') (hSound : Sound s) : Sound s' := by
  cases h with
  | dispatch q =>
    have hLauncher : q.command = "launch" ∨ q.command = "attach" →
        Sound { s with launcherLane := s.launcherLane ++ [.request q] } := by
      intro hCommand
      refine ⟨hSound.next, fun q' hq' => ?_, hSound.arrivals⟩
      rcases List.mem_append.mp hq' with hq' | hq'
      · exact hSound.launcherLane q' hq'
      · cases List.mem_singleton.mp hq'
        exact hCommand
    unfold Session.dispatch
    split
    · next hCommand => exact hLauncher (.inl hCommand)
    · next hCommand => exact hLauncher (.inr hCommand)
    · next hCommand =>
      refine ⟨hSound.next, hSound.launcherLane, fun x hx => ?_⟩
      rcases List.mem_append.mp hx with hx | hx
      · exact hSound.arrivals x hx
      · rw [List.mem_singleton.mp hx]
        exact hCommand
    · exact sound_of_eq hSound rfl rfl rfl
  | _ => exact sound_of_eq hSound rfl rfl rfl

/-- The terms of a job: those of a request on the default lane, or those of a job that tells no handles. -/
theorem terms_cases (k : Hand) (job : Job) :
    (∃ q, k = .worker .defaultLane ∧ job = .request q ∧ terms k job = requestTerms q) ∨
      ∃ may calls, terms k job = modestTerms may calls := by
  unfold terms
  split
  · exact .inl ⟨_, rfl, rfl, rfl⟩
  all_goals exact .inr ⟨_, _, rfl⟩

theorem Conduct.sound {x : Act} (h : Conduct q did x) (hSound : Sound x.before) : Sound x.after := by
  cases h with
  | quiet hQuiet => exact hQuiet.sound hSound
  | frame f hAfter _ => exact hAfter ▸ sound_of_eq hSound rfl rfl rfl
  | reference r hAfter _ =>
    rw [hAfter]
    refine ⟨?_, hSound.launcherLane, hSound.arrivals⟩
    have := hSound.next
    simp only [references, withReference, Handles.store] at this ⊢
    omega
  | responds result hAfter _ => exact hAfter ▸ sound_of_eq hSound rfl rfl rfl

theorem accord (told : (c : Call) → Answer c → Prop) : Accord (setting told) Sound terms ending where
  valid k job := by rcases terms_cases k job with ⟨q, -, -, h⟩ | ⟨may, calls, h⟩ <;> rw [h] <;> rfl
  keep k job := by rcases terms_cases k job with ⟨q, -, -, h⟩ | ⟨may, calls, h⟩ <;> rw [h] <;> rfl
  answered {k job} _ _ _ _ _ := by rcases terms_cases k job with ⟨q, -, -, h⟩ | ⟨may, calls, h⟩ <;> rw [h] <;> trivial
  takes hSound hTakes := ⟨takes_sound hSound hTakes, takes_heeds hSound hTakes⟩
  own {k job _ _ _ _} hSound hDoes := by
    rcases terms_cases k job with ⟨q, -, -, h⟩ | ⟨may, calls, h⟩
    · rw [h] at hDoes
      exact Conduct.sound hDoes hSound
    · rw [h] at hDoes
      exact Modest.sound hDoes hSound
  outside hSound hOutside := Outside.sound hOutside hSound
  others_own {j k job job' _ _ _ _} hNe hDoes := by
    rcases terms_cases k job' with ⟨q, rfl, -, h⟩ | ⟨may, calls, h⟩
    · rcases terms_cases j job with ⟨q', rfl, -, -⟩ | ⟨may, calls, h'⟩
      · exact absurd rfl hNe
      · rw [h'] at hDoes
        rw [h]
        exact (Modest.toSheds hDoes).mono fun _ _ => trivial
    · rw [h]
      trivial
  others_takes {j k job job' _ _ _} hNe hTakes := by
    rcases terms_cases k job' with ⟨q, rfl, -, h⟩ | ⟨may, calls, h⟩
    · rw [h]
      exact (takes_sheds hTakes).mono fun _ => False.elim
    · rw [h]
      trivial
  others_outside {k job _ _ _ _} hOutside := by
    rcases terms_cases k job with ⟨q, rfl, -, h⟩ | ⟨may, calls, h⟩
    · rw [h]
      exact (Outside.sheds hOutside).mono fun _ => False.elim
    · rw [h]
      trivial

end JvmDebug.Session
