import JvmDebug.Proofs.Session.Calm

/-!
# Requests that give handles up

How a request is followed step by step while others come in: what it reads, changes and asks, and what is known of it
when it is answered.

A thread that is to run loses its handles first, and if it cannot run on its own, all threads do. The end of the session
leaves no handles either.
-/

namespace JvmDebug.Session
set_option autoImplicit false

/-! ## Serving a request -/

section Serving

open Jdwp (ThreadId)

variable {q : Dap.Request} {did did' : List Act} {x : Act} {s s' : Session} {t : ThreadId} {α β : Type}
  {may : ThreadId → Prop}

/-! What has been done so far -/

theorem issued_snoc {γ : Type} (pool : Session → Handles ThreadId γ) (did : List Act) (x : Act) :
    issued pool (did ++ [x]) = issued pool did ++ added (pool x.before).entries (pool x.after).entries := by
  simp [issued]

theorem fellBack_snoc :
    fellBack (did ++ [x]) ↔ fellBack did ∨ ∃ d t, x.asked = asked d (.resume t) (.ok .threadUnavailable) := by
  simp [fellBack, or_and_right, exists_or]

theorem prefix_snoc {x : Act} (hMore : did <+: did') : did <+: did' ++ [x] := hMore.trans (List.prefix_append ..)

/-- A step that asks nothing is not the one at which a thread could not be resumed. -/
theorem fellBack_of_silent (h : fellBack (did ++ [⟨none, s, s'⟩])) : fellBack did := by
  rcases fellBack_snoc.mp h with h | ⟨d, t, hAsked⟩
  · exact h
  · cases hAsked

theorem MayFree.mono (hMore : did <+: did') (h : MayFree q did t) : MayFree q did' t := by
  rcases h with h | h | ⟨x, hx, h⟩
  · exact .inl h
  · exact .inr (.inl h)
  · exact .inr (.inr ⟨x, hMore.subset hx, h⟩)

/-- Only a step at which a thread could not be resumed has more handles given up. -/
theorem HasFreed.of_snoc (h : HasFreed q (did ++ [x]) t)
    (hAsked : ∀ d t, x.asked ≠ asked d (.resume t) (.ok .threadUnavailable)) : HasFreed q did t := by
  rcases h with ⟨hResumes, hPresent⟩ | hDisconnect | hFallen
  · exact .inl ⟨hResumes, fun y hy => hPresent y (List.mem_append_left _ hy)⟩
  · exact .inr (.inl hDisconnect)
  · rcases fellBack_snoc.mp hFallen with hFallen | ⟨d, u, hHere⟩
    · exact .inr (.inr hFallen)
    · exact absurd hHere (hAsked d u)

theorem Frees.mono (hMore : did <+: did') (h : Frees t did) : Frees t did' := by
  obtain ⟨⟨x, hx, hFrames⟩, y, hy, hReferences⟩ := h
  exact ⟨⟨x, hMore.subset hx, hFrames⟩, y, hMore.subset hy, hReferences⟩

theorem Told.mono {frames : List FrameRef} {references : List VariableRef} (hMore : did <+: did')
    (h : Told q did frames references) : Told q did' frames references := by
  have hSub := hMore.subset
  cases h with
  | stackTrace hCommand hArguments hx hAsked => exact .stackTrace hCommand hArguments (hSub hx) hAsked
  | scopes hCommand hArguments hy hFrame hx hAsked =>
    exact .scopes hCommand hArguments (hSub hy) hFrame (hSub hx) hAsked
  | expand hCommand hArguments hy hReference hx hAsked =>
    exact .expand hCommand hArguments (hSub hy) hReference (hSub hx) hAsked
  | evaluate hCommand hArguments hSome hy hFrame hx hAsked =>
    exact .evaluate hCommand hArguments hSome (hSub hy) hFrame (hSub hx) hAsked

theorem Modest.mono {may' : ThreadId → Prop} {tells : Dap.Outgoing → Prop} (hMay : ∀ t, may t → may' t)
    (h : Modest may tells s s') : Modest may' tells s s' :=
  { h with toSheds := h.toSheds.mono hMay }

/-- Nothing has been given out, and nothing has been answered. -/
structure Nothing (did : List Act) : Prop where
  unanswered : sendsNoResponse did
  frames : issued frames did = []
  references : issued references did = []

theorem nothing_nil : Nothing [] := ⟨by simp [sendsNoResponse], rfl, rfl⟩

theorem Nothing.snoc (h : Nothing did) (hQuiet : Quiet may x.before x.after) : Nothing (did ++ [x]) where
  unanswered y hy := by
    rcases List.mem_append.mp hy with hy | hy
    · exact h.unanswered y hy
    · exact List.mem_singleton.mp hy ▸ hQuiet.sends
  frames := by rw [issued_snoc, h.frames, hQuiet.frames.added, List.append_nil]
  references := by rw [issued_snoc, h.references, hQuiet.references.added, List.append_nil]

/-! What holds when a request has been served -/

/-- What is known of a request that is about to be answered. -/
structure Ready (q : Dap.Request) (did : List Act) (result : Except Error (Option Json)) : Prop
    extends Answered q did result where
  freed : ∀ t, HasFreed q did t → Frees t did

/-- A request that gave nothing out, and does not tell of any handles. -/
theorem Nothing.ready {result : Except Error (Option Json)} (h : Nothing did) (hHandless : Handless result)
    (hShown : ¬(q.shows ∧ result.isOk)) (hFreed : ∀ t, HasFreed q did t → Frees t did)
    (hFrame : ∀ handle, q.asksFrame handle →
      ∃ x ∈ did, ∀ why, x.before.view.frame handle = .error why → result = .error why)
    (hReference : ∀ handle, q.asksReference handle →
      ∃ x ∈ did, ∀ why, x.before.view.reference handle = .error why → result = .error why) : Ready q did result where
  unanswered := h.unanswered
  frameIds := by
    rw [h.frames]
    rcases result with e | (_ | body)
    · rfl
    · rfl
    · exact hHandless.1
  references := by
    rw [h.references]
    rcases result with e | (_ | body)
    · rfl
    · rfl
    · exact hHandless.2
  shown hShows hOk := absurd ⟨hShows, hOk⟩ hShown
  frame := hFrame
  reference := hReference
  freed := hFreed

/-! Steps -/

section Steps

variable {post : Except Error β → List Act → Session → Prop}

/-- A step that gives no handles out. -/
theorem goes_of_quiet {next : List Act → Session → Prop} {asked : Option (Asked World)}
    (hQuiet : Quiet (MayFree q did) s s') (h : next (did ++ [⟨asked, s, s'⟩]) s') :
    (requestTerms q).Goes next did ⟨asked, s, s'⟩ :=
  ⟨.quiet hQuiet, h⟩

theorem heeds_see {f : Session → α} {k : α → Work β}
    (h : ∀ s', s.Sheds (fun _ => True) s' → Sound s' →
      (k (f s')).run.Heeds (requestTerms q) post (did ++ [⟨none, s', s'⟩]) s') :
    (see f >>= k).run.Heeds (requestTerms q) post did s :=
  fun s' hSheds hSound => goes_of_quiet (quiet_refl _ s') (h s' hSheds hSound)

theorem heeds_alterGet {f : Session → α × Session} {k : α → Work β} (hQuiet : ∀ s, Quiet (fun _ => False) s (f s).2)
    (hNothing : Nothing did) (h : ∀ s', Nothing (did ++ [⟨none, s', (f s').2⟩]) →
      (k (f s').1).run.Heeds (requestTerms q) post (did ++ [⟨none, s', (f s').2⟩]) (f s').2) :
    (alterGet f >>= k).run.Heeds (requestTerms q) post did s :=
  fun s' _ _ => goes_of_quiet ((hQuiet s').mono fun _ => False.elim) (h s' (hNothing.snoc (hQuiet s')))

theorem heeds_alter {f : Session → Session} {k : Unit → Work β} (hQuiet : ∀ s, Quiet (fun _ => False) s (f s))
    (hNothing : Nothing did) (h : ∀ s', Nothing (did ++ [⟨none, s', f s'⟩]) →
      (k ()).run.Heeds (requestTerms q) post (did ++ [⟨none, s', f s'⟩]) (f s')) :
    (alter f >>= k).run.Heeds (requestTerms q) post did s :=
  fun s' _ _ => goes_of_quiet ((hQuiet s').mono fun _ => False.elim) (h s' (hNothing.snoc (hQuiet s')))

theorem heeds_require {r : Except Error α} {k : α → Work β}
    (hOk : ∀ a, r = .ok a → (k a).run.Heeds (requestTerms q) post did s)
    (hError : ∀ e, r = .error e → (pure (.error e) : Activity _).Heeds (requestTerms q) post did s) :
    (require r >>= k).run.Heeds (requestTerms q) post did s := by
  rcases r with e | a
  · exact hError e rfl
  · exact hOk a rfl

/-- What it comes to in the end, whatever others do after that. -/
theorem heeds_pure {a : β} {post : β → List Act → Session → Prop} (h : ∀ s, post a did s) :
    (pure a : Activity β).Heeds (requestTerms q) post did s := fun s' _ _ => h s'

theorem heeds_note {r : Log.Record} {k : Unit → Work β}
    (h : ∀ s', s.Sheds (fun _ => True) s' →
      (k ()).run.Heeds (requestTerms q) post (did ++ [⟨none, s', keep r s'⟩]) (keep r s')) :
    (act (.note r (.done ())) >>= k).run.Heeds (requestTerms q) post did s :=
  fun s' hSheds _ => goes_of_quiet (quiet_keep _ r s') (h s' hSheds)

end Steps

/-- What leaves handles alone leaves everything as it was for the request. -/
theorem heeds_of_calm {r : Activity α} {yields : α → Prop} (h : r.Within calm yields) (hNothing : Nothing did)
    (hNotFallen : ¬fellBack did) :
    r.Heeds (requestTerms q) (fun a did' _ => yields a ∧ did <+: did' ∧ Nothing did' ∧ ¬fellBack did') did s := by
  refine h.heeds (fun did' _ => did <+: did' ∧ Nothing did' ∧ ¬fellBack did') rfl (fun h _ _ => h) ?_ ?_
    ⟨List.prefix_rfl, hNothing, hNotFallen⟩
  · rintro did' asked s s' ⟨hMore, hNothing, hNotFallen⟩ - hQuiet hCalls
    refine ⟨.quiet (hQuiet.mono fun _ => False.elim), hMore.trans (List.prefix_append ..), hNothing.snoc hQuiet, ?_⟩
    rw [fellBack_snoc]
    rintro (hFallen | ⟨d, t, hAsked⟩)
    · exact hNotFallen hFallen
    · exact hCalls _ hAsked trivial
  · exact fun _ _ hCalls => safe_of_not_resumes hCalls _

end Serving

/-! ## Requests that give handles up -/

section Releasing

open Jdwp (ThreadId)

variable {q : Dap.Request} {did did' : List Act} {s : Session} {t : ThreadId} {β : Type}
  {post : Except Error β → List Act → Session → Prop}

theorem Bare.later {s' : Session} {may : ThreadId → Prop} (h : Bare t s) (hSheds : s.Sheds may s') : Bare t s' :=
  ⟨hSheds.frames.ownedBy_eq_nil h.frames, hSheds.references.ownedBy_eq_nil h.references⟩

theorem quiet_of_sheds {may : ThreadId → Prop} {s s' : Session} (hSheds : s.Sheds may s') (hOutbox : s'.outbox = s.outbox)
    (hLauncher : s'.launcherLane = s.launcherLane) (hArrivals : s'.arrivals = s.arrivals) : Quiet may s s' where
  toSheds := hSheds
  sends := ⟨[], by simpa using hOutbox, by simp⟩
  launcherLane := ⟨[], by simpa using hLauncher, by simp⟩
  arrivals := hArrivals

theorem quiet_releaseFrames (t : ThreadId) (s : Session) :
    Quiet (· = t) s { s with view := s.view.releaseFrames t } :=
  quiet_of_sheds ⟨Handles.sheds_release .., .refl ..⟩ rfl rfl rfl

theorem quiet_releaseVariables (t : ThreadId) (s : Session) :
    Quiet (· = t) s { s with view := s.view.releaseVariables t } :=
  quiet_of_sheds ⟨.refl .., Handles.sheds_release ..⟩ rfl rfl rfl

theorem quiet_releaseAll (s : Session) : Quiet (fun _ => True) s { s with view := s.view.releaseAll } :=
  quiet_of_sheds ⟨Handles.sheds_releaseAll _, Handles.sheds_releaseAll _⟩ rfl rfl rfl

theorem frees_of_bare {x : Act} (hx : x ∈ did) (hBare : Bare t x.after) : Frees t did :=
  ⟨⟨x, hx, hBare.frames⟩, x, hx, hBare.references⟩

theorem heeds_releaseThread {k : Unit → Work β} (hMay : MayFree q did t) (hNothing : Nothing did)
    (h : ∀ did' s', did <+: did' → Nothing did' → (fellBack did' → fellBack did) → Frees t did' → Bare t s' →
      (k ()).run.Heeds (requestTerms q) post did' s') :
    (act (releaseThread t) >>= k).run.Heeds (requestTerms q) post did s := by
  have hOnly : ∀ {did'}, did <+: did' → ∀ u, u = t → MayFree q did' u := fun hMore u hu => hu ▸ hMay.mono hMore
  intro s₁ _ _
  refine goes_of_quiet ((quiet_releaseFrames t s₁).mono (hOnly List.prefix_rfl)) ?_
  intro s₂ h₂ _
  refine goes_of_quiet ((quiet_releaseVariables t s₂).mono (hOnly (prefix_snoc List.prefix_rfl))) ?_
  intro s₃ h₃ _
  refine goes_of_quiet (quiet_of_eq _ rfl rfl rfl rfl rfl) ?_
  have hGone : s₂.frames.ownedBy t = [] := h₂.frames.ownedBy_eq_nil (Handles.ownedBy_release ..)
  have hBare : Bare t s₃ := ⟨h₃.frames.ownedBy_eq_nil hGone, h₃.references.ownedBy_eq_nil (Handles.ownedBy_release ..)⟩
  refine h _ _ (prefix_snoc (prefix_snoc (prefix_snoc List.prefix_rfl)))
    (((hNothing.snoc (quiet_releaseFrames t s₁)).snoc (quiet_releaseVariables t s₂)).snoc
      (quiet_of_eq (fun _ => False) rfl rfl rfl rfl rfl))
    (fun hFallen => fellBack_of_silent (fellBack_of_silent (fellBack_of_silent hFallen)))
    (frees_of_bare (List.mem_concat_self ..) ⟨hBare.frames, hBare.references⟩) ⟨hBare.frames, hBare.references⟩

theorem heeds_releaseAll {k : Unit → Work β} (hMay : ∀ t, MayFree q did t) (hNothing : Nothing did)
    (h : ∀ did' s', did <+: did' → Nothing did' → (∀ t, Frees t did') → (∀ t, Bare t s') →
      (k ()).run.Heeds (requestTerms q) post did' s') :
    (act releaseAll >>= k).run.Heeds (requestTerms q) post did s := by
  intro s₁ _ _
  refine goes_of_quiet ((quiet_releaseAll s₁).mono fun t _ => hMay t) ?_
  intro s₂ h₂ _
  refine goes_of_quiet (quiet_of_eq _ rfl rfl rfl rfl rfl) ?_
  have hBare : ∀ t, Bare t s₂ := fun t => ⟨h₂.frames.ownedBy_eq_nil rfl, h₂.references.ownedBy_eq_nil rfl⟩
  refine h _ _ (prefix_snoc (prefix_snoc List.prefix_rfl))
    ((hNothing.snoc (quiet_releaseAll s₁)).snoc (quiet_of_eq (fun _ => False) rfl rfl rfl rfl rfl)) ?_ ?_
  · exact fun t => frees_of_bare (List.mem_concat_self ..) ⟨(hBare t).frames, (hBare t).references⟩
  · exact fun t => ⟨(hBare t).frames, (hBare t).references⟩

/-- Where no debuggee is found, the session had none at that moment. -/
theorem heeds_theDebuggee {k : DebuggeeId → Work β} (hNothing : Nothing did)
    (hNone : ∀ did' s', did <+: did' → Nothing did' → (fellBack did' → fellBack did) →
      (∃ x ∈ did', x.before.debuggee = none) → post (.error .noDebuggee) did' s')
    (hSome : ∀ d did' s', did <+: did' → Nothing did' → (fellBack did' → fellBack did) → s.Sheds (fun _ => True) s' →
      (k d).run.Heeds (requestTerms q) post did' s') :
    (theDebuggee >>= k).run.Heeds (requestTerms q) post did s := by
  unfold theDebuggee
  rw [bind_assoc]
  refine heeds_see fun s₁ h₁ _ => ?_
  have hMore : did <+: did ++ [⟨none, s₁, s₁⟩] := prefix_snoc List.prefix_rfl
  have hStill := hNothing.snoc (x := ⟨none, s₁, s₁⟩) (quiet_refl (fun _ => False) s₁)
  cases hDebuggee : s₁.debuggee with
  | none => exact fun s₂ _ _ => hNone _ s₂ hMore hStill fellBack_of_silent ⟨_, List.mem_concat_self .., hDebuggee⟩
  | some d => exact hSome d _ s₁ hMore hStill fellBack_of_silent h₁

/-! Letting threads run -/

/-- A request that has a thread run, and does nothing else with handles. -/
structure Runs (q : Dap.Request) (t : ThreadId) : Prop where
  thread : ∀ u, q.resumes u ↔ u = t
  shows : ¬q.shows
  frame : ∀ handle, ¬q.asksFrame handle
  reference : ∀ handle, ¬q.asksReference handle
  disconnect : q.command ≠ "disconnect"

theorem Runs.ready {result : Except Error (Option Json)} (hRuns : Runs q t) (hNothing : Nothing did)
    (hHandless : Handless result) (hFreed : (∀ x ∈ did, x.before.debuggee.isSome) → Frees t did)
    (hFallen : fellBack did → ∀ u, Frees u did) : Ready q did result := by
  refine hNothing.ready hHandless (fun h => hRuns.shows h.1) ?_ (fun handle h => absurd h (hRuns.frame handle))
    fun handle h => absurd h (hRuns.reference handle)
  rintro u (⟨hThread, hPresent⟩ | hDisconnect | hBack)
  · exact (hRuns.thread u).mp hThread ▸ hFreed hPresent
  · exact absurd hDisconnect hRuns.disconnect
  · exact hFallen hBack u

/-- Without a debuggee nothing is given up. -/
theorem Runs.ready_of_none (hRuns : Runs q t) (hNothing : Nothing did) (hNotFallen : ¬fellBack did)
    (hNone : ∃ x ∈ did, x.before.debuggee = none) : Ready q did (.error .noDebuggee) := by
  obtain ⟨x, hx, hNone⟩ := hNone
  refine hRuns.ready hNothing handless_error (fun hPresent => ?_) fun hFallen => absurd hFallen hNotFallen
  simpa [hNone] using hPresent x hx

theorem heeds_serveStep {kind : StepKind} (hRuns : Runs q t) (hNothing : Nothing did) (hNotFallen : ¬fellBack did) :
    (serveStep t kind).run.Heeds (requestTerms q) (fun result did' _ => Ready q did' result) did s := by
  have hMay : MayFree q did t := .inl ((hRuns.thread t).mpr rfl)
  refine heeds_theDebuggee hNothing ?_ ?_
  · intro did₁ s₁ _ hNothing₁ hFallen hNone
    exact hRuns.ready_of_none hNothing₁ (fun h => hNotFallen (hFallen h)) hNone
  intro d did₁ s₁ hMore₁ hNothing₁ hFallen₁ _
  refine heeds_releaseThread (hMay.mono hMore₁) hNothing₁ ?_
  intro did₂ s₂ _ hNothing₂ hFallen₂ hFrees hBare s₃ h₃ _
  refine ⟨hBare.later h₃, ?_⟩
  rintro a -
  refine goes_of_quiet (quiet_refl _ s₃) ?_
  have hReady : ∀ result, Handless result → Ready q (did₂ ++ [⟨asked d (.step t kind) a, s₃, s₃⟩]) result := by
    intro result hHandless
    refine hRuns.ready (hNothing₂.snoc (quiet_refl (fun _ => False) s₃)) hHandless
      (fun _ => hFrees.mono (prefix_snoc List.prefix_rfl)) fun hFallen => ?_
    rcases fellBack_snoc.mp hFallen with h | ⟨_, _, hAsked⟩
    · exact absurd (hFallen₁ (hFallen₂ h)) hNotFallen
    · cases hAsked
  rcases a with e | _
  · exact heeds_pure fun _ => hReady _ handless_error
  · exact heeds_pure fun _ => hReady _ handless_none

theorem handless_continued (all : Bool) : Handless (.ok (some (Json.object [("allThreadsContinued", .bool all)]))) :=
  Dap.handless_object (by simp [Dap.handleFields])

theorem heeds_serveContinue (hRuns : Runs q t) (hNothing : Nothing did) (hNotFallen : ¬fellBack did) :
    (serveContinue t).run.Heeds (requestTerms q) (fun result did' _ => Ready q did' result) did s := by
  have hMay : MayFree q did t := .inl ((hRuns.thread t).mpr rfl)
  refine heeds_theDebuggee hNothing ?_ ?_
  · intro did₁ s₁ _ hNothing₁ hFallen hNone
    exact hRuns.ready_of_none hNothing₁ (fun h => hNotFallen (hFallen h)) hNone
  intro d did₁ s₁ hMore₁ hNothing₁ hFallen₁ _
  refine heeds_releaseThread (hMay.mono hMore₁) hNothing₁ ?_
  intro did₂ s₂ _ hNothing₂ hFallen₂ hFrees hBare s₃ h₃ _
  refine ⟨hBare.later h₃, ?_⟩
  rintro a -
  refine goes_of_quiet (quiet_refl _ s₃) ?_
  have hNothing₃ := hNothing₂.snoc (x := ⟨asked d (.resume t) a, s₃, s₃⟩) (quiet_refl (fun _ => False) s₃)
  have hReady : a ≠ .ok .threadUnavailable → ∀ result, Handless result →
      Ready q (did₂ ++ [⟨asked d (.resume t) a, s₃, s₃⟩]) result := by
    intro hAvailable result hHandless
    refine hRuns.ready hNothing₃ hHandless (fun _ => hFrees.mono (prefix_snoc List.prefix_rfl)) fun hFallen => ?_
    rcases fellBack_snoc.mp hFallen with h | ⟨_, _, hAsked⟩
    · exact absurd (hFallen₁ (hFallen₂ h)) hNotFallen
    · cases hAsked
      exact absurd rfl hAvailable
  rcases a with e | (_ | _)
  · exact heeds_pure fun _ => hReady nofun _ handless_error
  · exact heeds_pure fun _ => hReady nofun _ (handless_continued false)
  have hBack : fellBack (did₂ ++ [⟨asked d (.resume t) (.ok .threadUnavailable), s₃, s₃⟩]) :=
    fellBack_snoc.mpr (.inr ⟨d, t, rfl⟩)
  change (act (debug _) >>= fun _ => act releaseAll >>= fun _ => demand (drive d .resumeAll) >>= fun _ =>
    (return some (Json.object [("allThreadsContinued", .bool true)]) : Work _)).run.Heeds _ _ _ _
  refine heeds_note fun s₄ _ => ?_
  refine heeds_releaseAll (fun _ => .inr (.inr ?_)) (hNothing₃.snoc (quiet_keep (fun _ => False) _ s₄)) ?_
  · exact fellBack_snoc.mpr (.inl hBack)
  intro did₄ s₅ _ hNothing₄ hAll hAllBare s₆ h₆ _
  refine ⟨fun u => (hAllBare u).later h₆, ?_⟩
  rintro a -
  refine goes_of_quiet (quiet_refl _ s₆) ?_
  have hReady : ∀ result, Handless result → Ready q (did₄ ++ [⟨asked d .resumeAll a, s₆, s₆⟩]) result :=
    fun result hHandless => hRuns.ready (hNothing₄.snoc (quiet_refl (fun _ => False) s₆)) hHandless
      (fun _ => (hAll t).mono (prefix_snoc List.prefix_rfl)) fun _ u => (hAll u).mono (prefix_snoc List.prefix_rfl)
  rcases a with e | _
  · exact heeds_pure fun _ => hReady _ handless_error
  · exact heeds_pure fun _ => hReady _ (handless_continued true)

/-! The end -/

theorem heeds_serveDisconnect (hDisconnect : q.command = "disconnect") (hNothing : Nothing did) :
    serveDisconnect.run.Heeds (requestTerms q) (fun result did' _ => Ready q did' result) did s := by
  refine heeds_alter (fun _ => quiet_of_eq _ rfl rfl rfl rfl rfl) hNothing fun _ hNothing₁ => ?_
  refine heeds_alter (fun _ => quiet_of_eq _ rfl rfl rfl rfl rfl) hNothing₁ fun _ hNothing₂ => ?_
  refine heeds_alterGet (fun _ => quiet_of_eq _ rfl rfl rfl rfl rfl) hNothing₂ fun s₃ hNothing₃ => ?_
  refine heeds_releaseAll (fun _ => .inr (.inl hDisconnect)) hNothing₃ ?_
  intro did₄ s₄ _ hNothing₄ hAll _
  have hReady : ∀ {did' result}, Nothing did' → Handless result → did₄ <+: did' → Ready q did' result := by
    intro did' result hNothing hHandless hMore
    refine hNothing.ready hHandless ?_ (fun t _ => (hAll t).mono hMore) ?_ ?_
    · simp [Dap.Request.shows, hDisconnect]
    · simp [Dap.Request.asksFrame, hDisconnect]
    · simp [Dap.Request.asksReference, hDisconnect]
  cases hDebuggee : (takeDebuggee s₃).1 with
  | none => exact heeds_pure fun _ => hReady hNothing₄ handless_none List.prefix_rfl
  | some d =>
    intro s₅ _ _
    refine ⟨trivial, ?_⟩
    rintro a -
    refine goes_of_quiet (quiet_refl _ s₅) ?_
    have hNothing₅ := hNothing₄.snoc (x := ⟨asked d .disconnect a, s₅, s₅⟩) (quiet_refl (fun _ => False) s₅)
    have hMore := prefix_snoc (x := ⟨asked d .disconnect a, s₅, s₅⟩) (List.prefix_refl did₄)
    rcases a with e | _
    · change (if !e.isDisconnect then throw e >>= fun (_ : PUnit) => act (debug _) >>= fun _ => pure none
        else act (debug _) >>= fun _ => pure none : Work (Option Json)).run.Heeds _ _ _ _
      split
      · exact heeds_pure fun _ => hReady hNothing₅ handless_error hMore
      · refine heeds_note fun s₆ _ => heeds_pure fun _ => ?_
        exact hReady (hNothing₅.snoc (quiet_keep (fun _ => False) _ s₆)) handless_none (prefix_snoc hMore)
    · exact heeds_pure fun _ => hReady hNothing₅ handless_none hMore

end Releasing

end JvmDebug.Session
