import JvmDebug.Proofs.Session.Releasing

/-!
# Requests that give handles out

A request that shows frames or references gives each of them a handle of its own, in the order in which it was told of
them, and answers with these handles.
-/

namespace JvmDebug.Session
set_option autoImplicit false

open Jdwp (ThreadId)

variable {q : Dap.Request} {did did' : List Act} {s : Session} {α β γ : Type}

/-- The step in which something is shown. -/
def showStep (add : ClientView → α → β × ClientView) (a : α) (s : Session) : Act :=
  ⟨none, s, { s with view := (add s.view a).2 }⟩

theorem heeds_show {add : ClientView → α → β × ClientView} {a : α} {k : β → Work γ}
    {post : Except Error γ → List Act → Session → Prop}
    (h : ∀ s', Sound s' → Conduct q did (showStep add a s') ∧
      (k (add s'.view a).1).run.Heeds (requestTerms q) post (did ++ [showStep add a s']) (showStep add a s').after) :
    (show_ add a >>= k).run.Heeds (requestTerms q) post did s :=
  fun s' _ hSound => h s' hSound

/-- What holds of the things shown so far holds of all of them in the end. -/
theorem heeds_showAll {add : ClientView → α → β × ClientView} {all : List α}
    (holds : List α → List β → List Act → Prop)
    (hStep : ∀ before a after shown did s, all = before ++ a :: after → Sound s → holds before shown did →
      Conduct q did (showStep add a s) ∧ holds (before ++ [a]) (shown ++ [(add s.view a).1]) (did ++ [showStep add a s]))
    (hHere : holds [] [] did) :
    (all.mapM (show_ add)).run.Heeds (requestTerms q)
      (fun result did' _ => ∃ shown, result = .ok shown ∧ holds all shown did') did s := by
  suffices ∀ rest before shown did s, all = before ++ rest → holds before shown did →
      (rest.mapM (show_ add)).run.Heeds (requestTerms q)
        (fun result did' _ => ∃ more, result = .ok more ∧ holds all (shown ++ more) did') did s by
    simpa using this all [] [] did s rfl hHere
  intro rest
  induction rest with
  | nil =>
    intro before shown did s hAll hHere
    rw [List.mapM_nil]
    refine heeds_pure fun _ => ⟨[], rfl, ?_⟩
    rw [List.append_nil] at hAll ⊢
    exact hAll ▸ hHere
  | cons a after ih =>
    intro before shown did s hAll hHere
    rw [List.mapM_cons]
    refine heeds_show fun s₁ hSound => ?_
    obtain ⟨hConduct, hThere⟩ := hStep before a after shown did s₁ hAll hSound hHere
    refine ⟨hConduct, ?_⟩
    refine Attempt.heeds_bind ((ih (before ++ [a]) _ _ _ (by simpa using hAll) hThere).mono ?_)
    rintro _ did' s' ⟨more, rfl, hMore⟩
    rw [Attempt.andThen_ok]
    exact heeds_pure fun _ => ⟨_, rfl, by simpa using hMore⟩

/-! ## Frames -/

/-- What a request has shown so far of the frames that it was told of. -/
structure FramesShown (q : Dap.Request) (all before : List StackFrame) (shown : List Dap.FrameView) (did : List Act) :
    Prop where
  told : Told q did (all.map (·.frame)) []
  unanswered : sendsNoResponse did
  notFallen : ¬fellBack did
  ids : (issued frames did).map (·.1) = shown.map (·.id)
  values : (issued frames did).map (·.2.2) = before.map (·.frame)
  noReferences : issued references did = []

theorem added_withFrame (f : FrameRef) (s : Session) :
    added s.frames.entries (s.withFrame f).frames.entries = [(s.frames.next, f.thread, f)] := Handles.added_store ..

theorem added_withReference (r : VariableRef) (s : Session) :
    added s.references.entries (s.withReference r).references.entries = [(s.references.next, r.thread, r)] :=
  Handles.added_store ..

theorem sendsNoResponse_snoc {x : Act} (h : sendsNoResponse did) (hSame : x.after.outbox = x.before.outbox) :
    sendsNoResponse (did ++ [x]) := by
  intro y hy
  rcases List.mem_append.mp hy with hy | hy
  · exact h y hy
  · exact List.mem_singleton.mp hy ▸ ⟨[], by simpa using hSame, by simp⟩

theorem FramesShown.snoc {all before after : List StackFrame} {f : StackFrame} {shown : List Dap.FrameView}
    (h : FramesShown q all before shown did) (hAll : all = before ++ f :: after) (s : Session) :
    Conduct q did (showStep ClientView.addFrame f s) ∧
      FramesShown q all (before ++ [f]) (shown ++ [(s.view.addFrame f).1]) (did ++ [showStep ClientView.addFrame f s]) := by
  have hAdded : issued frames (did ++ [showStep ClientView.addFrame f s]) =
      issued frames did ++ [(s.frames.next, f.frame.thread, f.frame)] := by
    rw [issued_snoc]
    exact congrArg _ (added_withFrame f.frame s)
  have hNone : issued Session.references (did ++ [showStep ClientView.addFrame f s]) = [] := by
    rw [issued_snoc, h.noReferences]
    exact added_self _
  have hTold := h.told.mono (prefix_snoc (x := showStep ClientView.addFrame f s) List.prefix_rfl)
  have hId : (s.view.addFrame f).1.id = s.frames.next := by
    unfold ClientView.addFrame
    cases f.position <;> rfl
  refine ⟨.frame f.frame rfl ⟨_, _, hTold, ?_, ?_⟩, hTold, sendsNoResponse_snoc h.unanswered rfl, ?_, ?_, ?_, hNone⟩
  · rw [hAdded, List.map_append, h.values, hAll]
    exact ⟨after.map (·.frame), by simp⟩
  · rw [hNone]
    exact List.nil_prefix
  · exact fun hFallen => h.notFallen (fellBack_of_silent hFallen)
  · simp [hAdded, h.ids, hId]
  · simp [hAdded, h.values]

/-! ## References -/

/-- How things are shown that may have something to look at: under a new handle if they have. -/
structure ShowsReference (add : ClientView → α → β × ClientView) (value : α → Option VariableRef) (number : β → Int) :
    Prop where
  some : ∀ v a r, value a = some r → (add v a).2 = { v with references := (v.references.store r.thread r).2 } ∧
    number (add v a).1 = v.references.next
  none : ∀ v a, value a = none → (add v a).2 = v ∧ number (add v a).1 = 0

theorem addScope_shows : ShowsReference ClientView.addScope (fun x => some x.contents) (·.reference) where
  some v a r h := by
    cases h
    exact ⟨rfl, rfl⟩
  none _ _ := nofun

theorem addVariable_shows : ShowsReference ClientView.addVariable (·.children) (·.reference) where
  some v a r h := by
    simp only [ClientView.addVariable, h]
    exact ⟨rfl, rfl⟩
  none v a h := by
    simp [ClientView.addVariable, h]

/-- What a request has shown so far of the things that it was told of. -/
structure ReferencesShown (q : Dap.Request) (value : α → Option VariableRef) (number : β → Int) (all before : List α)
    (shown : List β) (did : List Act) : Prop where
  told : Told q did [] (all.filterMap value)
  unanswered : sendsNoResponse did
  notFallen : ¬fellBack did
  numbers : (issued references did).map (·.1) = (shown.map number).filter (· ≠ 0)
  values : (issued references did).map (·.2.2) = before.filterMap value
  noFrames : issued frames did = []

theorem ReferencesShown.snoc {add : ClientView → α → β × ClientView} {value : α → Option VariableRef} {number : β → Int}
    {all before after : List α} {a : α} {shown : List β} (h : ReferencesShown q value number all before shown did)
    (hAdd : ShowsReference add value number) (hAll : all = before ++ a :: after) (hSound : Sound s) :
    Conduct q did (showStep add a s) ∧
      ReferencesShown q value number all (before ++ [a]) (shown ++ [(add s.view a).1]) (did ++ [showStep add a s]) := by
  have hTold := h.told.mono (prefix_snoc (x := showStep add a s) List.prefix_rfl)
  have hNotFallen : ¬fellBack (did ++ [showStep add a s]) := fun hFallen => h.notFallen (fellBack_of_silent hFallen)
  have hUnanswered : sendsNoResponse (did ++ [showStep add a s]) := sendsNoResponse_snoc h.unanswered rfl
  cases hValue : value a with
  | none =>
    obtain ⟨hView, hNumber⟩ := hAdd.none s.view a hValue
    have hSame : showStep add a s = ⟨none, s, s⟩ := by simp [showStep, hView]
    have hIssued : ∀ {γ} (pool : Session → Handles ThreadId γ),
        issued pool (did ++ [showStep add a s]) = issued pool did := by
      intro γ pool
      rw [issued_snoc, hSame, added_self, List.append_nil]
    refine ⟨hSame ▸ .quiet (quiet_refl _ s), hTold, hUnanswered, hNotFallen, ?_, ?_, ?_⟩
    · simp [hIssued, h.numbers, hNumber]
    · simp [hIssued, h.values, hValue]
    · rw [hIssued, h.noFrames]
  | some r =>
    obtain ⟨hView, hNumber⟩ := hAdd.some s.view a r hValue
    have hStep : showStep add a s = ⟨none, s, s.withReference r⟩ := by simp [showStep, hView, withReference]
    have hAdded : issued Session.references (did ++ [showStep add a s]) =
        issued Session.references did ++ [(s.references.next, r.thread, r)] := by
      rw [issued_snoc, hStep, added_withReference]
    have hNone : issued frames (did ++ [showStep add a s]) = [] := by
      rw [issued_snoc, h.noFrames, hStep]
      exact added_self _
    have hNonzero : s.view.references.next ≠ 0 := by
      have := hSound.next
      simp only [Session.references] at this
      omega
    refine ⟨.reference r (by rw [hStep]) ⟨_, _, hTold, ?_, ?_⟩, hTold, hUnanswered, hNotFallen, ?_, ?_, hNone⟩
    · rw [hNone]
      exact List.nil_prefix
    · rw [hAdded, List.map_append, h.values, hAll]
      exact ⟨after.filterMap value, by simp [hValue]⟩
    · simp [hAdded, h.numbers, hNumber, hNonzero, Session.references]
    · simp [hAdded, h.values, hValue]

/-! ## Requests -/

/-- A request that frees no thread's handles, unless it fell back. -/
def Keeps (q : Dap.Request) : Prop := (∀ t, ¬q.resumes t) ∧ q.command ≠ "disconnect"

theorem Keeps.not_freed (hKeeps : Keeps q) (hNotFallen : ¬fellBack did) (t : ThreadId) : ¬HasFreed q did t := by
  rintro (⟨hResumes, -⟩ | hDisconnect | hFallen)
  · exact hKeeps.1 t hResumes
  · exact hKeeps.2 hDisconnect
  · exact hNotFallen hFallen

/-- The frame and the reference that a request is about have been looked up; if one was not found, this was the
result. -/
structure LookedUp (q : Dap.Request) (did : List Act) (result : Except Error (Option Json)) : Prop where
  frame : ∀ handle, q.asksFrame handle → ∃ x ∈ did, ∀ why, x.before.view.frame handle = .error why → result = .error why
  reference : ∀ handle, q.asksReference handle →
    ∃ x ∈ did, ∀ why, x.before.view.reference handle = .error why → result = .error why

theorem LookedUp.mono {result : Except Error (Option Json)} (hMore : did <+: did') (h : LookedUp q did result) :
    LookedUp q did' result where
  frame handle hAsks :=
    have ⟨x, hx, hWhy⟩ := h.frame handle hAsks
    ⟨x, hMore.subset hx, hWhy⟩
  reference handle hAsks :=
    have ⟨x, hx, hWhy⟩ := h.reference handle hAsks
    ⟨x, hMore.subset hx, hWhy⟩

theorem LookedUp.of_frame {handle : Int} {x : Act} {result : Except Error (Option Json)}
    (hAsks : ∀ n, q.asksFrame n → n = handle) (hNone : ∀ n, ¬q.asksReference n) (hx : x ∈ did)
    (hResult : ∀ why, x.before.view.frame handle = .error why → result = .error why) : LookedUp q did result where
  frame n h := by
    obtain rfl := hAsks n h
    exact ⟨x, hx, hResult⟩
  reference n h := absurd h (hNone n)

theorem LookedUp.of_reference {handle : Int} {x : Act} {result : Except Error (Option Json)}
    (hAsks : ∀ n, q.asksReference n → n = handle) (hNone : ∀ n, ¬q.asksFrame n) (hx : x ∈ did)
    (hResult : ∀ why, x.before.view.reference handle = .error why → result = .error why) : LookedUp q did result where
  frame n h := absurd h (hNone n)
  reference n h := by
    obtain rfl := hAsks n h
    exact ⟨x, hx, hResult⟩

theorem Nothing.ready_error {e : Error} (h : Nothing did) (hKeeps : Keeps q) (hNotFallen : ¬fellBack did)
    (hLookedUp : LookedUp q did (.error e)) : Ready q did (.error e) :=
  h.ready handless_error (fun h => nomatch h.2) (fun t hFreed => absurd hFreed (hKeeps.not_freed hNotFallen t))
    hLookedUp.frame hLookedUp.reference

theorem FramesShown.ready {all : List StackFrame} {shown : List Dap.FrameView} {body : Json}
    (h : FramesShown q all all shown did) (hKeeps : Keeps q)
    (hBody : Dap.frameIds body = shown.map (·.id) ∧ Dap.references body = [])
    (hLookedUp : LookedUp q did (.ok (some body))) : Ready q did (.ok (some body)) where
  unanswered := h.unanswered
  frameIds := hBody.1.trans h.ids.symm
  references := by
    rw [h.noReferences]
    exact hBody.2
  shown _ _ := by
    rw [AllShown, h.values, h.noReferences]
    exact h.told
  frame := hLookedUp.frame
  reference := hLookedUp.reference
  freed t hFreed := absurd hFreed (hKeeps.not_freed h.notFallen t)

theorem ReferencesShown.ready {value : α → Option VariableRef} {number : β → Int} {all : List α} {shown : List β}
    {body : Json} (h : ReferencesShown q value number all all shown did) (hKeeps : Keeps q)
    (hBody : Dap.frameIds body = [] ∧ Dap.references body = (shown.map number).filter (· ≠ 0))
    (hLookedUp : LookedUp q did (.ok (some body))) : Ready q did (.ok (some body)) where
  unanswered := h.unanswered
  frameIds := by
    rw [h.noFrames]
    exact hBody.1
  references := hBody.2.trans h.numbers.symm
  shown _ _ := by
    rw [AllShown, h.values, h.noFrames]
    exact h.told
  frame := hLookedUp.frame
  reference := hLookedUp.reference
  freed t hFreed := absurd hFreed (hKeeps.not_freed h.notFallen t)

/-- A question to the debuggee that lets nothing run. -/
theorem heeds_drive {d : DebuggeeId} {r : DebuggeeRequest} {k : r.Answer → Activity γ}
    {post : γ → List Act → Session → Prop} (hStands : ¬resumes (.drive d r)) (hNothing : Nothing did)
    (hNotFallen : ¬fellBack did)
    (h : ∀ a s', Nothing (did ++ [⟨asked d r a, s', s'⟩]) → ¬fellBack (did ++ [⟨asked d r a, s', s'⟩]) →
      (k a).Heeds (requestTerms q) post (did ++ [⟨asked d r a, s', s'⟩]) s') :
    (drive d r >>= k).Heeds (requestTerms q) post did s := by
  intro s' _ _
  refine ⟨safe_of_not_resumes hStands s', fun a _ => goes_of_quiet (quiet_refl _ s') ?_⟩
  refine h a s' (hNothing.snoc (quiet_refl (fun _ => False) s')) fun hFallen => ?_
  rcases fellBack_snoc.mp hFallen with hBefore | ⟨d', t, hAsked⟩
  · exact hNotFallen hBefore
  · cases hAsked
    exact hStands trivial

theorem heeds_serveStackTrace {a : Dap.StackTraceArguments} (hCommand : q.command = "stackTrace")
    (hArguments : q.argumentsAs Dap.StackTraceArguments.read = .ok a) (hNothing : Nothing did)
    (hNotFallen : ¬fellBack did) :
    (serveStackTrace a).run.Heeds (requestTerms q) (fun result did' _ => Ready q did' result) did s := by
  have hKeeps : Keeps q := by simp [Keeps, Dap.Request.resumes, hCommand]
  have hLookedUp : ∀ did result, LookedUp q did result := fun did result =>
    ⟨by simp [Dap.Request.asksFrame, hCommand], by simp [Dap.Request.asksReference, hCommand]⟩
  refine heeds_theDebuggee hNothing ?_ ?_
  · intro did₁ s₁ _ hNothing₁ hFallen₁ _
    exact hNothing₁.ready_error hKeeps (fun h => hNotFallen (hFallen₁ h)) (hLookedUp _ _)
  intro d did₁ s₁ _ hNothing₁ hFallen₁ _
  refine heeds_drive (r := .stackTrace _) id hNothing₁ (fun h => hNotFallen (hFallen₁ h)) ?_
  rintro (e | stack) s₂ hNothing₂ hNotFallen₂
  · exact heeds_pure fun _ => hNothing₂.ready_error hKeeps hNotFallen₂ (hLookedUp _ _)
  have hTold := Told.stackTrace (x := ⟨asked d (.stackTrace (threadFromClient a.thread)) (.ok stack), s₂, s₂⟩) hCommand
    hArguments (List.mem_append_right did₁ (List.mem_singleton.mpr rfl)) rfl
  refine Attempt.heeds_bind (w := (stackPart a stack).mapM (show_ ClientView.addFrame)) ((heeds_showAll
    (FramesShown q (stackPart a stack)) (fun before f after shown did s hAll _ h => h.snoc hAll s) ?_).mono ?_)
  · exact ⟨hTold, hNothing₂.unanswered, hNotFallen₂, by simp [hNothing₂.frames], by simp [hNothing₂.frames],
      hNothing₂.references⟩
  rintro _ did₃ s₃ ⟨shown, rfl, hShown⟩
  rw [Attempt.andThen_ok]
  exact heeds_pure fun _ => hShown.ready hKeeps (Dap.handles_stackTrace shown _) (hLookedUp _ _)

/-- A handle is looked up at one moment, and the request fails if it is not valid then. -/
theorem heeds_lookUp {look : Session → Except Error α} {k : α → Work (Option Json)} (hKeeps : Keeps q)
    (hLook : ∀ did x result, x ∈ did → (∀ why, look x.before = .error why → result = .error why) →
      LookedUp q did result) (hNothing : Nothing did) (hNotFallen : ¬fellBack did)
    (h : ∀ a did' s', Nothing did' → ¬fellBack did' → (∀ result, LookedUp q did' result) →
      (∃ x ∈ did', look x.before = .ok a) →
      (k a).run.Heeds (requestTerms q) (fun result did' _ => Ready q did' result) did' s') :
    (see look >>= fun a => require a >>= k).run.Heeds (requestTerms q) (fun result did' _ => Ready q did' result) did s := by
  refine heeds_see fun s' _ _ => ?_
  have hNothing' := hNothing.snoc (x := ⟨none, s', s'⟩) (quiet_refl (fun _ => False) s')
  have hNotFallen' : ¬fellBack (did ++ [⟨none, s', s'⟩]) := fun h => hNotFallen (fellBack_of_silent h)
  have hMem : ⟨none, s', s'⟩ ∈ did ++ [⟨none, s', s'⟩] := List.mem_concat_self
  refine heeds_require (fun a hFound => ?_) fun e hFound => heeds_pure fun _ => ?_
  · exact h a _ s' hNothing' hNotFallen' (fun _ => hLook _ _ _ hMem fun why hWhy => nomatch hFound.symm.trans hWhy)
      ⟨_, hMem, hFound⟩
  · refine hNothing'.ready_error hKeeps hNotFallen' (hLook _ _ _ hMem fun why hWhy => ?_)
    exact congrArg _ (Except.error.inj (hFound.symm.trans hWhy))

/-- Work that needs the debuggee, once all handles have been looked up. -/
theorem heeds_withDebuggee {k : DebuggeeId → Work (Option Json)} (hKeeps : Keeps q) (hNothing : Nothing did)
    (hNotFallen : ¬fellBack did) (hLookedUp : ∀ result, LookedUp q did result)
    (h : ∀ d did' s', did <+: did' → Nothing did' → ¬fellBack did' →
      (k d).run.Heeds (requestTerms q) (fun result did' _ => Ready q did' result) did' s') :
    (theDebuggee >>= k).run.Heeds (requestTerms q) (fun result did' _ => Ready q did' result) did s := by
  refine heeds_theDebuggee hNothing ?_ ?_
  · intro did₁ s₁ hMore hNothing₁ hFallen₁ _
    exact hNothing₁.ready_error hKeeps (fun h => hNotFallen (hFallen₁ h)) ((hLookedUp _).mono hMore)
  · intro d did₁ s₁ hMore hNothing₁ hFallen₁ _
    exact h d did₁ s₁ hMore hNothing₁ fun h => hNotFallen (hFallen₁ h)

theorem heeds_showReferences {add : ClientView → α → β × ClientView} {value : α → Option VariableRef}
    {number : β → Int} {all : List α} {body : List β → Json} (hAdd : ShowsReference add value number) (hKeeps : Keeps q)
    (hNothing : Nothing did) (hNotFallen : ¬fellBack did) (hTold : Told q did [] (all.filterMap value))
    (hBody : ∀ shown, Dap.frameIds (body shown) = [] ∧
      Dap.references (body shown) = (shown.map number).filter (· ≠ 0))
    (hLookedUp : ∀ result, LookedUp q did result) :
    (all.mapM (show_ add) >>= fun shown => pure (some (body shown))).run.Heeds (requestTerms q)
      (fun result did' _ => Ready q did' result) did s := by
  refine Attempt.heeds_bind ((heeds_showAll (fun before shown did' => did <+: did' ∧
    ReferencesShown q value number all before shown did') ?_ ⟨List.prefix_rfl, ?_⟩).mono ?_)
  · rintro before a after shown did' s hAll hSound ⟨hMore, hShown⟩
    obtain ⟨hConduct, hNext⟩ := hShown.snoc hAdd hAll hSound
    exact ⟨hConduct, prefix_snoc hMore, hNext⟩
  · exact ⟨hTold, hNothing.unanswered, hNotFallen, by simp [hNothing.references], by simp [hNothing.references],
      hNothing.frames⟩
  · rintro _ did' s' ⟨shown, rfl, hMore, hShown⟩
    rw [Attempt.andThen_ok]
    exact heeds_pure fun _ => hShown.ready hKeeps (hBody shown) ((hLookedUp _).mono hMore)

theorem heeds_serveScopes {handle : Int} (hCommand : q.command = "scopes")
    (hArguments : q.argumentsAs Dap.frameArgument = .ok handle) (hNothing : Nothing did) (hNotFallen : ¬fellBack did) :
    (serveScopes handle).run.Heeds (requestTerms q) (fun result did' _ => Ready q did' result) did s := by
  have hKeeps : Keeps q := by simp [Keeps, Dap.Request.resumes, hCommand]
  have hAsks : ∀ n, q.asksFrame n → n = handle := by
    simp [Dap.Request.asksFrame, hCommand, hArguments, eq_comm]
  have hNone : ∀ n, ¬q.asksReference n := by simp [Dap.Request.asksReference, hCommand]
  refine heeds_lookUp hKeeps (fun _ _ _ hx hWhy => .of_frame hAsks hNone hx hWhy) hNothing hNotFallen ?_
  rintro frame did₁ s₁ hNothing₁ hNotFallen₁ hLookedUp ⟨y, hy, hFrame⟩
  refine heeds_withDebuggee hKeeps hNothing₁ hNotFallen₁ hLookedUp ?_
  intro d did₂ s₂ hMore₂ hNothing₂ hNotFallen₂
  refine heeds_drive (r := .scopes frame) id hNothing₂ hNotFallen₂ ?_
  rintro (e | scopes) s₃ hNothing₃ hNotFallen₃
  · exact heeds_pure fun _ => hNothing₃.ready_error hKeeps hNotFallen₃ ((hLookedUp _).mono (prefix_snoc hMore₂))
  have hTold := Told.scopes (x := ⟨asked d (.scopes frame) (.ok scopes), s₃, s₃⟩) hCommand hArguments
    (List.mem_append_left _ (hMore₂.subset hy)) hFrame (List.mem_append_right did₂ (List.mem_singleton.mpr rfl)) rfl
  refine heeds_showReferences addScope_shows hKeeps hNothing₃ hNotFallen₃ ?_ Dap.handles_scopes fun _ =>
    (hLookedUp _).mono (prefix_snoc hMore₂)
  rw [List.filterMap_eq_map']
  exact hTold

theorem heeds_serveVariables {handle : Int} (hCommand : q.command = "variables")
    (hArguments : q.argumentsAs Dap.variablesArgument = .ok handle) (hNothing : Nothing did)
    (hNotFallen : ¬fellBack did) :
    (serveVariables handle).run.Heeds (requestTerms q) (fun result did' _ => Ready q did' result) did s := by
  have hKeeps : Keeps q := by simp [Keeps, Dap.Request.resumes, hCommand]
  have hAsks : ∀ n, q.asksReference n → n = handle := by
    simp [Dap.Request.asksReference, hCommand, hArguments, eq_comm]
  have hNone : ∀ n, ¬q.asksFrame n := by simp [Dap.Request.asksFrame, hCommand]
  refine heeds_lookUp hKeeps (fun _ _ _ hx hWhy => .of_reference hAsks hNone hx hWhy) hNothing hNotFallen ?_
  rintro reference did₁ s₁ hNothing₁ hNotFallen₁ hLookedUp ⟨y, hy, hReference⟩
  refine heeds_withDebuggee hKeeps hNothing₁ hNotFallen₁ hLookedUp ?_
  intro d did₂ s₂ hMore₂ hNothing₂ hNotFallen₂
  refine heeds_drive (r := .expand reference) id hNothing₂ hNotFallen₂ ?_
  rintro (e | children) s₃ hNothing₃ hNotFallen₃
  · exact heeds_pure fun _ => hNothing₃.ready_error hKeeps hNotFallen₃ ((hLookedUp _).mono (prefix_snoc hMore₂))
  have hTold := Told.expand (x := ⟨asked d (.expand reference) (.ok children), s₃, s₃⟩) hCommand hArguments
    (List.mem_append_left _ (hMore₂.subset hy)) hReference (List.mem_append_right did₂ (List.mem_singleton.mpr rfl)) rfl
  exact heeds_showReferences addVariable_shows hKeeps hNothing₃ hNotFallen₃ hTold Dap.handles_variables fun _ =>
    (hLookedUp _).mono (prefix_snoc hMore₂)

theorem heeds_serveEvaluate {a : Dap.EvaluateArguments} (hCommand : q.command = "evaluate")
    (hArguments : q.argumentsAs Dap.EvaluateArguments.read = .ok a) (hNothing : Nothing did)
    (hNotFallen : ¬fellBack did) :
    (serveEvaluate a).run.Heeds (requestTerms q) (fun result did' _ => Ready q did' result) did s := by
  have hKeeps : Keeps q := by simp [Keeps, Dap.Request.resumes, hCommand]
  have hAsks : ∀ n, q.asksFrame n ↔ a.frame = some n := by simp [Dap.Request.asksFrame, hCommand, hArguments]
  have hNone : ∀ n, ¬q.asksReference n := by simp [Dap.Request.asksReference, hCommand]
  rw [serveEvaluate]
  cases hHandle : a.frame with
  | none =>
    refine heeds_pure fun _ => hNothing.ready_error hKeeps hNotFallen ⟨fun n h => ?_, fun n h => absurd h (hNone n)⟩
    simp [hAsks, hHandle] at h
  | some handle =>
    have hOnly : ∀ n, q.asksFrame n → n = handle := by
      intro n h
      rw [hAsks, hHandle] at h
      exact (Option.some.inj h).symm
    refine heeds_lookUp hKeeps (fun _ _ _ hx hWhy => .of_frame hOnly hNone hx hWhy) hNothing hNotFallen ?_
    rintro frame did₁ s₁ hNothing₁ hNotFallen₁ hLookedUp ⟨y, hy, hFrame⟩
    refine heeds_withDebuggee hKeeps hNothing₁ hNotFallen₁ hLookedUp ?_
    intro d did₂ s₂ hMore₂ hNothing₂ hNotFallen₂
    refine heeds_drive (r := .evaluate frame (trim a.expression)) id hNothing₂ hNotFallen₂ ?_
    rintro (e | (_ | found)) s₃ hNothing₃ hNotFallen₃
    · exact heeds_pure fun _ => hNothing₃.ready_error hKeeps hNotFallen₃ ((hLookedUp _).mono (prefix_snoc hMore₂))
    · exact heeds_pure fun _ => hNothing₃.ready_error hKeeps hNotFallen₃ ((hLookedUp _).mono (prefix_snoc hMore₂))
    have hTold := Told.evaluate (x := ⟨asked d (.evaluate frame (trim a.expression)) (.ok (some found)), s₃, s₃⟩)
      hCommand hArguments hHandle (List.mem_append_left _ (hMore₂.subset hy)) hFrame
      (List.mem_append_right did₂ (List.mem_singleton.mpr rfl)) rfl
    have hAll : [found].filterMap (·.children) = found.children.toList := by
      cases hChildren : found.children <;> simp [hChildren]
    have hShown : ReferencesShown q (·.children) (·.reference) [found] [] ([] : List Dap.VariableView) _ :=
      ⟨hAll ▸ hTold, hNothing₃.unanswered, hNotFallen₃, by simp [hNothing₃.references],
        by simp [hNothing₃.references], hNothing₃.frames⟩
    refine heeds_show fun s₄ hSound => ?_
    obtain ⟨hConduct, hNext⟩ := hShown.snoc addVariable_shows (List.nil_append [found]).symm hSound
    refine ⟨hConduct, heeds_pure fun _ => hNext.ready hKeeps (Dap.handles_evaluated _) ?_⟩
    exact (hLookedUp _).mono (prefix_snoc (prefix_snoc hMore₂))

/-- Completions are looked for in a frame, but nothing is shown that could be looked at. -/
theorem heeds_serveCompletions {a : Dap.CompletionsArguments} (hCommand : q.command = "completions")
    (hArguments : q.argumentsAs Dap.CompletionsArguments.read = .ok a) (hNothing : Nothing did)
    (hNotFallen : ¬fellBack did) :
    (serveCompletions a).run.Heeds (requestTerms q) (fun result did' _ => Ready q did' result) did s := by
  have hKeeps : Keeps q := by simp [Keeps, Dap.Request.resumes, hCommand]
  have hAsks : ∀ n, q.asksFrame n ↔ a.frame = some n := by simp [Dap.Request.asksFrame, hCommand, hArguments]
  have hNone : ∀ n, ¬q.asksReference n := by simp [Dap.Request.asksReference, hCommand]
  have hReady : ∀ {did'} (items : List Json), Nothing did' → ¬fellBack did' →
      LookedUp q did' (.ok (some (Dap.listBody "targets" items))) →
      Ready q did' (.ok (some (Dap.listBody "targets" items))) := fun items hNothing hNotFallen hLookedUp =>
    hNothing.ready (Dap.handless_listBody (by simp [Dap.handleFields])) (by simp [Dap.Request.shows, hCommand])
      (fun t h => absurd h (hKeeps.not_freed hNotFallen t)) hLookedUp.frame hLookedUp.reference
  rw [serveCompletions]
  cases hHandle : a.frame with
  | none =>
    refine heeds_pure fun _ => hReady [] hNothing hNotFallen ⟨fun n h => ?_, fun n h => absurd h (hNone n)⟩
    simp [hAsks, hHandle] at h
  | some handle =>
    have hOnly : ∀ n, q.asksFrame n → n = handle := by
      intro n h
      rw [hAsks, hHandle] at h
      exact (Option.some.inj h).symm
    refine heeds_lookUp hKeeps (fun _ _ _ hx hWhy => .of_frame hOnly hNone hx hWhy) hNothing hNotFallen ?_
    rintro frame did₁ s₁ hNothing₁ hNotFallen₁ hLookedUp -
    refine heeds_see fun s₂ _ _ => ?_
    refine heeds_withDebuggee hKeeps (hNothing₁.snoc (x := ⟨none, s₂, s₂⟩) (quiet_refl (fun _ => False) s₂))
      (fun h => hNotFallen₁ (fellBack_of_silent h)) (fun _ => (hLookedUp _).mono (prefix_snoc List.prefix_rfl)) ?_
    intro d did₃ s₃ hMore₃ hNothing₃ hNotFallen₃
    have hLookedUp₃ : ∀ result, LookedUp q did₃ result := fun result =>
      (hLookedUp result).mono ((List.prefix_append ..).trans hMore₃)
    refine heeds_drive (r := .completions frame _) id hNothing₃ hNotFallen₃ ?_
    rintro (e | items) s₄ hNothing₄ hNotFallen₄
    · exact heeds_pure fun _ => hNothing₄.ready_error hKeeps hNotFallen₄ ((hLookedUp₃ _).mono (prefix_snoc List.prefix_rfl))
    · exact heeds_pure fun _ => hReady _ hNothing₄ hNotFallen₄ ((hLookedUp₃ _).mono (prefix_snoc List.prefix_rfl))

end JvmDebug.Session
