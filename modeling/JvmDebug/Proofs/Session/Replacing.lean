import JvmDebug.Proofs.Session.Accounting
import JvmDebug.Proofs.Session.Asking
import JvmDebug.Proofs.Session.Lifetime
import JvmDebug.Proofs.Session.Sparing

/-!
# Setting the breakpoints of a source

A request that sets breakpoints is served while others come in, but none of them changes how the client counts, or which
breakpoints are set. So the request finds both as they were when it was taken up, and what it stores is there when it is
done.
-/

namespace JvmDebug.Session
set_option autoImplicit false

abbrev defaultHand : Hand := .worker .defaultLane

/-! ## What others leave alone -/

/-- A change that leaves alone how the client counts, and which breakpoints are set. -/
structure KeepsSet (s s' : Session) : Prop where
  numbering : s'.view.numbering = s.view.numbering
  current : s'.book.current = s.book.current
  next : s'.book.next = s.book.next

variable {told : (c : Call) → Answer c → Prop} {journal : Option Log.Journal} {past : List Happening} {e : Happening}
  {k : Hand} {job : Job} {q : Dap.Request} {a : Dap.SetBreakpointsArguments} {s s' s₀ s₁ : Session} {α β : Type}

theorem keepsSet_of_eq (hView : s'.view = s.view) (hBook : s'.book = s.book) : KeepsSet s s' := by
  constructor
  · rw [hView]
  · rw [hBook]
  · rw [hBook]

theorem keepsSet_refl (s : Session) : KeepsSet s s := keepsSet_of_eq rfl rfl

theorem KeepsSet.trans {s'' : Session} (hFirst : KeepsSet s s') (hSecond : KeepsSet s' s'') : KeepsSet s s'' where
  numbering := hSecond.numbering.trans hFirst.numbering
  current := hSecond.current.trans hFirst.current
  next := hSecond.next.trans hFirst.next

theorem keepsSet_keep (r : Log.Record) (s : Session) : KeepsSet s (keep r s) :=
  keepsSet_of_eq (congrArg Memory.view (memory_keep r s)) (congrArg Memory.book (memory_keep r s))

/-- Where the same is set in two sessions that are alike, they are alike after it. -/
theorem KeepsSet.sets (h : KeepsSet s s') (source : Source) (wanted : List RequestedBreakpoint) :
    KeepsSet (setBreakpoints source wanted s).2 (setBreakpoints source wanted s').2 ∧
      (setBreakpoints source wanted s').1 = (setBreakpoints source wanted s).1 := by
  have hReplaced : s'.book.current.replace source.path wanted s'.book.next =
      s.book.current.replace source.path wanted s.book.next := by
    rw [h.current, h.next]
  refine ⟨⟨h.numbering, ?_, ?_⟩, ?_⟩
  · exact congrArg Prod.fst hReplaced
  · exact congrArg (·.2.2) hReplaced
  · exact congrArg (fun x => (x.1.generation, x.2.1)) hReplaced

/-- Only two kinds of jobs change this: one tells how the client counts, and one sets breakpoints. -/
structure KeepsAside (job : Job) (s s' : Session) : Prop where
  numbering : job.numbers ∨ s'.view.numbering = s.view.numbering
  current : job.sets ∨ s'.book.current = s.book.current
  next : job.sets ∨ s'.book.next = s.book.next

def keeping (job : Job) : Bounds Session World := ⟨KeepsAside job, fun _ => True, keep⟩

theorem KeepsSet.aside (h : KeepsSet s s') : KeepsAside job s s' := ⟨.inr h.numbering, .inr h.current, .inr h.next⟩

theorem keepsAside_of_eq (hView : s'.view = s.view) (hBook : s'.book = s.book) : KeepsAside job s s' :=
  (keepsSet_of_eq hView hBook).aside

theorem allows_keeping (job : Job) : Allows job (keeping job) where
  stays _ := keepsAside_of_eq rfl rfl
  notes r s := (keepsSet_keep r s).aside
  journal _ _ := keepsAside_of_eq rfl rfl
  calls _ _ := trivial
  tells _ _ _ := keepsAside_of_eq rfl rfl
  phase _ _ _ := keepsAside_of_eq rfl rfl
  forwards _ _ _ := keepsAside_of_eq rfl rfl
  views _ _ hSame := ⟨.inr hSame, .inr rfl, .inr rfl⟩
  numbers hNumbers _ _ := ⟨.inl hNumbers, .inr rfl, .inr rfl⟩
  exceptions _ _ _ := keepsAside_of_eq rfl rfl
  sets hSets _ _ _ := ⟨.inr rfl, .inl hSets, .inl hSets⟩
  filters _ _ := ⟨.inr rfl, .inr rfl, .inr rfl⟩
  subscribes _ _ := keepsAside_of_eq rfl rfl
  replaces _ _ := keepsAside_of_eq rfl rfl
  installs _ _ _ := keepsAside_of_eq rfl rfl
  enlists _ _ _ _ := keepsAside_of_eq rfl rfl
  loses _ _ := keepsAside_of_eq rfl rfl
  clears _ _ := ⟨.inr rfl, .inr rfl, .inr rfl⟩

/-! ## The phases of a request that sets breakpoints -/

/-- Such a request under way: the session when it was taken up, one that is as this session has to be by now, and what
was answered. -/
structure Service where
  start : Session
  now : Session
  result : Option (Except Error (Option Json)) := none

inductive Places (k : Hand) (job : Job) : Option Service → Session → Session → Option Service → Prop where
  | other {s s' : Session} : (k = defaultHand ∨ s'.view.numbering = s.view.numbering) →
      s'.book.current = s.book.current → s'.book.next = s.book.next → Places k job none s s' none
  | keeps {x : Service} {s s' : Session} : KeepsSet s s' → Dap.responses (added s.outbox s'.outbox) = [] →
      Places k job (some x) s s' (some x)
  | stores {s₀ s₁ s : Session} (source : Source) (wanted : List RequestedBreakpoint) : 
      Places k job (some ⟨s₀, s₁, none⟩) s (setBreakpoints source wanted s).2
        (some ⟨s₀, (setBreakpoints source wanted s₁).2, none⟩)
  | responds {s₀ s₁ s : Session} {q : Dap.Request} (result : Except Error (Option Json)) : job = .request q →
      Places k job (some ⟨s₀, s₁, none⟩) s (post (.response (.of q result)) s) (some ⟨s₀, s₁, some result⟩)

inductive Serving (a : Dap.SetBreakpointsArguments) (s₀ : Session) : Session → Except Error (Option Json) → Prop where
  | unplaced {e : Error} : ClientView.sourceFromClient a.source = .error e → Serving a s₀ s₀ (.error e)
  | refused {source : Source} {e : Error} : ClientView.sourceFromClient a.source = .ok source →
      a.breakpoints.mapM (requested s₀.view.numbering source) = .error e → Serving a s₀ s₀ (.error e)
  | stored {source : Source} {wanted : List RequestedBreakpoint} {shown : List Json} :
      ClientView.sourceFromClient a.source = .ok source →
      a.breakpoints.mapM (requested s₀.view.numbering source) = .ok wanted →
      List.Forall₂ (fun b json => ∃ verified, json = (ClientView.breakpointView s₀.view.numbering b verified).json)
        (s₀.book.stored ⟨source, wanted⟩) shown →
      Serving a s₀ (setBreakpoints source wanted s₀).2 (.ok (some (Dap.listBody "breakpoints" shown)))

def IsServed (q : Dap.Request) (g : Option Service) : Prop :=
  ∃ s₀ s₁ result, g = some ⟨s₀, s₁, some result⟩ ∧
    ∀ a, q.argumentsAs Dap.SetBreakpointsArguments.read = .ok a → Serving a s₀ s₁ result

def placing (told : (c : Call) → Answer c → Prop) : Roles (setting told) (Option Service) where
  phases k job :=
    { fits := fun g s => ∀ x ∈ g, KeepsSet x.now s
      moves := fun g _ s s' g' => Places k job g s s' g'
      answered := fun _ _ => True
      keep := keep }
  post k job _ g := ∀ q, k = defaultHand → job = .request q → q.command = "setBreakpoints" → IsServed q g

/-! ## Serving the request -/

/-- What a request does beside: it only looks, and notes what it does. -/
def onlooking : Bounds Session World :=
  ⟨fun s s' => KeepsSet s s' ∧ Dap.responses (added s.outbox s'.outbox) = [], fun _ => True, keep⟩

theorem plain_onlooking : Plain onlooking where
  stays s := ⟨keepsSet_refl s, by rw [added_self]; rfl⟩
  notes r s := ⟨keepsSet_keep r s, responses_added_keep r s⟩
  journal _ s := ⟨keepsSet_of_eq rfl rfl, (congrArg Dap.responses (added_self s.outbox)).trans rfl⟩

theorem passes_onlooking {r : Activity α} {x : Service} (h : r.Within onlooking fun _ => True) :
    r.Passes ((placing told).phases k job) (fun _ g => g = some x) (some x) := by
  refine h.passes_in rfl (fun _ _ => trivial) ?_ ?_ rfl
  · rintro _ s s' rfl - ⟨hKeeps, hNone⟩
    exact ⟨_, .keeps hKeeps hNone, rfl⟩
  · rintro _ s c a rfl - - -
    exact ⟨_, .keeps (keepsSet_refl s) (plain_onlooking.stays s).2, rfl⟩

/-- Looking at the session, which is as it has to be. -/
theorem passes_see {f : Session → α} {x : Service} {w : α → Work β} {post : Except Error β → Option Service → Prop}
    (h : ∀ s, KeepsSet x.now s → (w (f s)).run.Passes ((placing told).phases k job) post (some x)) :
    (see f >>= w).run.Passes ((placing told).phases k job) post (some x) :=
  fun s hFits => ⟨_, .keeps (keepsSet_refl s) (plain_onlooking.stays s).2, h s (hFits x rfl)⟩

theorem passes_readBreakpoint (source : Source) (y : Dap.BreakpointArgument) (x : Service) :
    (readBreakpoint source y).run.Passes ((placing told).phases k job)
      (fun found g => found = requested x.now.view.numbering source y ∧ g = some x) (some x) := by
  refine Attempt.passes_bind (Attempt.passes_lift ((passes_onlooking (x := x) ?_).mono ?_))
  · unfold noteCondition
    split
    · exact plain_onlooking.note
    · trivial
  · rintro _ _ rfl
    refine passes_see fun s hKeeps => ?_
    exact ⟨by rw [hKeeps.numbering], rfl⟩

theorem passes_breakpointJson (b : Breakpoint) (x : Service) :
    (breakpointJson b).run.Passes ((placing told).phases k job)
      (fun found g => (∃ json, found = .ok json ∧
        ∃ verified, json = (ClientView.breakpointView x.now.view.numbering b verified).json) ∧ g = some x) (some x) := by
  refine passes_see fun s _ => passes_see fun s' hKeeps => ?_
  exact ⟨⟨_, rfl, s.book.isVerified b.id, by rw [hKeeps.numbering]⟩, rfl⟩

/-- What is stored is what would be stored in the session as it was. -/
theorem passes_sets {w : Nat × List Breakpoint → Work β} {post : Except Error β → Option Service → Prop}
    (source : Source) (wanted : List RequestedBreakpoint)
    (h : (w (setBreakpoints source wanted s₁).1).run.Passes ((placing told).phases k job) post
      (some ⟨s₀, (setBreakpoints source wanted s₁).2, none⟩)) :
    (alterGet (setBreakpoints source wanted) >>= w).run.Passes ((placing told).phases k job) post (some ⟨s₀, s₁, none⟩) := by
  intro s hFits
  refine ⟨_, .stores source wanted, ?_⟩
  obtain ⟨-, hStored⟩ := KeepsSet.sets (hFits _ rfl) source wanted
  rw [← hStored] at h
  exact h

theorem serveSetBreakpoints_passes (a : Dap.SetBreakpointsArguments) (s₀ : Session) :
    (serveSetBreakpoints a).run.Passes ((placing told).phases k job)
      (fun result g => ∃ s₁, g = some ⟨s₀, s₁, none⟩ ∧ Serving a s₀ s₁ result) (some ⟨s₀, s₀, none⟩) := by
  unfold serveSetBreakpoints
  cases hSource : ClientView.sourceFromClient a.source with
  | error e => exact ⟨s₀, rfl, .unplaced hSource⟩
  | ok source =>
    refine Attempt.passes_bind (w := require (.ok source)) ?_
    refine Attempt.passes_bind ((Attempt.passes_mapM (fun y => passes_readBreakpoint source y ⟨s₀, s₀, none⟩)
      a.breakpoints).mono ?_)
    rintro _ _ ⟨rfl, rfl⟩
    cases hWanted : a.breakpoints.mapM (requested s₀.view.numbering source) with
    | error e => exact ⟨s₀, rfl, .refused hSource hWanted⟩
    | ok wanted =>
      let after := (setBreakpoints source wanted s₀).2
      refine passes_sets source wanted ?_
      refine Attempt.passes_bind (Attempt.passes_lift ((passes_onlooking plain_onlooking.note).mono ?_))
      rintro _ _ rfl
      refine Attempt.passes_bind (Attempt.passes_lift ((passes_onlooking (plain_onlooking.awaitSync source _)).mono ?_))
      rintro _ _ rfl
      refine Attempt.passes_bind ((Attempt.passes_items (fun b => passes_breakpointJson b ⟨s₀, after, none⟩)
        (s₀.book.stored ⟨source, wanted⟩)).mono ?_)
      rintro _ _ ⟨⟨shown, rfl, hShown⟩, rfl⟩
      exact ⟨after, rfl, .stored hSource hWanted hShown⟩

theorem answer_places (hCommand : q.command = "setBreakpoints") (s₀ : Session) :
    (answer q).run.Passes ((placing told).phases k job) (fun result g => ∃ s₁, g = some ⟨s₀, s₁, none⟩ ∧
      ∀ a, q.argumentsAs Dap.SetBreakpointsArguments.read = .ok a → Serving a s₀ s₁ result) (some ⟨s₀, s₀, none⟩) := by
  have hNamed : serveNamed q = withArguments q Dap.SetBreakpointsArguments.read serveSetBreakpoints := by
    unfold serveNamed
    rw [hCommand]
    rfl
  refine Attempt.passes_bind (Attempt.passes_lift ((passes_onlooking plain_onlooking.note).mono ?_))
  rintro _ _ rfl
  rw [hNamed]
  unfold withArguments
  cases hArguments : q.argumentsAs Dap.SetBreakpointsArguments.read with
  | error e => exact ⟨s₀, rfl, nofun⟩
  | ok a =>
    refine Attempt.passes_bind (w := require (.ok a)) ((serveSetBreakpoints_passes a s₀).mono ?_)
    rintro result _ ⟨s₁, rfl, hServing⟩
    refine ⟨s₁, rfl, ?_⟩
    rintro _ ⟨⟩
    exact hServing

theorem serve_places (hCommand : q.command = "setBreakpoints") (s₀ : Session) :
    (serve q).Passes ((placing told).phases k (.request q)) (fun _ g => IsServed q g) (some ⟨s₀, s₀, none⟩) := by
  refine Routine.Passes.bind ((answer_places hCommand s₀).mono ?_)
  rintro result _ ⟨s₁, rfl, hServing⟩
  have hFollow : follow q = pure () := by
    unfold follow
    rw [hCommand]
    rfl
  cases result with
  | ok body =>
    refine fun s _ => ⟨_, .responds (.ok body) rfl, ?_⟩
    change (follow q).Passes _ _ _
    rw [hFollow]
    exact ⟨s₀, s₁, .ok body, rfl, hServing⟩
  | error e =>
    refine fun s _ => ⟨_, .keeps (keepsSet_keep _ s) (responses_added_keep _ s), ?_⟩
    exact fun s _ => ⟨_, .responds (.error e) rfl, s₀, s₁, .error e, rfl, hServing⟩

/-- Whatever else is served leaves no trace of a service. -/
theorem passes_other {r : Activity α} (h : r.Within (keeping job) fun _ => True) (hNumbers : k = defaultHand ∨ ¬job.numbers)
    (hSets : ¬job.sets) : r.Passes ((placing told).phases k job) (fun _ g => g = none) none := by
  refine h.passes_in rfl (fun _ _ => trivial) ?_ ?_ rfl
  · rintro _ s s' rfl - hKeeps
    have hNumbering := hNumbers.imp_right hKeeps.numbering.resolve_left
    exact ⟨_, .other hNumbering (hKeeps.current.resolve_left hSets) (hKeeps.next.resolve_left hSets), rfl⟩
  · rintro _ s c a rfl - - -
    exact ⟨_, .other (.inr rfl) rfl rfl, rfl⟩

/-! ## Along a run -/

/-- What comes of itself sets no breakpoints: it only tells which of them have code. -/
def SetsNone (e : Happening) : Prop :=
  e.turn = .outside → e.after.book.current = e.before.book.current ∧ e.after.book.next = e.before.book.next

/-- The breakpoints of a session are those that its client has set, and whoever sets some finds them as they were. -/
structure Placed (φ : Casting Hand Job (Option Service)) (past : List Happening) (s : Session) : Prop where
  book : ∃ changes, s.book.current = (BreakpointBook.of changes).current ∧ s.book.next = (BreakpointBook.of changes).next
  service : ∀ k job x, φ k = some (job, some x) → k = defaultHand ∧ KeepsSet x.now s ∧
    lastStart? defaultHand past = some x.start ∧
    ∃ q, job = .request q ∧ responsesBy defaultHand past = (x.result.map (.of q)).toList

variable {φ : Casting Hand Job (Option Service)} {y : Option (Job × Option Service)} {asked : Option (Asked World)} {x x' : Service}

/-- A moment of a worker that is not at such a service then. -/
theorem Placed.other (h : Placed φ past s) (hTurn : e.turn.worker? = some k) (hNone : ∀ z ∈ y, z.2 = none)
    (hNumbering : k = defaultHand ∨ s'.view.numbering = s.view.numbering)
    (hCurrent : s'.book.current = s.book.current) (hNext : s'.book.next = s.book.next) :
    Placed (Function.update φ k y) (past ++ [e]) s' where
  book := by
    rw [hCurrent, hNext]
    exact h.book
  service j job x hPhase := by
    by_cases hj : j = k
    · subst hj
      rw [Function.update_self] at hPhase
      cases hNone _ hPhase
    · rw [Function.update_of_ne hj] at hPhase
      obtain ⟨rfl, hKeeps, hStart, q, rfl, hResponses⟩ := h.service j job x hPhase
      have hOther : e.turn.worker? ≠ some defaultHand := fun hHere => hj (Option.some.inj (hHere.symm.trans hTurn))
      refine ⟨rfl, hKeeps.trans ⟨hNumbering.resolve_left (Ne.symm hj), hCurrent, hNext⟩, ?_, q, rfl, ?_⟩
      · rw [lastStart?_snoc, Moment.startOf_of_other (fun job hTakes => hOther (by rw [hTakes, Turn.worker?]))]
        exact hStart
      · rw [responsesBy_other past hOther]
        exact hResponses

theorem Placed.serves (h : Placed φ past s) (hPhase : φ k = some (job, some x)) (hStart : x'.start = x.start)
    (hBook : ∃ changes, s'.book.current = (BreakpointBook.of changes).current ∧ s'.book.next = (BreakpointBook.of changes).next)
    (hKeeps : KeepsSet x'.now s')
    (hResponses : ∀ q, job = .request q → (x'.result.map (Dap.Response.of q)).toList =
      (x.result.map (.of q)).toList ++ Dap.responses (added s.outbox s'.outbox)) :
    Placed (Function.update φ k (some (job, some x'))) (past ++ [⟨.goesOn k job asked, s, s'⟩]) s' where
  book := hBook
  service j job' z hThere := by
    by_cases hj : j = k
    · subst hj
      rw [Function.update_self] at hThere
      cases hThere
      obtain ⟨rfl, -, hLast, q, rfl, hBefore⟩ := h.service j job x hPhase
      refine ⟨rfl, hKeeps, ?_, q, rfl, ?_⟩
      · rw [lastStart?_snoc, Moment.startOf_of_other (by simp), hStart]
        exact hLast
      · rw [responsesBy_goesOn, hBefore, hResponses q rfl]
    · rw [Function.update_of_ne hj] at hThere
      exact absurd ((h.service j job' z hThere).1.trans (h.service k job x hPhase).1.symm) hj

theorem Placed.goes {g g' : Option Service} (h : Placed φ past s) (hPhase : φ k = some (job, g)) (hPlaces : Places k job g s s' g') :
    Placed (Function.update φ k (some (job, g'))) (past ++ [⟨.goesOn k job asked, s, s'⟩]) s' := by
  cases hPlaces with
  | other hNumbering hCurrent hNext => exact h.other rfl (by simp) hNumbering hCurrent hNext
  | keeps hKeeps hNone =>
    obtain ⟨-, hNow, -⟩ := h.service k job _ hPhase
    refine h.serves hPhase rfl ?_ (hNow.trans hKeeps) fun q _ => by rw [hNone, List.append_nil]
    rw [hKeeps.current, hKeeps.next]
    exact h.book
  | @stores s₀ s₁ _ source wanted =>
    -- One more change of the book, and the same one in the session that was found.
    obtain ⟨-, hNow, -⟩ := h.service k job _ hPhase
    refine h.serves hPhase rfl ?_ (hNow.sets source wanted).1 fun q _ => ?_
    · obtain ⟨changes, hCurrent, hNext⟩ := h.book
      have hSame : KeepsSet { s with book := .of changes } s := ⟨rfl, hCurrent, hNext⟩
      have hSets := (hSame.sets source wanted).1
      refine ⟨changes ++ [⟨source, wanted⟩], ?_, ?_⟩
      · rw [BreakpointBook.of_snoc]
        exact hSets.current
      · rw [BreakpointBook.of_snoc]
        exact hSets.next
    · rw [show (setBreakpoints source wanted s).2.outbox = s.outbox from rfl, added_self]
      rfl
  | responds result hJob =>
    obtain ⟨-, hNow, -⟩ := h.service k job _ hPhase
    refine h.serves hPhase rfl h.book (hNow.trans (keepsSet_of_eq rfl rfl)) fun q hq => ?_
    obtain rfl := (Job.request.injEq ..).mp (hJob.symm.trans hq)
    rw [post, added_append]
    rfl

theorem Placed.begins (h : Placed φ past s) (hJob : job = .request q) (hKeeps : KeepsSet s s') :
    Placed (Function.update φ defaultHand (some (job, some ⟨s, s, none⟩))) (past ++ [⟨.takesUp defaultHand job, s, s'⟩])
      s' where
  book := by
    rw [hKeeps.current, hKeeps.next]
    exact h.book
  service j job' z hThere := by
    by_cases hj : j = defaultHand
    · subst hj
      rw [Function.update_self] at hThere
      cases hThere
      refine ⟨rfl, hKeeps, lastStart?_of_takesUp rfl (by simp), q, hJob, ?_⟩
      rw [responsesBy_takesUp]
      rfl
    · rw [Function.update_of_ne hj] at hThere
      exact absurd (h.service j job' z hThere).1 hj

theorem Placed.takes {r : Activity Unit} (h : Placed φ past s) (hSound : Sound s) (hTakes : Takes k job s r s') :
    ∃ g, r.Passes ((placing told).phases k job) ((placing told).post k job) g ∧
      Placed (Function.update φ k (some (job, g))) (past ++ [⟨.takesUp k job, s, s'⟩]) s' := by
  have hOther : ∀ {r : Activity Unit}, r.Within (keeping job) (fun _ => True) → (k = defaultHand ∨ ¬job.numbers) → ¬job.sets →
      s'.view = s.view → s'.book = s.book →
      ∃ g, r.Passes ((placing told).phases k job) ((placing told).post k job) g ∧
        Placed (Function.update φ k (some (job, g))) (past ++ [⟨.takesUp k job, s, s'⟩]) s' := by
    intro r hWithin hNumbers hSets hView hBook
    refine ⟨none, (passes_other hWithin hNumbers hSets).mono ?_, ?_⟩
    · rintro _ _ - q rfl rfl hCommand
      exact absurd hCommand hSets
    · exact h.other rfl (by simp) (.inr (by rw [hView])) (by rw [hBook]) (by rw [hBook])
  have hOnLane : ∀ {name} {r : Activity Unit}, r.Within (keeping job) (fun _ => True) →
      (Worker.onLane name r).Within (keeping job) fun _ => True := (allows_keeping job).toPlain.onLane
  have hServe : ∀ {q}, (serve q).Within (keeping (.request q)) fun _ => True := fun {q} =>
    (allows_keeping (.request q)).serve (fun _ _ _ => keepsAside_of_eq rfl rfl) fun _ => keepsAside_of_eq rfl rfl
  cases hTakes with
  | event => exact hOther (allows_keeping _).onEvent (.inr id) id rfl rfl
  | job hJob hTake =>
    cases taken_of_take hJob hTake with
    | @default q rest hLane =>
      -- Only here may a service begin; the other lanes hold no request that sets breakpoints or tells how lines are counted.
      by_cases hCommand : q.command = "setBreakpoints"
      · have hServes : (serve q).Passes ((placing told).phases defaultHand (.request q)) _ _ := serve_places hCommand s
        refine ⟨some ⟨s, s, none⟩, ?_, ?_⟩
        · refine fun s₁ _ => ⟨_, .keeps (keepsSet_keep _ s₁) (responses_added_keep _ s₁), hServes.mono ?_⟩
          rintro _ g hServed _ - ⟨⟩ -
          exact hServed
        · exact h.begins rfl (keepsSet_of_eq rfl rfl)
      · exact hOther (hOnLane hServe) (.inl rfl) hCommand rfl rfl
    | @launcher j rest hLane =>
      cases j with
      | request q =>
        have hCommand := hSound.launcherLane q (by simp [hLane])
        refine hOther (hOnLane hServe) (.inr ?_) ?_ rfl rfl
        · rintro (hHere : q.command = "initialize")
          simp [hHere] at hCommand
        · rintro (hHere : q.command = "setBreakpoints")
          simp [hHere] at hCommand
      | run d announceThreads => exact hOther (hOnLane (allows_keeping _).runDebuggee) (.inr id) id rfl rfl
    | @arrival n q hHere =>
      have hCommand := hSound.arrivals _ hHere
      refine hOther hServe (.inr ?_) ?_ rfl rfl
      · rintro (hHere : q.command = "initialize")
        simp [hHere] at hCommand
      · rintro (hHere : q.command = "setBreakpoints")
        simp [hHere] at hCommand
    | forwarder hOutput =>
      refine hOther ((allows_keeping _).takeOutput hOutput) (.inr id) id ?_ ?_
      all_goals
        unfold takeOutput at hOutput
        repeat' split at hOutput
        all_goals cases hOutput
        all_goals rfl

theorem placing_keeps : (placing told).Keeps (fun _ e => Sound e.before ∧ SetsNone e) Placed where
  keep _ _ := rfl
  answered _ _ _ _ _ _ _ := trivial
  fits {φ past s k job g} h hPhase x hx := by
    obtain rfl : g = some x := hx
    exact (h.service k job x hPhase).2.1
  takes h _ hTakes hAllowed := h.takes hAllowed.1 hTakes
  goes h hPhase hMoves _ := h.goes hPhase hMoves
  done h _ _ := h.other rfl (by simp) (.inr rfl) rfl rfl
  outside {φ past s m s' m'} h hOutside hAllowed := by
    obtain ⟨hCurrent, hNext⟩ := hAllowed.2 rfl
    have hView : s'.view = s.view := by
      have hOutside : Outside s s' := hOutside
      cases hOutside with
      | dispatch q =>
        rw [dispatch_eq]
        cases route q.command <;> rfl
      | _ => rfl
    refine ⟨by rw [hCurrent, hNext]; exact h.book, fun k job x hPhase => ?_⟩
    obtain ⟨hk, hKeeps, hStart, q, hJob, hResponses⟩ := h.service k job x hPhase
    refine ⟨hk, hKeeps.trans ⟨by rw [hView], hCurrent, hNext⟩, ?_, q, hJob, ?_⟩
    · rw [lastStart?_snoc, Moment.startOf_of_other (by simp)]
      exact hStart
    · rw [responsesBy_other past (by simp [Turn.worker?])]
      exact hResponses

/-- The workers go through these phases along every run in which nothing else sets breakpoints. -/
theorem Comes.placed {now : Scene Hand Job Session World Unit fun _ => Unit} (h : Comes told journal past now)
    (hNone : ∀ e ∈ past, SetsNone e) :
    ∃ φ, (∀ k, (placing told).Plays φ now k) ∧ Placed φ past now.state := by
  have hLeads : (setting told).LeadsBy (fun m e => Sound e.before ∧ SetsNone e) (fresh journal) past now := by
    induction h with
    | nil => exact .nil
    | snoc hBefore hHappens ih =>
      refine (ih fun e he => hNone e (by simp [he])).snoc hHappens ⟨?_, hNone _ (by simp)⟩
      rw [hHappens.before]
      exact (Comes.kept hBefore).valid
  exact hLeads.plays_roles placing_keeps (fun _ hRule => hRule) (fun _ => rfl) ⟨⟨[], rfl, rfl⟩, by simp⟩

/-! ## To the end -/

/-- Such a request asks nothing, and waits for the debuggee to install the breakpoints only for a while. -/
theorem serveSetBreakpoints_prompt (a : Dap.SetBreakpointsArguments) : (serveSetBreakpoints a).run.Prompt := by
  have hRead : ∀ source y, (readBreakpoint source y).run.Prompt := by
    intro source y
    refine Attempt.prompt_bind ?_ fun _ => Attempt.prompt_bind (fun _ => trivial) fun _ => trivial
    refine Routine.Prompt.bind ?_ fun _ => trivial
    unfold noteCondition
    split <;> trivial
  have hAwait : ∀ source generation, (awaitSync source generation).Prompt := by
    intro source generation
    refine Routine.Prompt.bind (fun _ => trivial) fun d => ?_
    cases d with
    | none => trivial
    | some d => exact ⟨rfl, fun inTime => by cases inTime <;> trivial⟩
  have hShow : ∀ b, (breakpointJson b).run.Prompt := fun b =>
    Attempt.prompt_bind (fun _ => trivial) fun _ => Attempt.prompt_bind (fun _ => trivial) fun _ => trivial
  refine Attempt.prompt_bind (w := require _) trivial fun source => ?_
  refine Attempt.prompt_bind (Attempt.prompt_mapM (hRead source) _) fun wanted => ?_
  refine Attempt.prompt_bind (fun _ => trivial) fun stored => ?_
  refine Attempt.prompt_bind (w := act _) trivial fun _ => ?_
  refine Attempt.prompt_bind (Routine.Prompt.bind (hAwait source _) fun _ => trivial) fun _ => ?_
  exact Attempt.prompt_bind (Attempt.prompt_mapM hShow _) fun _ => trivial

theorem serve_sets_prompt (hCommand : q.command = "setBreakpoints") : (serve q).Prompt := by
  have hNamed : serveNamed q = withArguments q Dap.SetBreakpointsArguments.read serveSetBreakpoints := by
    unfold serveNamed
    rw [hCommand]
    rfl
  refine serve_prompt ?_ ?_
  · rw [hNamed]
    exact Attempt.prompt_bind (w := require _) trivial serveSetBreakpoints_prompt
  · unfold follow
    rw [hCommand]
    rfl

/-- A request to set breakpoints is done as a whole: it is answered once, and it has replaced the breakpoints of its source,
or changed nothing. -/
structure SetsWhole (told : (c : Call) → Answer c → Prop) (past : List Happening)
    (now : Scene Hand Job Session World Unit fun _ => Unit) : Prop where
  /-- Wherever it is, it comes to its end. -/
  ends : ∀ q r, q.command = "setBreakpoints" → now.busy defaultHand = some (.request q, r) →
    (setting told).Ends defaultHand (.request q) now
  served : ∀ q a path (span : Span past defaultHand (.request q)), q.command = "setBreakpoints" →
    q.argumentsAs Dap.SetBreakpointsArguments.read = .ok a → a.source.path = some path →
    ∃ result, responsesBy defaultHand span.during = [.of q result] ∧
      Replaced span.began.before.view.numbering (.ofPath ⟨path⟩) a.breakpoints span.began.before.book span.ended.after.book
        result

variable {now : Scene Hand Job Session World Unit fun _ => Unit}

theorem Serving.replaced {source : Source} {result : Except Error (Option Json)} (h : Serving a s₀ s₁ result)
    (hSource : ClientView.sourceFromClient a.source = .ok source) (hKeeps : KeepsSet s₁ s')
    (hNumbered : BreakpointSet.Numbered s₀.book.next (s₀.book.breakpointsOf source.path)) :
    Replaced s₀.view.numbering source a.breakpoints s₀.book s'.book result := by
  cases h with
  | unplaced hError =>
    rw [hSource] at hError
    cases hError
  | refused hSame hError =>
    obtain rfl := Except.ok.inj (hSource.symm.trans hSame)
    exact .of_error hError ⟨hKeeps.current, hKeeps.next⟩
  | stored hSame hWanted hShown =>
    obtain rfl := Except.ok.inj (hSource.symm.trans hSame)
    exact .of_ok hWanted hNumbered hKeeps.current hShown

/-- Whatever comes in between, a request to set breakpoints is done as a whole. -/
theorem sets_whole (h : Comes told journal past now) (hNone : ∀ e ∈ past, SetsNone e) : SetsWhole told past now where
  ends q r hCommand hBusy := Comes.ends_of_prompt h (fun _ => serve_sets_prompt) hCommand hBusy
  served q a path span hCommand hArguments hPath := by
    obtain ⟨before, began, during, ended, after, rfl, hTakesUp, hIsDone, hSame⟩ := span
    obtain ⟨m, m', hBefore, hEnd, -⟩ := Setting.Leads.around h
    obtain ⟨m₀, m₁, hFirst, hBegin, -⟩ := Setting.Leads.around hBefore
    obtain ⟨φ, hPlays, hPlaced⟩ := Comes.placed hBefore fun e he => hNone e (by simp only [List.mem_append] at he ⊢; tauto)
    obtain ⟨-, -, ⟨changes, hCurrent, hNext⟩, -⟩ := Comes.placed hFirst fun e he => hNone e (by simp [he])
    cases hEnd with
    | isDone hBusy =>
      cases hIsDone
      obtain ⟨g, hPhase, hPost⟩ := (hPlays _).busy hBusy
      obtain ⟨s₀, s₁, result, rfl, hServing⟩ := hPost q rfl rfl hCommand
      obtain ⟨-, hKeeps, hStart, q', ⟨⟩, hResponses⟩ := hPlaced.service _ _ _ hPhase
      obtain rfl : began.before = s₀ := Option.some.inj ((lastStart?_of_takesUp hTakesUp hSame).symm.trans hStart)
      refine ⟨result, ?_, (hServing a hArguments).replaced (by rw [ClientView.sourceFromClient, hPath]) hKeeps ?_⟩
      · rw [responsesBy, deeds_of_takesUp hTakesUp] at hResponses
        exact hResponses
      · rw [BreakpointBook.breakpointsOf, hBegin.before, hCurrent, hNext]
        exact (BreakpointBook.numbers_of changes).earlier _
    | _ => cases hIsDone

/-! A client that counts from 0 sets two breakpoints, and then it asks for a line that there cannot be. -/

section FromZero

def countsFromZero : Dap.Request := ⟨1, "initialize", some (.obj [("linesStartAt1", .bool false)])⟩

def asksFor (seq : Int) (lines : List Int) : Dap.Request :=
  ⟨seq, "setBreakpoints", some (.obj [("source", .obj [("path", .str "/w/A.java")]),
    ("breakpoints", .arr (lines.map fun line => .obj [("line", .int line)]))])⟩

def setsTwice : List (Cue Hand (Option DebugEvent) Dap.Request) :=
  servedAlone countsFromZero 7 ++ servedAlone (asksFor 2 [0, 4294967294]) 12 ++ servedAlone (asksFor 3 [4, 4294967295]) 6

def alone : Script (setting fun _ _ => True) (Option DebugEvent) Dap.Request := script (fun _ => none) fun _ _ _ => trivial

theorem sets_whole_from_zero : ∃ past now, Comes (fun _ _ => True) none past now ∧ (∀ e ∈ past, SetsNone e) ∧
    SetsWhole (fun _ _ => True) past now ∧
    (Dap.responses now.state.outbox).map (fun r => (r.requestSeq, r.success)) = [(1, true), (2, true), (3, false)] ∧
    now.state.book.current.all.map (fun b => (b.id, b.line)) = [(1, 1), (2, 4294967295)] := by
  have hLeads := alone.leads_ending setsTwice (fresh none)
  have hNone : ∀ e ∈ alone.story setsTwice (fresh none), SetsNone e := by
    intro e he hOutside
    have hBook := alone.outside_of_story (fun s s' => s'.book = s.book) ?dispatched he hOutside
    case dispatched =>
      rintro q s m s' m' ⟨⟩
      rw [dispatch_eq]
      cases route q.command <;> rfl
    simp [hBook]
  refine ⟨_, _, hLeads, hNone, sets_whole hLeads hNone, ?_, ?_⟩
  · decide +kernel
  · decide +kernel

end FromZero

end JvmDebug.Session
