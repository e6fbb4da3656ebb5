import JvmDebug.Proofs.Session.Answering

/-!
# Where each request is

Each request that is dispatched waits on its lane, is being served, or has been answered, and is so once. The requests
of a lane are answered in the order in which they were dispatched.
-/

namespace JvmDebug
set_option autoImplicit false

theorem perm_without {α β : Type} [DecidableEq α] {l : List (α × β)} (hOnce : (l.map (·.1)).Nodup) {x : α × β}
    (hx : x ∈ l) : l.Perm (x :: l.filter (·.1 ≠ x.1)) := by
  induction l with
  | nil => cases hx
  | cons y rest ih =>
    obtain ⟨hFirst, hRest⟩ := List.nodup_cons.mp hOnce
    by_cases hSame : y.1 = x.1
    · have hAll : rest.filter (·.1 ≠ x.1) = rest := by
        rw [List.filter_eq_self]
        intro z hz
        exact decide_eq_true fun hEq => hFirst (List.mem_map.mpr ⟨z, hz, hEq.trans hSame.symm⟩)
      have hEq : x = y := by
        rcases List.mem_cons.mp hx with h | h
        · exact h
        · exact absurd (List.mem_map.mpr ⟨x, h, hSame.symm⟩) hFirst
      rw [List.filter_cons_of_neg (by simp [hSame]), hAll, hEq]
    · have hThere : x ∈ rest := by
        rcases List.mem_cons.mp hx with h | h
        · exact absurd (congrArg Prod.fst h).symm hSame
        · exact h
      rw [List.filter_cons_of_pos (by simpa using hSame)]
      exact ((ih hRest hThere).cons y).trans (.swap ..)

namespace Dap

def responses (messages : List Outgoing) : List Response := messages.filterMap Outgoing.response?

theorem responses_append (first second : List Outgoing) :
    responses (first ++ second) = responses first ++ responses second := List.filterMap_append

theorem responses_eq_nil {messages : List Outgoing} (h : ∀ m ∈ messages, m.response? = none) : responses messages = [] := by
  simpa [responses] using h

end Dap

namespace Session

/-! ## What has happened -/

/-- The requests that came at a moment. -/
def dispatchedAt (e : Happening) : List Dap.Request :=
  match e.turn with
  | .outside => queued e.before e.after
  | _ => []

/-- All requests that were dispatched, the first one first. -/
def dispatched (past : List Happening) : List Dap.Request := past.flatMap dispatchedAt

/-- The responses that were sent at a moment, each with the request that was being served. -/
def answeredAt (e : Happening) : List (Dap.Request × Dap.Response) :=
  match e.turn with
  | .goesOn _ (.request q) _ => (Dap.responses (added e.before.outbox e.after.outbox)).map (q, ·)
  | _ => []

def answered (past : List Happening) : List (Dap.Request × Dap.Response) := past.flatMap answeredAt

def served (past : List Happening) : List Dap.Request := (answered past).map (·.1)

/-- The responses of a worker to what it took up last. -/
def responsesBy (k : Hand) (past : List Happening) : List Dap.Response :=
  (deeds k past).flatMap fun x => Dap.responses (added x.before.outbox x.after.outbox)

def goesTo (x : Route) (q : Dap.Request) : Bool := route q.command = x

/-- The requests that wait on a route. -/
def onRoute (s : Session) : Route → List Dap.Request
  | .default => s.defaultLane
  | .launcher => s.launcherLane.filterMap LauncherJob.request?
  | .arrival => s.arrivals.map (·.2)

def waiting (s : Session) : List Dap.Request := s.onRoute .default ++ s.onRoute .launcher ++ s.onRoute .arrival

def onDefault (past : List Happening) : List (Dap.Request × Dap.Response) := (answered past).filter fun x => goesTo .default x.1

/-! ## Who serves what -/

/-- The route of the requests that a worker serves. -/
def Hand.route? : Hand → Option Route
  | .worker .defaultLane => some .default
  | .worker .launcherLane => some .launcher
  | .worker (.arrival _) => some .arrival
  | _ => none

/-- What a worker takes up, and what is left then. -/
inductive Taken (s : Session) : Worker → Job → Activity Unit → Session → Prop where
  | default {q : Dap.Request} {rest : List Dap.Request} : s.defaultLane = q :: rest →
      Taken s .defaultLane (.request q) (Worker.onLane "default" (serve q)) { s with defaultLane := rest }
  | launcher {j : LauncherJob} {rest : List LauncherJob} : s.launcherLane = j :: rest →
      Taken s .launcherLane (LauncherJob.job j) (Worker.onLane "launcher" (Worker.launcherJob j)) { s with launcherLane := rest }
  | arrival {n : Nat} {q : Dap.Request} : (n, q) ∈ s.arrivals →
      Taken s (.arrival n) (.request q) (serve q) { s with arrivals := s.arrivals.filter (·.1 ≠ n) }
  | forwarder {n : Nat} {r : Activity Unit} {s' : Session} : takeOutput n s = some (r, s') →
      Taken s (.forwarder n) (.forward n) r s'

variable {told : (c : Call) → Answer c → Prop} {journal : Option Log.Journal} {past : List Happening} {e : Happening}
  {k j : Hand} {w : Worker} {job : Job} {q : Dap.Request} {s s' : Session} {r : Activity Unit} {x : Route}

theorem taken_of_take (hJob : w.job? s = some job) (hTake : w.take s = some (r, s')) : Taken s w job r s' := by
  cases w with
  | defaultLane =>
    simp only [Worker.job?, Worker.take] at hJob hTake
    split at hTake
    · cases hTake
    · next q rest hLane =>
      rw [hLane] at hJob
      cases hJob
      cases hTake
      exact .default hLane
  | launcherLane =>
    simp only [Worker.job?, Worker.take] at hJob hTake
    split at hTake
    · cases hTake
    · next j rest hLane =>
      rw [hLane] at hJob
      cases hJob
      cases hTake
      exact .launcher hLane
  | forwarder n =>
    cases hJob
    exact .forwarder hTake
  | arrival n =>
    simp only [Worker.job?, Worker.take] at hJob hTake
    split at hTake
    · next m q hFound =>
      rw [hFound] at hJob
      cases hJob
      cases hTake
      obtain rfl : m = n := by simpa using List.find?_some hFound
      exact .arrival (List.mem_of_find?_eq_some hFound)
    · cases hTake

/-- Nothing is taken from a lane, and nothing is put on it. -/
structure SameLanes (s s' : Session) : Prop where
  onRoute : ∀ x, s'.onRoute x = s.onRoute x
  arrivals : s'.arrivals = s.arrivals ∧ s'.nextArrival = s.nextArrival

theorem same_lanes_of_eq (hDefault : s'.defaultLane = s.defaultLane)
    (hLauncher : s'.launcherLane.filterMap LauncherJob.request? = s.launcherLane.filterMap LauncherJob.request?)
    (hArrivals : s'.arrivals = s.arrivals) (hNext : s'.nextArrival = s.nextArrival) : SameLanes s s' := by
  refine ⟨fun x => ?_, hArrivals, hNext⟩
  cases x with
  | default => exact hDefault
  | launcher => exact hLauncher
  | arrival => exact congrArg (List.map (·.2)) hArrivals

theorem SameLanes.waiting (h : SameLanes s s') : s'.waiting = s.waiting := by
  simp only [Session.waiting, h.onRoute]

theorem Aside.same_lanes {l : Leave} (h : Aside l s s') : SameLanes s s' := by
  refine same_lanes_of_eq h.defaultLane ?_ h.arrivals.1 h.arrivals.2
  obtain ⟨new, hNew, hNone⟩ := h.launcherLane
  have hNothing : new.filterMap LauncherJob.request? = [] := by simpa using hNone
  rw [hNew, List.filterMap_append, hNothing, List.append_nil]

theorem same_lanes_of_takeOutput {n : Nat} (h : takeOutput n s = some (r, s')) : SameLanes s s' := by
  unfold takeOutput at h
  repeat' split at h
  all_goals cases h
  all_goals exact same_lanes_of_eq rfl rfl rfl rfl

/-! ## The past, moment by moment -/

theorem dispatched_snoc (past : List Happening) (e : Happening) :
    dispatched (past ++ [e]) = dispatched past ++ dispatchedAt e := by
  simp [dispatched]

theorem answered_snoc (past : List Happening) (e : Happening) : answered (past ++ [e]) = answered past ++ answeredAt e := by
  simp [answered]

theorem served_snoc (past : List Happening) (e : Happening) :
    served (past ++ [e]) = served past ++ (answeredAt e).map (·.1) := by
  simp [served, answered_snoc]

theorem onDefault_snoc (past : List Happening) (e : Happening) :
    onDefault (past ++ [e]) = onDefault past ++ (answeredAt e).filter fun x => goesTo .default x.1 := by
  simp [onDefault, answered_snoc]

/-- Lines of the log are no responses. -/
theorem responses_added_keep (r : Log.Record) (s : Session) : Dap.responses (added s.outbox (keep r s).outbox) = [] := by
  obtain ⟨new, hNew, hTold⟩ := (aside_keep ⟨fun _ => False, fun _ => True, True, True⟩ r s).sends
  rw [hNew, added_append]
  refine Dap.responses_eq_nil fun m hm => ?_
  rcases hTold m hm with ⟨text, rfl⟩ | hNone
  · rfl
  · exact hNone.elim

theorem responsesBy_takesUp (past : List Happening) (k : Hand) (job : Job) (s s' : Session) :
    responsesBy k (past ++ [⟨.takesUp k job, s, s'⟩]) = [] := by
  simp [responsesBy, deeds_snoc, Moment.addTo]

theorem responsesBy_goesOn (past : List Happening) (k : Hand) (job : Job) (asked : Option (Asked World)) (s s' : Session) :
    responsesBy k (past ++ [⟨.goesOn k job asked, s, s'⟩]) = responsesBy k past ++ Dap.responses (added s.outbox s'.outbox) := by
  simp [responsesBy, deeds_snoc, Moment.addTo]

theorem responsesBy_other (past : List Happening) (h : e.turn.worker? ≠ some k) :
    responsesBy k (past ++ [e]) = responsesBy k past := by
  rw [responsesBy, deeds_snoc, Moment.addTo_of_other h, responsesBy]

/-! ## Where each request is -/

/-- On a lane the requests are served in the order in which they came. -/
def InLine (x : Route) (k : Hand) (u : Hand → Option Dap.Request) (past : List Happening) (s : Session) : Prop :=
  (dispatched past).filter (goesTo x) = (served past).filter (goesTo x) ++ (u k).toList ++ s.onRoute x

/-- Where each request is, if `u` tells which workers have requests that are not answered yet. -/
structure Counted (u : Hand → Option Dap.Request) (past : List Happening) (s : Session) : Prop where
  once : (s.arrivals.map (·.1)).Nodup
  numbers : ∀ a ∈ s.arrivals, a.1 < s.nextArrival
  routed : ∀ x, ∀ q ∈ s.onRoute x, route q.command = x
  serves : ∀ k q, u k = some q → k.route? = some (route q.command)
  account : ∃ atWork : List (Hand × Dap.Request), (atWork.map (·.1)).Nodup ∧ (∀ k q, (k, q) ∈ atWork ↔ u k = some q) ∧
    (dispatched past).Perm (served past ++ atWork.map (·.2) ++ s.waiting)
  default : InLine .default (.worker .defaultLane) u past s
  launcher : InLine .launcher (.worker .launcherLane) u past s

variable {u : Hand → Option Dap.Request}

theorem InLine.other (h : InLine x k u past s) {o : Option Dap.Request} (hOther : k ≠ j) (hDispatched : dispatchedAt e = [])
    (hAnswered : ((answeredAt e).map (·.1)).filter (goesTo x) = []) (hSame : s'.onRoute x = s.onRoute x) :
    InLine x k (Function.update u j o) (past ++ [e]) s' := by
  rw [InLine, dispatched_snoc, served_snoc, hDispatched, List.append_nil, List.filter_append, hAnswered, List.append_nil,
    Function.update_of_ne hOther, hSame]
  exact h

theorem InLine.takes (h : InLine x k u past s) (hFree : u k = none) (hFirst : s.onRoute x = q :: s'.onRoute x)
    (hDispatched : dispatchedAt e = []) (hAnswered : answeredAt e = []) :
    InLine x k (Function.update u k (some q)) (past ++ [e]) s' := by
  rw [InLine, dispatched_snoc, served_snoc, hDispatched, hAnswered, List.append_nil, List.map_nil, List.append_nil,
    Function.update_self]
  simpa [InLine, hFree, hFirst] using h

theorem InLine.responds (h : InLine x k u past s) (hHere : u k = some q) (hRoute : route q.command = x)
    (hDispatched : dispatchedAt e = []) (hAnswered : (answeredAt e).map (·.1) = [q]) (hSame : s'.onRoute x = s.onRoute x) :
    InLine x k (Function.update u k none) (past ++ [e]) s' := by
  rw [InLine, dispatched_snoc, served_snoc, hDispatched, hAnswered, List.append_nil, List.filter_append, hSame,
    Function.update_self]
  simpa [InLine, hHere, goesTo, hRoute] using h

/-- Nothing happens to any request. -/
theorem Counted.silent (h : Counted u past s) (hLanes : SameLanes s s') (hDispatched : dispatchedAt e = [])
    (hAnswered : answeredAt e = []) : Counted u (past ++ [e]) s' where
  once := hLanes.arrivals.1 ▸ h.once
  numbers := by
    rw [hLanes.arrivals.1, hLanes.arrivals.2]
    exact h.numbers
  routed x := hLanes.onRoute x ▸ h.routed x
  serves := h.serves
  account := by
    obtain ⟨atWork, hOnce, hMem, hPerm⟩ := h.account
    refine ⟨atWork, hOnce, hMem, ?_⟩
    rwa [dispatched_snoc, served_snoc, hDispatched, hAnswered, hLanes.waiting, List.append_nil, List.map_nil, List.append_nil]
  default := by
    have hDefault := h.default
    rwa [InLine, dispatched_snoc, served_snoc, hDispatched, hAnswered, hLanes.onRoute, List.append_nil, List.map_nil,
      List.append_nil]
  launcher := by
    have hLauncher := h.launcher
    rwa [InLine, dispatched_snoc, served_snoc, hDispatched, hAnswered, hLanes.onRoute, List.append_nil, List.map_nil,
      List.append_nil]

/-- A worker that has no unanswered request takes one up. -/
theorem Counted.account_takes (h : Counted u past s) (hFree : u k = none) (hWaiting : s.waiting.Perm (q :: s'.waiting))
    (hDispatched : dispatchedAt e = []) (hAnswered : answeredAt e = []) :
    ∃ atWork : List (Hand × Dap.Request), (atWork.map (·.1)).Nodup ∧
      (∀ k' q', (k', q') ∈ atWork ↔ Function.update u k (some q) k' = some q') ∧
      (dispatched (past ++ [e])).Perm (served (past ++ [e]) ++ atWork.map (·.2) ++ s'.waiting) := by
  obtain ⟨atWork, hOnce, hMem, hPerm⟩ := h.account
  have hNot : ∀ q', (k, q') ∉ atWork := fun q' hThere => by simp [hMem, hFree] at hThere
  refine ⟨(k, q) :: atWork, ?_, fun k' q' => ?_, ?_⟩
  · refine List.nodup_cons.mpr ⟨fun hThere => ?_, hOnce⟩
    obtain ⟨⟨k', q'⟩, hHere, rfl⟩ := List.mem_map.mp hThere
    exact hNot q' hHere
  · by_cases hk : k' = k
    · subst hk
      simp [hNot, eq_comm]
    · simp [hk, hMem]
  · rw [dispatched_snoc, served_snoc, hDispatched, hAnswered, List.append_nil, List.map_nil, List.append_nil]
    refine hPerm.trans ((List.Perm.append_left _ hWaiting).trans ?_)
    have hFront : (atWork.map (·.2) ++ q :: s'.waiting).Perm (q :: (atWork.map (·.2) ++ s'.waiting)) := List.perm_middle
    simpa using hFront.append_left (served past)

theorem Counted.account_responds (h : Counted u past s) (hHere : u k = some q) (hSame : s'.waiting = s.waiting)
    (hDispatched : dispatchedAt e = []) (hAnswered : (answeredAt e).map (·.1) = [q]) :
    ∃ atWork : List (Hand × Dap.Request), (atWork.map (·.1)).Nodup ∧
      (∀ k' q', (k', q') ∈ atWork ↔ Function.update u k none k' = some q') ∧
      (dispatched (past ++ [e])).Perm (served (past ++ [e]) ++ atWork.map (·.2) ++ s'.waiting) := by
  obtain ⟨atWork, hOnce, hMem, hPerm⟩ := h.account
  refine ⟨atWork.filter (·.1 ≠ k), hOnce.sublist (List.filter_sublist.map _), fun k' q' => ?_, ?_⟩
  · by_cases hk : k' = k
    · subst hk
      simp
    · simp [hk, hMem]
  · rw [dispatched_snoc, served_snoc, hDispatched, hAnswered, List.append_nil, hSame]
    refine hPerm.trans (List.Perm.append_right _ ?_)
    have hTaken := (perm_without hOnce ((hMem k q).mpr hHere)).map (·.2)
    simpa using hTaken.append_left (served past)

theorem eq_of_route {k' : Hand} (h : k.route? = some x) (h' : k'.route? = some x) (hLane : x ≠ .arrival) : k' = k := by
  rcases k with (_ | _ | _ | _) | _ <;> rcases k' with (_ | _ | _ | _) | _ <;> cases h <;> cases h' <;>
    first | rfl | exact absurd rfl hLane

/-- A worker takes a request up that is the first on its lane. -/
theorem Counted.takes_first (h : Counted u past s) (hFree : u k = none) (hRoute : k.route? = some x) (hLane : x ≠ .arrival)
    (hFirst : s.onRoute x = q :: s'.onRoute x) (hOthers : ∀ y, y ≠ x → s'.onRoute y = s.onRoute y)
    (hArrivals : s'.arrivals = s.arrivals ∧ s'.nextArrival = s.nextArrival) (hDispatched : dispatchedAt e = [])
    (hAnswered : answeredAt e = []) : Counted (Function.update u k (some q)) (past ++ [e]) s' := by
  have hHere : route q.command = x := h.routed x q (by simp [hFirst])
  have hLine : ∀ {y j}, InLine y j u past s → j.route? = some y → y ≠ .arrival →
      InLine y j (Function.update u k (some q)) (past ++ [e]) s' := by
    intro y j hLine hj hy
    by_cases hSame : y = x
    · subst hSame
      obtain rfl := eq_of_route hRoute hj hy
      exact hLine.takes hFree hFirst hDispatched hAnswered
    · refine hLine.other (fun hEq => hSame ?_) hDispatched (by simp [hAnswered]) (hOthers y hSame)
      exact Option.some.inj (hj.symm.trans (hEq ▸ hRoute))
  refine ⟨hArrivals.1 ▸ h.once, ?_, ?_, ?_, h.account_takes hFree ?_ hDispatched hAnswered,
    hLine h.default rfl (by decide), hLine h.launcher rfl (by decide)⟩
  · rw [hArrivals.1, hArrivals.2]
    exact h.numbers
  · intro y p hp
    by_cases hSame : y = x
    · subst hSame
      exact h.routed y p (by simp [hFirst, hp])
    · exact h.routed y p (hOthers y hSame ▸ hp)
  · intro k' q' hThere
    by_cases hk : k' = k
    · subst hk
      obtain rfl : q = q' := by simpa using hThere
      rw [hRoute, hHere]
    · exact h.serves k' q' (by rwa [Function.update_of_ne hk] at hThere)
  · simp only [waiting]
    cases x with
    | default => simp [hFirst, hOthers]
    | launcher => simp [hFirst, hOthers]
    | arrival => exact absurd rfl hLane

/-- A worker takes a request up that waits on its own. -/
theorem Counted.takes_arrival {n : Nat} (h : Counted u past s) (hFree : u (.worker (.arrival n)) = none)
    (hHere : (n, q) ∈ s.arrivals) (hDispatched : dispatchedAt e = []) (hAnswered : answeredAt e = []) :
    Counted (Function.update u (.worker (.arrival n)) (some q)) (past ++ [e])
      { s with arrivals := s.arrivals.filter (·.1 ≠ n) } := by
  have hTaken := (perm_without h.once hHere).map (·.2)
  have hOther : ∀ {y j}, InLine y j u past s → j ≠ .worker (.arrival n) → y ≠ .arrival →
      InLine y j (Function.update u (.worker (.arrival n)) (some q)) (past ++ [e])
        { s with arrivals := s.arrivals.filter (·.1 ≠ n) } := by
    intro y j hLine hj hy
    refine hLine.other hj hDispatched (by simp [hAnswered]) ?_
    cases y <;> first | rfl | exact absurd rfl hy
  refine ⟨h.once.sublist (List.filter_sublist.map _), fun a ha => h.numbers a (List.mem_of_mem_filter ha), ?_, ?_,
    h.account_takes hFree ?_ hDispatched hAnswered, hOther h.default (by simp) (by decide),
    hOther h.launcher (by simp) (by decide)⟩
  · intro y p hp
    cases y with
    | arrival => exact h.routed .arrival p ((List.filter_sublist.map _).subset hp)
    | default => exact h.routed .default p hp
    | launcher => exact h.routed .launcher p hp
  · intro k' q' hThere
    by_cases hk : k' = .worker (.arrival n)
    · subst hk
      obtain rfl : q = q' := by simpa using hThere
      rw [h.routed .arrival q (List.mem_map_of_mem hHere)]
      rfl
    · exact h.serves k' q' (by rwa [Function.update_of_ne hk] at hThere)
  · exact (List.Perm.append_left _ hTaken).trans List.perm_middle

/-- A request is answered. -/
theorem Counted.responds (h : Counted u past s) (hHere : u k = some q) (hLanes : SameLanes s s')
    (hDispatched : dispatchedAt e = []) (hAnswered : (answeredAt e).map (·.1) = [q]) :
    Counted (Function.update u k none) (past ++ [e]) s' := by
  have hRoute := h.serves k q hHere
  have hLine : ∀ {y j}, InLine y j u past s → j.route? = some y → y ≠ .arrival →
      InLine y j (Function.update u k none) (past ++ [e]) s' := by
    intro y j hLine hj hy
    by_cases hSame : route q.command = y
    · obtain rfl := eq_of_route (hSame ▸ hRoute) hj hy
      exact hLine.responds hHere hSame hDispatched hAnswered (hLanes.onRoute y)
    · refine hLine.other (fun hEq => hSame ?_) hDispatched ?_ (hLanes.onRoute y)
      · exact Option.some.inj (hRoute.symm.trans (hEq ▸ hj))
      · simp [hAnswered, goesTo, hSame]
  refine ⟨hLanes.arrivals.1 ▸ h.once, ?_, fun x => hLanes.onRoute x ▸ h.routed x, ?_,
    h.account_responds hHere hLanes.waiting hDispatched hAnswered, hLine h.default rfl (by decide),
    hLine h.launcher rfl (by decide)⟩
  · rw [hLanes.arrivals.1, hLanes.arrivals.2]
    exact h.numbers
  · intro k' q' hThere
    by_cases hk : k' = k
    · subst hk
      simp at hThere
    · exact h.serves k' q' (by rwa [Function.update_of_ne hk] at hThere)

theorem onRoute_dispatch (q : Dap.Request) (s : Session) (x : Route) :
    (s.dispatch q).onRoute x = s.onRoute x ++ if route q.command = x then [q] else [] := by
  rw [dispatch_eq]
  cases route q.command <;> cases x <;> simp [onRoute, LauncherJob.request?]

/-- A request is dispatched. -/
theorem Counted.comes (h : Counted u past s) (q : Dap.Request) :
    Counted u (past ++ [⟨.outside, s, s.dispatch q⟩]) (s.dispatch q) := by
  have hDispatched : dispatchedAt ⟨.outside, s, s.dispatch q⟩ = [q] := queued_dispatch q s
  have hAnswered : answeredAt ⟨.outside, s, s.dispatch q⟩ = [] := rfl
  have hLine : ∀ {y j}, InLine y j u past s → InLine y j u (past ++ [⟨.outside, s, s.dispatch q⟩]) (s.dispatch q) := by
    intro y j hLine
    rw [InLine, dispatched_snoc, served_snoc, hDispatched, hAnswered, onRoute_dispatch, List.filter_append, hLine]
    by_cases hSame : route q.command = y <;> simp [goesTo, hSame]
  have hArrivals : (s.dispatch q).arrivals = s.arrivals ∧ (s.dispatch q).nextArrival = s.nextArrival ∨
      (s.dispatch q).arrivals = s.arrivals ++ [(s.nextArrival, q)] ∧ (s.dispatch q).nextArrival = s.nextArrival + 1 := by
    rw [dispatch_eq]
    cases route q.command <;> simp
  refine ⟨?_, ?_, ?_, h.serves, ?_, hLine h.default, hLine h.launcher⟩
  · rcases hArrivals with ⟨hSame, -⟩ | ⟨hNew, -⟩
    · exact hSame ▸ h.once
    · rw [hNew, List.map_append, List.nodup_append]
      refine ⟨h.once, by simp, ?_⟩
      rintro _ hOld _ hNew rfl
      obtain ⟨a, ha, hEq⟩ := List.mem_map.mp hOld
      have hLess := h.numbers a ha
      have hNext : a.1 = s.nextArrival := hEq.trans (by simpa using hNew)
      omega
  · rcases hArrivals with ⟨hSame, hNext⟩ | ⟨hNew, hNext⟩
    · rw [hSame, hNext]
      exact h.numbers
    · intro a ha
      rw [hNew] at ha
      rcases List.mem_append.mp ha with ha | ha
      · have hLess := h.numbers a ha
        omega
      · rw [List.mem_singleton.mp ha]
        omega
  · intro x p hp
    rw [onRoute_dispatch] at hp
    rcases List.mem_append.mp hp with hp | hp
    · exact h.routed x p hp
    · split at hp
      · next hHere => rwa [List.mem_singleton.mp hp]
      · cases hp
  · obtain ⟨atWork, hOnce, hMem, hPerm⟩ := h.account
    refine ⟨atWork, hOnce, hMem, ?_⟩
    have hWaiting : (s.waiting ++ [q]).Perm (s.dispatch q).waiting := by
      simp only [waiting, onRoute_dispatch]
      cases route q.command
      · simpa using (List.perm_append_singleton q (s.onRoute .launcher ++ s.onRoute .arrival)).append_left (s.onRoute .default)
      · simpa using (List.perm_append_singleton q (s.onRoute .arrival)).append_left (s.onRoute .default ++ s.onRoute .launcher)
      · simp
    rw [dispatched_snoc, served_snoc, hDispatched, hAnswered, List.map_nil, List.append_nil]
    refine (hPerm.append_right [q]).trans ?_
    rw [List.append_assoc]
    exact hWaiting.append_left _

/-! ## Requests that ask nothing -/

theorem serve_prompt (hServe : (serveNamed q).run.Prompt) (hFollow : follow q = pure ()) : (serve q).Prompt := by
  refine Routine.Prompt.bind (Attempt.prompt_bind (w := act _) trivial fun _ => hServe) fun result => ?_
  cases result with
  | error e => exact fun _ => trivial
  | ok body =>
    intro s
    change (follow q).Prompt
    rw [hFollow]
    trivial

/-- A request that asks nothing comes to its end by itself. -/
theorem Comes.ends_of_prompt {now : Scene Hand Job Session World Unit fun _ => Unit} {p : Dap.Request → Prop}
    (h : Comes told journal past now) (hPrompt : ∀ q, p q → (serve q).Prompt) (hHere : p q) {r : Activity Unit}
    (hBusy : now.busy k = some (.request q, r)) : (setting told).Ends k (.request q) now := by
  refine .of_prompt (Setting.Leads.left_at (p := fun job r => ∀ q, job = .request q → p q → r.Prompt) h rfl ?_ ?_ hBusy q rfl
    hHere) hBusy
  · rintro job s r s' hTakes q rfl hHere
    cases hTakes with
    | job hJob hTake =>
      generalize hAt : Job.request q = job at hJob
      cases taken_of_take hJob hTake with
      | default _ =>
        cases hAt
        exact hPrompt _ hHere
      | @launcher j rest _ =>
        cases j with
        | request q =>
          cases hAt
          exact hPrompt _ hHere
        | run => cases hAt
      | arrival _ =>
        cases hAt
        exact hPrompt _ hHere
      | forwarder _ => cases hAt
  · intro job r s m asked r' s' m' hStep hHolds q hJob hHere
    exact hStep.prompt (hHolds q hJob hHere)

end Session
end JvmDebug
