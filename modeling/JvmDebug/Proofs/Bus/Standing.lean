import JvmDebug.Proofs.Bus.Course
import JvmDebug.Proofs.List
import Mathlib.Data.List.Nodup
import Mathlib.Data.List.Perm.Basic

/-!
# Who stands on a bus

The listeners of a bus are at any moment those whose subscriptions have been made and not been dropped, in the order in
which they were made. So it can be told from what has happened which of them a publication will reach.
-/

namespace JvmDebug.Hub
set_option autoImplicit false

variable {ν ε : Type}

/-! ## Subscriptions -/

def Moment.subscribed (m : Moment ν ε) : List (Listener ν ε) :=
  match m.task with
  | .act (.subscribe name reaction) => [⟨name, reaction⟩]
  | _ => []

/-- The subscriptions that have been made, numbered in their order. -/
def made (past : List (Moment ν ε)) : List (Nat × Listener ν ε) :=
  (past.flatMap Moment.subscribed).mapIdx fun i listener => (i + 1, listener)

section Numbers

variable {past : List (Moment ν ε)} {m : Moment ν ε} {listener : Listener ν ε} {n : Nat}

theorem made_numbers (past : List (Moment ν ε)) : (made past).map (·.1) = List.range' 1 (made past).length := by
  apply List.ext_getElem
  · simp
  · intro i _ _
    simp [made]
    omega

theorem nodup_made (past : List (Moment ν ε)) : ((made past).map (·.1)).Nodup := by
  rw [made_numbers]
  exact List.nodup_range'

theorem le_of_made (h : n ∈ (made past).map (·.1)) : n ≤ (made past).length := by
  rw [made_numbers, List.mem_range'_1] at h
  omega

theorem made_snoc_of_nil (hNone : m.subscribed = []) : made (past ++ [m]) = made past := by
  simp [made, hNone]

theorem made_snoc_of_one (hOne : m.subscribed = [listener]) :
    made (past ++ [m]) = made past ++ [((made past).length + 1, listener)] := by
  simp [made, hOne, List.mapIdx_append]

end Numbers

theorem foldl_unsubscribe (ids : List Nat) (b : Bus (Listener ν ε)) :
    ids.foldl Bus.unsubscribe b = { b with entries := b.entries.filter (·.1 ∉ ids) } := by
  induction ids generalizing b with
  | nil => simp
  | cons id ids ih =>
    rw [List.foldl_cons, ih]
    simp only [Bus.unsubscribe, List.filter_filter, List.mem_cons, not_or, Bool.decide_and, Bus.mk.injEq, true_and]
    apply List.filter_congr
    intro e _
    rw [Bool.and_comm]
    simp [bne, beq_eq_decide]

variable [DecidableEq ν]

/-- The number of the subscription that is held under a name, if there is one. -/
def holding (h : Hub ν ε) (name : ν) : List Nat := ((h.held.find? (·.1 = name)).map (·.2)).toList

/-- The subscriptions that are dropped: one that is dropped by its name, or whose name goes to another, and those in a
bag that is emptied. -/
def Moment.dropped (m : Moment ν ε) : List Nat :=
  match m.task with
  | .act (.subscribe name _) | .act (.drop name) => m.before.holding name
  | .act .emptyBag => m.before.bag
  | _ => []

def dropped (past : List (Moment ν ε)) : List Nat := past.flatMap Moment.dropped

/-- The subscriptions that have been made and not yet been dropped. -/
def standing (past : List (Moment ν ε)) : List (Nat × Listener ν ε) := (made past).filter (·.1 ∉ dropped past)

variable {h h' : Hub ν ε} {past before after : List (Moment ν ε)} {m : Moment ν ε} {name : ν} {n : Nat}
  {listener : Listener ν ε} {e : ε} {tasks next left : List (Task ν ε)} {task : Task ν ε}

theorem dropped_snoc : dropped (past ++ [m]) = dropped past ++ m.dropped := by
  simp [dropped]

theorem not_dropped_of_standing (hStands : (n, listener) ∈ standing past) : n ∉ dropped past := by
  simpa using (List.mem_filter.mp hStands).2

theorem le_of_standing (hStands : (n, listener) ∈ standing past) : n ≤ (made past).length :=
  le_of_made (List.mem_map_of_mem (f := (·.1)) (List.mem_filter.mp hStands).1)

/-! ## Releasing -/

theorem held_perm (name : ν) (held : List (ν × Nat)) (hNames : (held.map (·.1)).Nodup) :
    (((held.find? (·.1 = name)).map (·.2)).toList ++ (held.filter (·.1 ≠ name)).map (·.2)).Perm (held.map (·.2)) := by
  induction held with
  | nil => exact .refl _
  | cons first rest ih =>
    rw [List.map_cons, List.nodup_cons] at hNames
    by_cases hName : first.1 = name
    · have hOthers : rest.filter (·.1 ≠ name) = rest := by
        rw [List.filter_eq_self]
        intro e he
        have hOther : e.1 ≠ first.1 := fun hSame => hNames.1 (hSame ▸ List.mem_map_of_mem he)
        rw [decide_eq_true_eq, ← hName]
        exact hOther
      rw [List.find?_cons_of_pos (by simpa using hName), List.filter_cons_of_neg (by simpa using hName), hOthers]
      exact .refl _
    · rw [List.find?_cons_of_neg (by simpa using hName), List.filter_cons_of_pos (by simpa using hName)]
      exact List.perm_middle.trans ((ih hNames.2).cons _)

theorem release_eq (h : Hub ν ε) (name : ν) : h.release name =
    { h with
      bus := { h.bus with entries := h.bus.entries.filter (·.1 ∉ h.holding name) }
      held := h.held.filter (·.1 ≠ name) } := by
  unfold release holding
  split
  · next id hFind => simp [hFind, Bus.unsubscribe, bne, beq_eq_decide]
  · next hFind =>
    have hNone : h.held.filter (·.1 ≠ name) = h.held := by
      rw [List.filter_eq_self]
      intro e he
      simpa using List.find?_eq_none.mp hFind e he
    rw [hNone]
    simp [hFind]

/-! ## The register -/

/-- The books of a bus agree with what has happened on it. -/
structure Registered (past : List (Moment ν ε)) (h : Hub ν ε) : Prop where
  next : h.bus.next = (made past).length + 1
  entries : h.bus.entries = standing past
  names : (h.held.map (·.1)).Nodup
  /-- Each subscription has been dropped, or is held under a name, or is in the bag; and it is so once. -/
  owned : (dropped past ++ (h.held.map (·.2) ++ h.bag)).Perm ((made past).map (·.1))

theorem registered_nil : Registered [] ({} : Hub ν ε) := ⟨rfl, rfl, List.nodup_nil, .refl _⟩

theorem Registered.le_of_dropped (hRegistered : Registered past h) (hDropped : n ∈ dropped past) :
    n ≤ (made past).length :=
  le_of_made (hRegistered.owned.subset (List.mem_append_left _ hDropped))

/-- The subscriptions that stand are those that are held or in the bag. -/
theorem Registered.handles (hRegistered : Registered past h) :
    ((standing past).map (·.1)).Perm (h.held.map (·.2) ++ h.bag) := by
  have hLeft := perm_filter_of_append id hRegistered.owned (by simpa using nodup_made past)
  have hFilter : (standing past).map (·.1) = ((made past).map (·.1)).filter fun n => id n ∉ (dropped past).map id := by
    rw [standing, List.filter_map, List.map_id]
    rfl
  rw [hFilter]
  exact hLeft.symm

/-- What a moment adds to the books, and what it strikes from them. -/
theorem Registered.snoc (hRegistered : Registered past m.before) (hNew : m.subscribed.length ≤ 1)
    (hNext : m.after.bus.next = m.before.bus.next + m.subscribed.length)
    (hEntries : m.after.bus.entries =
      (m.before.bus.entries ++ m.subscribed.map (m.before.bus.next, ·)).filter (·.1 ∉ m.dropped))
    (hNames : (m.after.held.map (·.1)).Nodup)
    (hOwned : (m.dropped ++ (m.after.held.map (·.2) ++ m.after.bag)).Perm
      (m.before.held.map (·.2) ++ m.before.bag ++ m.subscribed.map fun _ => m.before.bus.next)) :
    Registered (past ++ [m]) m.after := by
  have hMade : made (past ++ [m]) = made past ++ m.subscribed.map (m.before.bus.next, ·) := by
    rw [hRegistered.next]
    match hSubscribed : m.subscribed, hNew with
    | [], _ => rw [made_snoc_of_nil hSubscribed, List.map_nil, List.append_nil]
    | [listener], _ => rw [made_snoc_of_one hSubscribed, List.map_singleton]
  constructor
  · rw [hNext, hRegistered.next, hMade, List.length_append, List.length_map]
    omega
  · -- A new subscription has a number that was not given before, so it has not been dropped before.
    have hFresh : (m.subscribed.map (m.before.bus.next, ·)).filter (·.1 ∉ dropped past) =
        m.subscribed.map (m.before.bus.next, ·) := by
      rw [List.filter_eq_self]
      intro e he
      obtain ⟨listener, -, rfl⟩ := List.mem_map.mp he
      rw [decide_eq_true_eq]
      intro hDropped
      have hLe := hRegistered.le_of_dropped hDropped
      rw [hRegistered.next] at hLe
      omega
    rw [hEntries, hRegistered.entries, standing, standing, hMade, dropped_snoc, ← hFresh, ← List.filter_append,
      List.filter_filter, hFresh]
    apply List.filter_congr
    intro e _
    simp [Bool.and_comm]
  · exact hNames
  · rw [dropped_snoc, hMade, List.map_append, List.append_assoc]
    apply (hOwned.append_left (dropped past)).trans
    rw [← List.append_assoc]
    apply (hRegistered.owned.append_right _).trans
    rw [List.map_map]
    exact .refl _

theorem Registered.still (hRegistered : Registered past h) (hSubscribed : (⟨task, h, h⟩ : Moment ν ε).subscribed = [])
    (hDropped : (⟨task, h, h⟩ : Moment ν ε).dropped = []) : Registered (past ++ [⟨task, h, h⟩]) h := by
  apply Registered.snoc (m := ⟨task, h, h⟩) hRegistered <;> simp [hSubscribed, hDropped, hRegistered.names]

theorem Registered.step (hRegistered : Registered past h) (hFollows : Follows h task next h') :
    Registered (past ++ [⟨task, h, h'⟩]) h' := by
  have hHolding : ∀ name, (h.holding name ++ (h.held.filter (·.1 ≠ name)).map (·.2)).Perm (h.held.map (·.2)) :=
    fun name => held_perm name h.held hRegistered.names
  have hNames : ∀ name, ((h.held.filter (·.1 ≠ name)).map (·.1)).Nodup :=
    fun name => hRegistered.names.sublist (List.filter_sublist.map _)
  cases hFollows with
  | call _ _ _ => exact hRegistered.still rfl rfl
  | act a =>
    cases a with
    | publish e => exact hRegistered.still rfl rfl
    | subscribe name reaction =>
      apply Registered.snoc (m := ⟨_, h, _⟩) hRegistered Nat.le.refl
      · simp only [Hub.step, add, release_eq, Bus.subscribe, Moment.subscribed, List.length_singleton]
      · simp only [Hub.step, add, release_eq, Bus.subscribe, Moment.subscribed, Moment.dropped, List.map_singleton]
        rfl
      · simp only [Hub.step, add, release_eq, Bus.subscribe, List.map_append, List.map_singleton]
        rw [← List.concat_eq_append]
        apply List.Nodup.concat _ (hNames name)
        simp
      · simp only [Hub.step, add, release_eq, Bus.subscribe, Moment.subscribed, Moment.dropped, List.map_append,
          List.map_singleton]
        rw [List.append_assoc, ← List.append_assoc, List.append_assoc (_ : List Nat) h.bag]
        exact (hHolding name).append List.perm_append_comm
    | drop name =>
      apply Registered.snoc (m := ⟨_, h, _⟩) hRegistered (Nat.zero_le _)
      · simp only [Hub.step, release_eq, Moment.subscribed, List.length_nil, Nat.add_zero]
      · simp only [Hub.step, release_eq, Moment.subscribed, Moment.dropped, List.map_nil, List.append_nil]
        rfl
      · simp only [Hub.step, release_eq]
        exact hNames name
      · simp only [Hub.step, release_eq, Moment.subscribed, Moment.dropped, List.map_nil, List.append_nil]
        rw [← List.append_assoc]
        exact (hHolding name).append_right _
    | keep name =>
      simp only [Hub.step]
      split
      · next id hFind =>
        have hOne : h.holding name = [id] := by rw [holding, hFind]; rfl
        apply Registered.snoc (m := ⟨_, h, _⟩) hRegistered (Nat.zero_le _) rfl
        · simp [Moment.subscribed, Moment.dropped]
        · exact hNames name
        · -- The subscription has moved from the names to the bag.
          have hMoved := (hHolding name).append_right h.bag
          rw [hOne, List.append_assoc] at hMoved
          simp only [Moment.subscribed, Moment.dropped, List.map_nil, List.append_nil, List.nil_append]
          rw [← List.append_assoc]
          exact List.perm_append_comm.trans hMoved
      · exact hRegistered.still rfl rfl
    | emptyBag =>
      apply Registered.snoc (m := ⟨_, h, _⟩) hRegistered (Nat.zero_le _)
      · simp only [Hub.step, foldl_unsubscribe, Moment.subscribed, List.length_nil, Nat.add_zero]
      · simp only [Hub.step, foldl_unsubscribe, Moment.subscribed, Moment.dropped, List.map_nil, List.append_nil]
        rfl
      · exact hRegistered.names
      · simp only [Hub.step, Moment.subscribed, Moment.dropped, List.map_nil, List.append_nil]
        exact List.perm_append_comm

/-! ## Calls -/

/-- A publication of the event began when the listener stood on the bus. -/
def Reached (past : List (Moment ν ε)) (listener : Listener ν ε) (e : ε) : Prop :=
  ∃ early p late n, past = early ++ p :: late ∧ p.task = .act (.publish e) ∧ (n, listener) ∈ standing early

theorem Reached.later (hReached : Reached past listener e) (after : List (Moment ν ε)) :
    Reached (past ++ after) listener e := by
  obtain ⟨early, p, late, n, rfl, hPublish, hStands⟩ := hReached
  exact ⟨early, p, late ++ after, n, by simp, hPublish, hStands⟩

theorem Registered.mem_listeners (hRegistered : Registered past h) (hMem : listener ∈ h.bus.listeners) :
    ∃ n, (n, listener) ∈ standing past := by
  obtain ⟨⟨n, _⟩, hStands, rfl⟩ := List.mem_map.mp hMem
  rw [hRegistered.entries] at hStands
  exact ⟨n, hStands⟩

theorem reached_of_follows (hRegistered : Registered past h) (hFollows : Follows h task next h')
    (hCall : .call listener e ∈ next) : Reached (past ++ [⟨task, h, h'⟩]) listener e := by
  cases hFollows with
  | call _ _ acts => simp at hCall
  | act a =>
    cases a with
    | publish e' =>
      obtain ⟨_, hMem, hSame⟩ := List.mem_map.mp hCall
      cases hSame
      obtain ⟨n, hStands⟩ := hRegistered.mem_listeners hMem
      exact ⟨past, _, [], n, rfl, rfl, hStands⟩
    | keep name =>
      simp only [Hub.step] at hCall
      split at hCall <;> cases hCall
    | _ => cases hCall

theorem Goes.registered (hGoes : Goes h tasks after h' left) (hRegistered : Registered past h)
    (hReached : ∀ listener e, .call listener e ∈ tasks → Reached past listener e) :
    Registered (past ++ after) h' ∧ ∀ listener e, .call listener e ∈ left → Reached (past ++ after) listener e := by
  induction hGoes generalizing past with
  | rests =>
    rw [List.append_nil]
    exact ⟨hRegistered, hReached⟩
  | @does h mid h' task next tasks left after hFollows _ ih =>
    rw [← List.singleton_append, ← List.append_assoc]
    apply ih (hRegistered.step hFollows)
    intro listener e hCall
    rcases List.mem_append.mp hCall with hNext | hBehind
    · exact reached_of_follows hRegistered hFollows hNext
    · exact (hReached listener e (List.mem_cons_of_mem _ hBehind)).later _

/-! ## What is delivered -/

/-- What can be told of a bus from what has happened on it, whatever its listeners have done. -/
structure Delivered (past : List (Moment ν ε)) (h : Hub ν ε) (left : List (Task ν ε)) : Prop where
  /-- A publication goes through the listeners that stood on the bus when it began, and things go on behind it only when
  all of them are done. -/
  publications : ∀ before p after e, past = before ++ p :: after → p.task = .act (.publish e) →
    ∃ behind, Progress e behind ((standing before).map (·.2)) p.before after h left
  /-- These had subscribed before, and had not been dropped before. -/
  reached : ∀ before p after e n listener, past = before ++ p :: after → p.task = .act (.publish e) →
    (n, listener) ∈ p.before.bus.entries → n ≤ (made before).length ∧ n ∉ dropped before
  calls : ∀ before c after listener e, past = before ++ c :: after → c.task = .call listener e →
    Reached before listener e
  listeners : h.bus.entries = standing past
  count : h.bus.count = (standing past).length
  /-- The subscriptions that have not been dropped are those that someone still has. -/
  handles : ((standing past).map (·.1)).Perm (h.held.map (·.2) ++ h.bag)
  /-- What is published now is delivered exactly to those who stand now, provided that each of them comes to an end. -/
  published : ∀ e inside h', Goes h [.act (.publish e)] (⟨.act (.publish e), h, h⟩ :: inside) h' [] ↔
    Delivers e h ((standing past).map (·.2)) inside h'
  goesOn : left ≠ [] → ∃ m h' left', Goes h left [m] h' left'

theorem Goes.of_fresh {acts : List (Act ν ε)} (hGoes : Goes {} (acts.map .act) past h left) :
    Registered past h ∧ ∀ listener e, .call listener e ∈ left → Reached past listener e :=
  hGoes.registered registered_nil (by simp)

theorem delivered {acts : List (Act ν ε)} (hGoes : Goes {} (acts.map .act) past h left) : Delivered past h left where
  publications before p after e hPast hPublish := by
    rw [hPast] at hGoes
    obtain ⟨behind, next, hBefore, hFollows, hAfter⟩ := hGoes.around
    have hEntries := hBefore.of_fresh.1.entries
    obtain ⟨task, start, afterwards⟩ := p
    cases hPublish
    cases hFollows
    refine ⟨behind, Goes.progress ?_⟩
    rw [← hEntries]
    exact hAfter
  reached before p after e n listener hPast hPublish hStands := by
    rw [hPast] at hGoes
    obtain ⟨behind, next, hBefore, -, -⟩ := hGoes.around
    rw [hBefore.of_fresh.1.entries] at hStands
    exact ⟨le_of_standing hStands, not_dropped_of_standing hStands⟩
  calls before c after listener e hPast hCall := by
    rw [hPast] at hGoes
    obtain ⟨behind, next, hBefore, -, -⟩ := hGoes.around
    apply hBefore.of_fresh.2 listener e
    rw [hCall]
    exact List.mem_cons_self
  listeners := hGoes.of_fresh.1.entries
  count := congrArg List.length hGoes.of_fresh.1.entries
  handles := hGoes.of_fresh.1.handles
  published e inside h' := by
    rw [goes_publish_iff, Bus.listeners, hGoes.of_fresh.1.entries]
  goesOn hLeft := by
    obtain ⟨task, behind, rfl⟩ := List.exists_cons_of_ne_nil hLeft
    exact ⟨_, _, _, .does (follows_step h task) .rests⟩

/-! A listener subscribes another one, drops the one after it by way of the bag, and publishes an event of its own. -/

section Nest

def nested : List (Act String Nat) :=
  [.subscribe "a" fun e => if e = 0 then [.subscribe "late" fun _ => [], .keep "b", .emptyBag, .publish 1] else [],
    .subscribe "b" fun _ => [.drop "a"], .publish 0, .publish 2]

theorem delivered_in_nest : ∃ past left, Goes {} (nested.map .act) past (Hub.run 100 (nested.map .act) {}).2 left ∧
    Delivered past (Hub.run 100 (nested.map .act) {}).2 left ∧
    past.filterMap Moment.called? = [("a", 0), ("a", 1), ("late", 1), ("b", 0), ("late", 2)] := by
  obtain ⟨past, left, hGoes, hCalls, -⟩ := goes_run 100 (nested.map .act) ({} : Hub String Nat)
  refine ⟨past, left, hGoes, delivered hGoes, ?_⟩
  rw [← hCalls]
  decide +kernel

end Nest

end JvmDebug.Hub
