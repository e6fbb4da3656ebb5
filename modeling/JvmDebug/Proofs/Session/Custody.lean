import JvmDebug.Proofs.Session.Standing

/-!
# Who has the debuggee

A debuggee that a session has had is with it still, or was disconnected, or has published that it has ended; or a request
has taken it and is about to disconnect it. This is so at every moment, in whatever order the session and its debuggee do
what they do.
-/

namespace JvmDebug.Session
set_option autoImplicit false

variable {told : (c : Call) → Answer c → Prop} {d : DebuggeeId} {k : Party} {past : List Occurrence} {s s' : Session}
  {φ : Party → Standing} {e : Occurrence}

/-! ## What has happened to a debuggee -/

def Installed (d : DebuggeeId) (past : List Occurrence) : Prop := ∃ e ∈ past, e.after.debuggee = some d

def Disconnected (d : DebuggeeId) (past : List Occurrence) : Prop :=
  ∃ e ∈ past, ∃ k task a, e.turn = .goesOn k task (some ⟨.drive d .disconnect, a⟩)

/-- The debuggee has published that it has ended. -/
def Published (d : DebuggeeId) (past : List Occurrence) : Prop :=
  ∃ e ∈ past, ∃ k code, e.turn = .takesUp k (.publish d (.exited code))

theorem Disconnected.later (h : Disconnected d past) : Disconnected d (past ++ [e]) := by
  obtain ⟨x, hx, hRest⟩ := h
  exact ⟨x, List.mem_append_left _ hx, hRest⟩

theorem Published.later (h : Published d past) : Published d (past ++ [e]) := by
  obtain ⟨x, hx, hRest⟩ := h
  exact ⟨x, List.mem_append_left _ hx, hRest⟩

/-! ## Custody -/

/-- All parties keep to their standings. -/
def custodians (told : (c : Call) → Answer c → Prop) (d : DebuggeeId) : Concert (company told) fun _ => Standing where
  phases := standings d
  home _ := settled
  post _ _ _ := settled

def isLane (k : Party) : Prop := k = lane ∨ k = launcher

structure Custody (d : DebuggeeId) (φ : Party → Standing) (past : List Occurrence) (s : Session) : Prop where
  only : Only d s
  arrivals : ∀ x ∈ s.arrivals, x.2.command = "configurationDone"
  lanes : ∀ k, ¬isLane k → φ k = .clear ∨ φ k = .ends
  ends : ∀ k, φ k = .ends → Published d past
  kept : Installed d past → s.debuggee = some d ∨ (∃ k, φ k = .owes) ∨ Disconnected d past ∨ Published d past

/-- Where a party stands when it takes something up. -/
def Standing.ofTask (d : DebuggeeId) : Task → Standing
  | .job (.request q) => .ofRequest q
  | .job _ => .clear
  | .publish d' e => .ofEvent d d' e

theorem onLane_passes {g : Standing} {name : String} {r : Activity Unit}
    (h : r.Passes (standings d k) (fun _ g' => settled g') g) :
    (Worker.onLane name r).Passes (standings d k) (fun _ g' => settled g') g :=
  fun s _ => ⟨g, .keeps (same_keep _ s) (asks_none _), h⟩

/-- What is taken up about a debuggee, and what that changes of the session. -/
structure TakesUp (d : DebuggeeId) (k : Party) (task : Task) (r : Activity Unit) (s s' : Session) : Prop where
  passes : r.Passes (standings d k) (fun _ g => settled g) (.ofTask d task)
  debuggee : s'.debuggee = s.debuggee
  listeners : ∀ x ∈ s'.bus.entries, x ∈ s.bus.entries
  arrivals : ∀ x ∈ s'.arrivals, x ∈ s.arrivals
  standing : isLane k ∨ Standing.ofTask d task = .clear ∨ Standing.ofTask d task = .ends
  ends : Standing.ofTask d task = .ends → ∃ code, task = .publish d (.exited code)

theorem takesUp_of_engages {task : Task} {r : Activity Unit} (hArrivals : ∀ x ∈ s.arrivals, x.2.command = "configurationDone")
    (hTakes : Engages k task s r s') : TakesUp d k task r s s' := by
  have hRequest : ∀ q, Standing.ofRequest q ≠ .ends := by
    intro q
    unfold Standing.ofRequest
    split <;> simp
  cases hTakes with
  | @publish n d' e =>
    refine ⟨hear_passes d' e, rfl, fun _ h => h, fun _ h => h, .inr ?_, ?_⟩
    · simp only [Standing.ofTask, Standing.ofEvent]
      split <;> simp
    · intro hEnds
      simp only [Standing.ofTask, Standing.ofEvent] at hEnds
      split at hEnds
      · next h =>
        obtain ⟨rfl, hEnd⟩ := h
        cases e with
        | exited code => exact ⟨code, rfl⟩
        | _ => cases hEnd
      · cases hEnds
  | @job w j _ _ _ hJob hTake =>
    cases w with
    | defaultLane =>
      simp only [Worker.take] at hTake
      simp only [Worker.job?] at hJob
      split at hTake
      · cases hTake
      · next q rest hLane =>
        cases hTake
        rw [hLane] at hJob
        cases hJob
        exact ⟨onLane_passes (serve_passes (.inl rfl) q), rfl, fun _ h => h, fun _ h => h, .inl (.inl rfl),
          fun h => absurd h (hRequest q)⟩
    | launcherLane =>
      simp only [Worker.take] at hTake
      simp only [Worker.job?] at hJob
      split at hTake
      · cases hTake
      · next first rest hLane =>
        cases hTake
        rw [hLane] at hJob
        cases first with
        | request q =>
          cases hJob
          exact ⟨onLane_passes (serve_passes (.inr rfl) q), rfl, fun _ h => h, fun _ h => h, .inl (.inr rfl),
            fun h => absurd h (hRequest q)⟩
        | run d' announceThreads =>
          cases hJob
          exact ⟨onLane_passes (runDebuggee_passes (.inr rfl) d' announceThreads), rfl, fun _ h => h, fun _ h => h,
            .inl (.inr rfl), nofun⟩
    | forwarder n =>
      cases hJob
      obtain ⟨hTidy, hSame⟩ := takeOutput_tidy hTake
      exact ⟨settled_of_tidy settled_clear hTidy, hSame.debuggee, hSame.listeners, fun _ h => hSame.arrivals ▸ h, .inr (.inl rfl), nofun⟩
    | arrival n =>
      simp only [Worker.take] at hTake
      simp only [Worker.job?] at hJob
      split at hTake
      · next m q hFound =>
        cases hTake
        rw [hFound] at hJob
        cases hJob
        have hCommand : q.command = "configurationDone" := hArrivals _ (List.mem_of_find?_eq_some hFound)
        have hClear : Standing.ofTask d (.job (.request q)) = .clear := by
          simp [Standing.ofTask, Standing.ofRequest, isStart, hCommand]
        refine ⟨?_, rfl, fun _ h => h, fun x hx => (List.mem_filter.mp hx).1, .inr (.inl hClear), fun h => absurd h (hRequest q)⟩
        rw [hClear]
        exact serveArrival_passes hCommand
      · cases hTake

/-! ## One step -/

theorem Only.of_same (h : Only d s) (hSame : SameDebuggee s s') : Only d s' :=
  ⟨hSame.debuggee ▸ h.debuggee, fun x hx => h.listeners x (hSame.listeners x hx)⟩

theorem Only.of_none (h : Only d s) (hAdds : AddsNone s s') (hNone : s'.debuggee = none) : Only d s' :=
  ⟨by simp [hNone], fun x hx => h.listeners x (hAdds.listeners x hx)⟩

theorem Moves.only {g g' : Standing} {asked : Option (Asked World)} (h : Moves d k g asked s s' g') (hOnly : Only d s) :
    Only d s' := by
  cases h with
  | keeps hSame _ => exact hOnly.of_same hSame
  | sees _ hSame _ => exact hOnly.of_same hSame
  | drives hSame => exact hOnly.of_same hSame
  | takes _ hAdds _ hNone => exact hOnly.of_none hAdds hNone
  | disconnects => exact hOnly
  | installs hOnly' _ _ => exact hOnly'
  | loses hAdds hNone => exact hOnly.of_none hAdds hNone

theorem Moves.arrivals {g g' : Standing} {asked : Option (Asked World)} (h : Moves d k g asked s s' g') :
    s'.arrivals = s.arrivals := by
  cases h with
  | keeps hSame _ => exact hSame.arrivals
  | sees _ hSame _ => exact hSame.arrivals
  | drives hSame => exact hSame.arrivals
  | takes _ hAdds _ _ => exact hAdds.arrivals
  | disconnects => rfl
  | installs _ hArrivals _ => exact hArrivals
  | loses hAdds _ => exact hAdds.arrivals

theorem Moves.beside {g g' : Standing} {asked : Option (Asked World)} (h : Moves d k g asked s s' g') (hNot : ¬isLane k)
    (hHere : g = .clear ∨ g = .ends) : g' = g := by
  cases h with
  | keeps _ _ => rfl
  | sees hLanes _ _ => exact absurd hLanes hNot
  | drives _ => rfl
  | takes hLanes _ _ _ => exact absurd hLanes hNot
  | disconnects => simp at hHere
  | installs _ _ _ => rfl
  | loses _ _ => rfl

/-- Nobody comes to tell that the debuggee has ended who did not begin with that. -/
theorem Moves.ends {g : Standing} {asked : Option (Asked World)} (h : Moves d k g asked s s' .ends) : g = .ends := by
  cases h <;> rfl

/-- What becomes of the debuggee of a session in one step: it stays, or is taken out of it by someone who then owes it
to be disconnected, or by its end. -/
theorem Moves.kept {g g' : Standing} {asked : Option (Asked World)} (h : Moves d k g asked s s' g')
    (hHad : s.debuggee = some d) : s'.debuggee = some d ∨ g' = .owes ∨ g = .ends := by
  cases h with
  | keeps hSame _ => exact .inl (hSame.debuggee.trans hHad)
  | sees _ hSame _ => exact .inl (hSame.debuggee.trans hHad)
  | drives hSame => exact .inl (hSame.debuggee.trans hHad)
  | takes _ _ _ _ => exact .inr (.inl rfl)
  | disconnects => exact .inl hHad
  | installs _ _ hDebuggee =>
    rcases hDebuggee with hSame | hInstalled
    · exact .inl (hSame.trans hHad)
    · exact .inl hInstalled
  | loses _ _ => exact .inr (.inr rfl)

theorem Moves.owes {g' : Standing} {asked : Option (Asked World)} (h : Moves d k .owes asked s s' g') :
    g' = .owes ∨ ∃ a, asked = some ⟨.drive d .disconnect, a⟩ := by
  cases h with
  | keeps _ _ => exact .inl rfl
  | disconnects => exact .inr ⟨_, rfl⟩

theorem Outside.custody (h : Outside s s') : s'.debuggee = s.debuggee ∧ s'.bus = s.bus ∧
    ((∀ x ∈ s.arrivals, x.2.command = "configurationDone") → ∀ x ∈ s'.arrivals, x.2.command = "configurationDone") := by
  cases h with
  | dispatch q =>
    unfold Session.dispatch
    split
    · exact ⟨rfl, rfl, id⟩
    · exact ⟨rfl, rfl, id⟩
    · next hCommand =>
      refine ⟨rfl, rfl, fun h x hx => ?_⟩
      rcases List.mem_append.mp hx with hx | hx
      · exact h x hx
      · rw [List.mem_singleton.mp hx]
        exact hCommand
    · exact ⟨rfl, rfl, id⟩
  | _ => exact ⟨rfl, rfl, id⟩

/-! ## Along a run -/

theorem Installed.of_snoc (h : Installed d (past ++ [e])) (hNow : e.after.debuggee ≠ some d) : Installed d past := by
  obtain ⟨x, hx, hInstalled⟩ := h
  rcases List.mem_append.mp hx with hx | hx
  · exact ⟨x, hx, hInstalled⟩
  · rw [List.mem_singleton.mp hx] at hInstalled
    exact absurd hInstalled hNow

/-- A moment that leaves the debuggee where it is. -/
theorem Custody.still {φ' : Party → Standing} (h : Custody d φ past s) (hOnly : Only d s')
    (hArrivals : ∀ x ∈ s'.arrivals, x.2.command = "configurationDone")
    (hLanes : ∀ k, ¬isLane k → φ' k = .clear ∨ φ' k = .ends) (hEnds : ∀ k, φ' k = .ends → Published d (past ++ [e]))
    (hOwes : ∀ k, φ k = .owes → φ' k = .owes) (hDebuggee : s'.debuggee = s.debuggee) (hAfter : e.after = s') :
    Custody d φ' (past ++ [e]) s' where
  only := hOnly
  arrivals := hArrivals
  lanes := hLanes
  ends := hEnds
  kept hInstalled := by
    by_cases hNow : e.after.debuggee = some d
    · exact .inl (hAfter ▸ hNow)
    · rcases h.kept (hInstalled.of_snoc hNow) with hHere | ⟨k, hk⟩ | hGone | hEnded
      · exact .inl (hDebuggee.trans hHere)
      · exact .inr (.inl ⟨k, hOwes k hk⟩)
      · exact .inr (.inr (.inl hGone.later))
      · exact .inr (.inr (.inr hEnded.later))

theorem custody_keeps (hTold : ∀ c a, told c a → Starts d c a) :
    (custodians told d).Keeps (fun _ _ => True) (Custody d) where
  keep _ := rfl
  answered _ _ c a _ h := hTold c a h
  fits _ h := h.only
  takes {φ past s k task r s'} h hHome hTakes _ := by
    have hTakesUp := takesUp_of_engages (d := d) h.arrivals hTakes
    refine ⟨_, hTakesUp.passes, ?_⟩
    refine h.still ?_ (fun x hx => h.arrivals x (hTakesUp.arrivals x hx)) ?_ ?_ ?_ hTakesUp.debuggee rfl
    · exact ⟨hTakesUp.debuggee ▸ h.only.debuggee, fun x hx => h.only.listeners x (hTakesUp.listeners x hx)⟩
    · refine (Function.forall_update_iff φ fun j g => ¬isLane j → g = .clear ∨ g = .ends).mpr ⟨?_, fun j _ => h.lanes j⟩
      exact hTakesUp.standing.resolve_left
    · refine (Function.forall_update_iff φ fun _ g => g = .ends → Published d _).mpr ⟨fun hEnds => ?_, fun j _ hj => ?_⟩
      · obtain ⟨code, rfl⟩ := hTakesUp.ends hEnds
        exact ⟨_, List.mem_append_right _ (List.mem_singleton.mpr rfl), k, code, rfl⟩
      · exact (h.ends j hj).later
    · refine (Function.forall_update_iff φ fun j g => φ j = .owes → g = .owes).mpr ⟨fun hOwes => ?_, fun _ _ => id⟩
      exact absurd hOwes hHome
  goes {φ past s k task asked s' g} h hMoves _ := by
    constructor
    case only => exact hMoves.only h.only
    case arrivals => exact hMoves.arrivals ▸ h.arrivals
    case lanes =>
      refine (Function.forall_update_iff φ fun j g => ¬isLane j → g = .clear ∨ g = .ends).mpr ⟨?_, fun j _ => h.lanes j⟩
      intro hNot
      rw [hMoves.beside hNot (h.lanes k hNot)]
      exact h.lanes k hNot
    case ends =>
      refine (Function.forall_update_iff φ fun _ g => g = .ends → Published d _).mpr ⟨?_, fun j _ hj => (h.ends j hj).later⟩
      rintro rfl
      exact (h.ends k hMoves.ends).later
    case kept =>
      intro hInstalled
      by_cases hNow : s'.debuggee = some d
      · exact .inl hNow
      -- Whoever takes the debuggee out of the session owes it until it is disconnected.
      rcases h.kept (hInstalled.of_snoc hNow) with hHere | ⟨j, hj⟩ | hGone | hEnded
      · rcases hMoves.kept hHere with hStays | hOwes | hEnds
        · exact .inl hStays
        · exact .inr (.inl ⟨k, by rw [Function.update_self, hOwes]⟩)
        · exact .inr (.inr (.inr (h.ends k hEnds).later))
      · by_cases hjk : j = k
        · subst hjk
          rcases Moves.owes (hj ▸ hMoves) with hOwes | ⟨a, rfl⟩
          · exact .inr (.inl ⟨j, by rw [Function.update_self, hOwes]⟩)
          · exact .inr (.inr (.inl ⟨_, List.mem_append_right _ (List.mem_singleton.mpr rfl), j, task, a, rfl⟩))
        · exact .inr (.inl ⟨j, by rw [Function.update_of_ne hjk, hj]⟩)
      · exact .inr (.inr (.inl hGone.later))
      · exact .inr (.inr (.inr hEnded.later))
  done {φ past s k task a} h hPost := by
    refine ⟨hPost, h.still h.only h.arrivals h.lanes (fun k hk => (h.ends k hk).later) (fun _ => id) rfl rfl⟩
  outside {φ past s m s' m'} h hOutside := by
    obtain ⟨hDebuggee, hBus, hArrivals⟩ := Outside.custody hOutside
    exact h.still ⟨hDebuggee ▸ h.only.debuggee, hBus ▸ h.only.listeners⟩ (hArrivals h.arrivals) h.lanes
      (fun k hk => (h.ends k hk).later) (fun _ => id) hDebuggee rfl

/-- A session whose debuggees are all one, after anything that may have happened. -/
theorem custody_of_leads {journal : Option Log.Journal} {now : Stage} (hTold : ∀ c a, told c a → Starts d c a)
    (hLeads : (company told).Leads (opening journal) past now) :
    ∃ φ, (∀ k, (custodians told d).Plays φ now k) ∧ Custody d φ past now.state := by
  refine Setting.Leads.plays (c := custodians told d) (φ := fun _ => .clear) hLeads (custody_keeps hTold) (fun _ => rfl)
    (fun _ => settled_clear) ?_
  exact ⟨⟨by simp [opening, Scene.idle], by simp [opening, Scene.idle]⟩, by simp [opening, Scene.idle],
    fun _ _ => .inl rfl, nofun, by simp [Installed]⟩

end JvmDebug.Session
