import JvmDebug.Proofs.Routine.Roles
import JvmDebug.Proofs.Session.Accounting
import JvmDebug.Proofs.Session.Disconnecting
import JvmDebug.Proofs.Session.Leave
import JvmDebug.Proofs.Session.Resuming
import JvmDebug.Proofs.Session.Streams

/-!
# What becomes of the output of debuggees

Whatever debuggees write to their streams, and however the workers of the session come in between each other, the client
is told the lines of a stream in order, each once, up to the first that is no text. That one stops its forwarder, so
that nothing of the stream is told after it.
-/

namespace JvmDebug

/-! ## Messages -/

namespace Dap.Outgoing
set_option autoImplicit false

def category? : Outgoing → Option String
  | response _ => none
  | event e => if e.event = "output" then e.body.bind (Json.textAt? "category") else none

@[simp] theorem category?_output (category text : String) : (output category text).category? = some category := by
  have hEvent : ∀ fields, Event.of "output" (Json.object fields) = ⟨"output", some (Json.object fields)⟩ := fun _ => rfl
  simp [output, category?, hEvent, Json.textAt?, Json.get?_object]

theorem category?_of_other {name : String} (h : name ≠ "output") (body : Json) :
    (Outgoing.event (.of name body)).category? = none := by
  cases body <;> simp [category?, Event.of, h]

end Dap.Outgoing

namespace Session
set_option autoImplicit false

/-- Whether the client is told output that is no line of the log. -/
def tellsOutput (m : Dap.Outgoing) : Bool := m.category?.any (· ≠ "console")

theorem not_tellsOutput_of_none {m : Dap.Outgoing} (h : m.category? = none) : tellsOutput m = false := by
  rw [tellsOutput, h]
  rfl

theorem not_tellsOutput_of_console {m : Dap.Outgoing} (h : isConsole m) : tellsOutput m = false := by
  obtain ⟨text, rfl⟩ := h
  simp [tellsOutput]

theorem not_tellsOutput_of_reply {m : Dap.Outgoing} (h : IsReply m) : tellsOutput m = false := by
  apply not_tellsOutput_of_none
  rcases h with ⟨r, rfl⟩ | rfl | ⟨t, rfl⟩
  · rfl
  · exact Dap.Outgoing.category?_of_other (by decide) _
  · exact Dap.Outgoing.category?_of_other (by decide) _

def Job.isForward : Job → Prop
  | .forward _ => True
  | _ => False

/-- No other job tells output of a debuggee. -/
theorem not_tellsOutput_of_leave {job : Job} (hJob : ¬job.isForward) {m : Dap.Outgoing} (h : job.leave.tells m) :
    tellsOutput m = false := by
  apply not_tellsOutput_of_none
  cases job with
  | request q => exact h.elim
  | run d announceThreads =>
    obtain ⟨t, rfl⟩ := h
    exact Dap.Outgoing.category?_of_other (by decide) _
  | forward n => exact absurd trivial hJob
  | event e =>
    cases e with
    | threadChanged t c =>
      cases c <;> obtain rfl : m = _ := h <;> exact Dap.Outgoing.category?_of_other (by decide) _
    | breakpointResolved id line =>
      obtain ⟨n, b, -, rfl⟩ := h
      exact Dap.Outgoing.category?_of_other (by decide) _
    | exited code => rcases h with rfl | rfl <;> exact Dap.Outgoing.category?_of_other (by decide) _
    | _ =>
      obtain rfl : m = _ := h
      exact Dap.Outgoing.category?_of_other (by decide) _

/-- A session in the company of its debuggees, with what they have written to their streams. -/
def pouring (told : (c : Call) → Answer c → Prop) : Setting Party Task Session World Ledger fun _ => Unit where
  takes := Engages
  answers m c a m' := told c a ∧ m' = m
  keep := keep
  outside := Pours

abbrev forwarder (n : Nat) : Party := .worker (.forwarder n)

/-! ## Jobs -/

/-- A change by which no output is told, and nothing of a stream is taken. -/
structure Mute (s s' : Session) : Prop where
  sends : ∃ new, s'.outbox = s.outbox ++ new ∧ ∀ m ∈ new, tellsOutput m = false
  unread : s'.unread = s.unread
  nextStream : s'.nextStream = s.nextStream

def hushed : Bounds Session World := ⟨Mute, fun _ => True, keep⟩

variable {s s' : Session} {told : (c : Call) → Answer c → Prop} {task : Task} {r : Activity Unit} {p : Pipe} {n : Nat}
  {m : Ledger}

theorem mute_of_eq (hOutbox : s'.outbox = s.outbox) (hStreams : s'.streams = s.streams)
    (hNext : s'.nextStream = s.nextStream) : Mute s s' :=
  ⟨⟨[], by simpa using hOutbox, by simp⟩, by rw [unread, hStreams, unread], hNext⟩

theorem mute_post {m : Dap.Outgoing} (h : tellsOutput m = false) (s : Session) : Mute s (post m s) :=
  ⟨⟨[m], rfl, by simpa using h⟩, rfl, rfl⟩

theorem mute_keep (x : Log.Record) (s : Session) : Mute s (keep x s) := by
  unfold keep
  split
  · exact mute_of_eq rfl rfl rfl
  · split
    · split
      · have hConsole : tellsOutput (.output "console" x.line) = false := not_tellsOutput_of_console ⟨_, rfl⟩
        exact ⟨⟨[_], rfl, by simpa using hConsole⟩, rfl, rfl⟩
      · exact mute_of_eq rfl rfl rfl
    · exact mute_of_eq rfl rfl rfl

theorem allows_hushed {job : Job} (hJob : ¬job.isForward) : Allows job hushed where
  stays _ := mute_of_eq rfl rfl rfl
  notes := mute_keep
  journal _ _ := mute_of_eq rfl rfl rfl
  calls _ _ := trivial
  tells _ s h := mute_post (not_tellsOutput_of_leave hJob h) s
  phase _ _ _ := mute_of_eq rfl rfl rfl
  forwards _ d s := ⟨⟨[], by simp [forwardStreams], by simp⟩, unread_forwardStreams d s, rfl⟩
  views _ _ _ := mute_of_eq rfl rfl rfl
  numbers _ _ _ := mute_of_eq rfl rfl rfl
  exceptions _ _ _ := mute_of_eq rfl rfl rfl
  sets _ _ _ _ := mute_of_eq rfl rfl rfl
  filters _ _ := mute_of_eq rfl rfl rfl
  subscribes _ _ := mute_of_eq rfl rfl rfl
  replaces _ _ := mute_of_eq rfl rfl rfl
  installs _ _ _ := mute_of_eq rfl rfl rfl
  enlists _ _ _ _ := mute_of_eq rfl rfl rfl
  loses _ _ := mute_of_eq rfl rfl rfl
  clears _ _ := mute_of_eq rfl rfl rfl

theorem serve_hushed (q : Dap.Request) : (serve q).Within hushed fun _ => True := by
  have hAllows : Allows (.request q) hushed := allows_hushed id
  exact hAllows.serve (fun _ s h => mute_post (not_tellsOutput_of_reply h) s) fun _ => mute_of_eq rfl rfl rfl

theorem onLane_hushed {name : String} (h : r.Within hushed fun _ => True) :
    (Worker.onLane name r).Within hushed fun _ => True :=
  Routine.within_then ⟨mute_keep _, trivial⟩ fun _ => h

/-- A worker owes the client the output that it has taken and not told yet. -/
def speakers (told : (c : Call) → Answer c → Prop) : Roles (pouring told) (List Dap.Outgoing) where
  phases _ _ :=
    { fits := fun _ _ => True
      moves := fun owed _ s s' owed' =>
        (∃ new, s'.outbox = s.outbox ++ new ∧ owed = new.filter tellsOutput ++ owed') ∧ s'.unread = s.unread ∧
          s'.nextStream = s.nextStream
      answered := fun _ _ => True
      keep := keep }
  post _ _ _ owed := owed = []

theorem passes_of_hushed (h : r.Within hushed fun _ => True) (k : Party) :
    r.Passes ((speakers told).phases k task) (fun _ owed => owed = []) [] := by
  refine h.passes_in rfl (fun _ _ => trivial) ?_ ?_ rfl
  · rintro owed s s' rfl - hMute
    obtain ⟨new, hNew, hSilent⟩ := hMute.sends
    have hNothing : new.filter tellsOutput = [] := by simpa using hSilent
    exact ⟨[], ⟨⟨new, hNew, by rw [hNothing, List.nil_append]⟩, hMute.unread, hMute.nextStream⟩, rfl⟩
  · rintro owed s c a rfl - - -
    exact ⟨[], ⟨⟨[], (List.append_nil _).symm, rfl⟩, rfl, rfl⟩, rfl⟩

theorem passes_of_line {category text : String} (hCategory : category ≠ "console") (k : Party) :
    (forwardLine category text).Passes ((speakers told).phases k task) (fun _ owed => owed = [])
      [notification category text] := by
  intro s _
  refine ⟨[], ⟨⟨[notification category text], rfl, ?_⟩, rfl, rfl⟩, rfl⟩
  simp [notification, tellsOutput, hCategory]

/-- What a forwarder takes of a stream: a line that it tells, or the end of its work. -/
inductive Reads (n : Nat) (s : Session) : Activity Unit → Session → Prop where
  | line {p : Pipe} {line rest : Bytes} {text : String} : (n, p) ∈ s.unread → Line.Cut p.ended p.bytes line rest →
      Line.text? line = some text → Reads n s (forwardLine p.category text) (s.setIncoming n rest)
  | atEnd {p : Pipe} {r : Activity Unit} : (n, p) ∈ s.unread →
      (p.bytes = [] ∧ p.ended = true) ∨ (∃ line rest, Line.Cut p.ended p.bytes line rest ∧ Line.text? line = none) →
      r.Within hushed (fun _ => True) → Reads n s r (s.dropStream n)

theorem reads_of_takeOutput (h : takeOutput n s = some (r, s')) : Reads n s r s' := by
  have hClosed : ∀ category, (closed category : Activity Unit).Within hushed fun _ => True :=
    fun _ => ⟨mute_keep _, trivial⟩
  unfold takeOutput at h
  split at h
  · cases h
  · next k o hFound =>
    obtain rfl : k = n := by simpa using List.find?_some hFound
    have hUnread : (k, (⟨o.debuggee, o.category, o.incoming, o.ended⟩ : Pipe)) ∈ s.unread :=
      List.mem_map_of_mem (List.mem_of_find?_eq_some hFound)
    have hRead := Line.read_next o.ended o.incoming
    split at h
    · cases h
    · split at h
      · cases h
      · next text rest hNext =>
        rw [hNext] at hRead
        obtain ⟨line, hCut, hText⟩ := hRead
        cases h
        exact .line hUnread hCut hText
      · next hNext =>
        rw [hNext] at hRead
        cases h
        exact .atEnd hUnread (.inl hRead) (hClosed _)
      · next why hNext =>
        rw [hNext] at hRead
        cases h
        exact .atEnd hUnread (.inr hRead) (Routine.within_then ⟨mute_keep _, trivial⟩ fun _ => hClosed _)

/-! ## The past -/

def sentAt (e : Occurrence) : List Dap.Outgoing := added e.before.outbox e.after.outbox

def forwarded (n : Nat) (past : List Occurrence) : List Dap.Outgoing :=
  past.flatMap fun e => if e.turn.worker? = some (forwarder n) then (sentAt e).filter tellsOutput else []

def takesUp (k : Party) (e : Occurrence) : Bool :=
  match e.turn with
  | .takesUp j _ => j = k
  | _ => false

def jobsOf (n : Nat) (past : List Occurrence) : Nat := past.countP (takesUp (forwarder n))

/-- What each worker has taken and not told yet. -/
abbrev Untold := Casting Party Task (List Dap.Outgoing)

variable {φ : Untold} {past : List Occurrence} {e : Occurrence} {k : Party} {owed : List Dap.Outgoing}

def untold (φ : Untold) (n : Nat) : List Dap.Outgoing := ((φ (forwarder n)).map (·.2)).getD []

/-- All that a forwarder has taken for the client, told or not. -/
def output (φ : Untold) (past : List Occurrence) (n : Nat) : List Dap.Outgoing := forwarded n past ++ untold φ n

theorem untold_update (φ : Untold) (k : Party) (y : Option (Task × List Dap.Outgoing)) (n : Nat) :
    untold (Function.update φ k y) n = if k = forwarder n then (y.map (·.2)).getD [] else untold φ n := by
  by_cases h : k = forwarder n
  · rw [if_pos h, untold, h, Function.update_self]
  · rw [if_neg h, untold, Function.update_of_ne (Ne.symm h), untold]

theorem forwarded_snoc (n : Nat) (past : List Occurrence) (e : Occurrence) :
    forwarded n (past ++ [e]) =
      forwarded n past ++ if e.turn.worker? = some (forwarder n) then (sentAt e).filter tellsOutput else [] := by
  simp [forwarded]

/-- Telling what is owed makes no difference to what was taken. -/
theorem output_told {owed' : List Dap.Outgoing} (hPhase : φ k = some (task, owed)) (hTurn : e.turn.worker? = some k)
    (hOwed : owed = (sentAt e).filter tellsOutput ++ owed') :
    output (Function.update φ k (some (task, owed'))) (past ++ [e]) = output φ past := by
  funext n
  rw [output, forwarded_snoc, untold_update, hTurn, output]
  by_cases h : k = forwarder n
  · subst h
    simp [untold, hPhase, hOwed]
  · simp [h]

theorem output_silent (hSilent : sentAt e = []) (y : Option (Task × List Dap.Outgoing)) (n : Nat) :
    output (Function.update φ k y) (past ++ [e]) n =
      if k = forwarder n then forwarded n past ++ (y.map (·.2)).getD [] else output φ past n := by
  rw [output, forwarded_snoc, untold_update, hSilent, output]
  by_cases h : k = forwarder n <;> simp [h]

theorem sentAt_of_same (h : e.after.outbox = e.before.outbox) : sentAt e = [] := by
  rw [sentAt, h, added_self]

theorem jobsOf_snoc (n : Nat) (past : List Occurrence) (e : Occurrence) :
    jobsOf n (past ++ [e]) = jobsOf n past + if takesUp (forwarder n) e then 1 else 0 := by
  simp [jobsOf, List.countP_singleton]

/-- Output of a category is told by the forwarder of a stream of that category. -/
def Teller (m : Ledger) (k : Party) (x : Dap.Outgoing) : Prop :=
  ∃ n p, k = forwarder n ∧ (n, p) ∈ m ∧ x.category? = some p.category

structure Spoken (φ : Untold) (past : List Occurrence) (s : Session) (m : Ledger) : Prop where
  outbox : s.outbox = past.flatMap sentAt
  owes : ∀ k task owed, φ k = some (task, owed) → ∀ x ∈ owed, Teller m k x
  told : ∀ e ∈ past, ∀ x ∈ sentAt e, tellsOutput x = true → ∃ k, e.turn.worker? = some k ∧ Teller m k x

theorem Spoken.snoc {φ' : Untold} {m' : Ledger} (h : Spoken φ past s m) (hOutbox : s'.outbox = s.outbox ++ sentAt e)
    (hLedger : ∀ k x, Teller m k x → Teller m' k x)
    (hOwes : ∀ k task owed, φ' k = some (task, owed) → ∀ x ∈ owed, Teller m' k x)
    (hTold : ∀ x ∈ sentAt e, tellsOutput x = true → ∃ k, e.turn.worker? = some k ∧ Teller m' k x) :
    Spoken φ' (past ++ [e]) s' m' where
  outbox := by rw [hOutbox, h.outbox, List.flatMap_append, List.flatMap_singleton]
  owes := hOwes
  told := by
    rw [List.forall_mem_append]
    constructor
    · intro e he x hx hTells
      obtain ⟨k, hk, hTeller⟩ := h.told e he x hx hTells
      exact ⟨k, hk, hLedger k x hTeller⟩
    · simpa using hTold

theorem Spoken.owes_update (h : Spoken φ past s m) {y : Option (Task × List Dap.Outgoing)}
    (hHere : ∀ task owed, y = some (task, owed) → ∀ x ∈ owed, Teller m k x) (j : Party) (task : Task)
    (owed : List Dap.Outgoing) (hj : Function.update φ k y j = some (task, owed)) : ∀ x ∈ owed, Teller m j x := by
  by_cases hSame : j = k
  · subst hSame
    rw [Function.update_self] at hj
    exact hHere task owed hj
  · rw [Function.update_of_ne hSame] at hj
    exact h.owes j task owed hj

def Holds (φ : Untold) (past : List Occurrence) (s : Session) (m : Ledger) : Prop :=
  Spoken φ past s m ∧ Accounted s.unread s.nextStream m (output φ past) (jobsOf · past)

/-- A worker is at something at which nothing is told yet. -/
theorem Holds.silent {y : Option (Task × List Dap.Outgoing)} (h : Holds φ past s m) (hOutbox : s'.outbox = s.outbox)
    (hSilent : sentAt e = []) (hHere : ∀ task owed, y = some (task, owed) → ∀ x ∈ owed, Teller m k x)
    (hAccount : Accounted s'.unread s'.nextStream m (output (Function.update φ k y) (past ++ [e])) (jobsOf · (past ++ [e]))) :
    Holds (Function.update φ k y) (past ++ [e]) s' m := by
  refine ⟨h.1.snoc ?_ (fun _ _ => id) (h.1.owes_update hHere) ?_, hAccount⟩
  · rw [hSilent, hOutbox, List.append_nil]
  · simp [hSilent]

/-- The same if the worker owes as much as before. -/
theorem output_same (hSilent : sentAt e = []) {y : Option (Task × List Dap.Outgoing)}
    (hSame : (y.map (·.2)).getD [] = ((φ k).map (·.2)).getD []) :
    output (Function.update φ k y) (past ++ [e]) = output φ past := by
  funext n
  rw [output_silent hSilent, hSame]
  split
  · next h => rw [h, output, untold]
  · rfl

theorem jobsOf_same (h : ∀ n task, e.turn ≠ .takesUp (forwarder n) task) : (jobsOf · (past ++ [e])) = (jobsOf · past) := by
  funext n
  have hNot : takesUp (forwarder n) e = false := by
    unfold takesUp
    split
    · next j task hTurn =>
      apply decide_eq_false
      rintro rfl
      exact h n task hTurn
    · rfl
  rw [jobsOf_snoc, hNot]
  rfl

theorem jobsOf_takesUp (h : e.turn = .takesUp (forwarder n) task) :
    (jobsOf · (past ++ [e])) = Function.update (jobsOf · past) n (jobsOf n past + 1) := by
  funext j
  rw [jobsOf_snoc, takesUp, h]
  by_cases hj : j = n
  · subst hj
    simp
  · have hOther : forwarder n ≠ forwarder j := by simpa [eq_comm] using hj
    simp [hj, hOther]

/-- A worker that is no forwarder takes something up. -/
theorem Holds.takes_other (h : Holds φ past s m) (hFree : φ k = none) (hOther : ∀ n, k ≠ forwarder n)
    (hOutbox : s'.outbox = s.outbox) (hStreams : s'.streams = s.streams) (hNext : s'.nextStream = s.nextStream) :
    Holds (Function.update φ k (some (task, []))) (past ++ [⟨.takesUp k task, s, s'⟩]) s' m := by
  have hSilent : sentAt ⟨.takesUp k task, s, s'⟩ = [] := sentAt_of_same hOutbox
  apply h.silent hOutbox hSilent
  · rintro _ _ ⟨⟩
    simp
  · rw [output_same hSilent (by simp [hFree]), jobsOf_same, unread, hStreams, hNext]
    · exact h.2
    · rintro n _ hTurn
      cases hTurn
      exact hOther n rfl

/-- A forwarder takes a line, or comes to the end of its work. -/
theorem Holds.takes_forwarder (h : Holds φ past s m) (hFree : φ (forwarder n) = none) (hReads : Reads n s r s') :
    ∃ owed, r.Passes ((speakers told).phases (forwarder n) task) (fun _ owed => owed = []) owed ∧
      Holds (Function.update φ (forwarder n) (some (task, owed))) (past ++ [⟨.takesUp (forwarder n) task, s, s'⟩]) s' m := by
  have hOutput : output φ past n = forwarded n past := by simp [output, untold, hFree]
  cases hReads with
  | @line p line rest text hUnread hCut hText =>
    have hSilent : sentAt ⟨.takesUp (forwarder n) task, s, s.setIncoming n rest⟩ = [] := sentAt_of_same rfl
    obtain ⟨q, taken, texts, hq, -, hSame, -⟩ := h.2.going hUnread
    have hCategory : p.category = q.category := by rw [hSame]
    refine ⟨_, passes_of_line (hCategory ▸ h.2.categories _ hq) _, h.silent rfl hSilent ?_ ?_⟩
    · rintro _ _ ⟨⟩ x hx
      refine ⟨n, q, rfl, hq, ?_⟩
      rw [List.mem_singleton.mp hx, ← hCategory]
      exact Dap.Outgoing.category?_output ..
    · have hNow : output (Function.update φ (forwarder n) (some (task, [notification p.category text])))
          (past ++ [⟨.takesUp (forwarder n) task, s, s.setIncoming n rest⟩]) =
          Function.update (output φ past) n (output φ past n ++ [notification p.category text]) := by
        funext j
        rw [output_silent hSilent, hOutput]
        by_cases hj : j = n
        · subst hj
          simp
        · have hOther : forwarder n ≠ forwarder j := by simpa [eq_comm] using hj
          rw [if_neg hOther, Function.update_of_ne hj]
      rw [hNow, jobsOf_takesUp rfl, unread_setIncoming]
      exact h.2.line hUnread hCut hText
  | @atEnd p r hUnread hEnd hHushed =>
    have hSilent : sentAt ⟨.takesUp (forwarder n) task, s, s.dropStream n⟩ = [] := sentAt_of_same rfl
    refine ⟨[], passes_of_hushed hHushed _, h.silent rfl hSilent ?_ ?_⟩
    · rintro _ _ ⟨⟩
      simp
    · rw [output_same hSilent (by simp [hFree]), jobsOf_takesUp rfl, unread_dropStream]
      exact h.2.atEnd hUnread hEnd

theorem Holds.takes (h : Holds φ past s m) (hFree : φ k = none) (hTakes : Engages k task s r s') :
    ∃ owed, r.Passes ((speakers told).phases k task) (fun _ owed => owed = []) owed ∧
      Holds (Function.update φ k (some (task, owed))) (past ++ [⟨.takesUp k task, s, s'⟩]) s' m := by
  cases hTakes with
  | @publish _ d x =>
    have hAllows : Allows (.event x) hushed := allows_hushed id
    exact ⟨[], passes_of_hushed (hAllows.hear d) _, h.takes_other hFree (by simp) rfl rfl rfl⟩
  | job hJob hTake =>
    cases taken_of_take hJob hTake with
    | @default q rest _ =>
      exact ⟨[], passes_of_hushed (onLane_hushed (serve_hushed q)) _, h.takes_other hFree (by simp) rfl rfl rfl⟩
    | @launcher j rest _ =>
      refine ⟨[], passes_of_hushed (onLane_hushed ?_) _, h.takes_other hFree (by simp) rfl rfl rfl⟩
      cases j with
      | request q => exact serve_hushed q
      | run d announceThreads =>
        have hAllows : Allows (.run d announceThreads) hushed := allows_hushed id
        exact hAllows.runDebuggee
    | @arrival _ q _ => exact ⟨[], passes_of_hushed (serve_hushed q) _, h.takes_other hFree (by simp) rfl rfl rfl⟩
    | forwarder hOutput => exact h.takes_forwarder hFree (reads_of_takeOutput hOutput)

theorem Holds.goes {owed' : List Dap.Outgoing} {asked : Option (Asked World)} (h : Holds φ past s m)
    (hPhase : φ k = some (task, owed)) (hMoves : ((speakers told).phases k task).moves owed asked s s' owed') :
    Holds (Function.update φ k (some (task, owed'))) (past ++ [⟨.goesOn k task asked, s, s'⟩]) s' m := by
  obtain ⟨⟨new, hNew, hOwed⟩, hUnread, hNext⟩ := hMoves
  have hSent : sentAt ⟨.goesOn k task asked, s, s'⟩ = new := by
    rw [sentAt, hNew, added_append]
  have hOwes := h.1.owes k task owed hPhase
  constructor
  · apply h.1.snoc (by rw [hSent, hNew]) (fun _ _ => id)
    · apply h.1.owes_update
      rintro _ _ ⟨⟩ x hx
      exact hOwes x (hOwed ▸ List.mem_append_right _ hx)
    · rw [hSent]
      intro x hx hTells
      exact ⟨k, rfl, hOwes x (hOwed ▸ List.mem_append_left _ (List.mem_filter.mpr ⟨hx, hTells⟩))⟩
  · rw [output_told hPhase rfl (by rw [hSent, hOwed]), jobsOf_same (by simp), hUnread, hNext]
    exact h.2

theorem Holds.done (h : Holds φ past s m) (hPhase : φ k = some (task, [])) :
    Holds (Function.update φ k none) (past ++ [⟨.isDone k task, s, s⟩]) s m := by
  have hSilent : sentAt ⟨.isDone k task, s, s⟩ = [] := sentAt_of_same rfl
  apply h.silent rfl hSilent (by simp)
  rw [output_same hSilent (by simp [hPhase]), jobsOf_same (by simp)]
  exact h.2

/-- Streams keep their numbers and categories. -/
theorem Pours.teller {m' : Ledger} (h : Pours s m s' m') {x : Dap.Outgoing} (hTeller : Teller m k x) : Teller m' k x := by
  obtain ⟨n, p, hk, hp, hCategory⟩ := hTeller
  cases h with
  | apart _ _ _ => exact ⟨n, p, hk, hp, hCategory⟩
  | opens _ _ => exact ⟨n, p, hk, List.mem_append_left _ hp, hCategory⟩
  | writes d category bytes _ =>
    refine ⟨n, _, hk, List.mem_map_of_mem hp, ?_⟩
    by_cases hHere : p.debuggee = d ∧ p.category = category <;> simp [Pipe.write, hHere, hCategory]
  | closes which =>
    refine ⟨n, _, hk, List.mem_map_of_mem hp, ?_⟩
    by_cases hHere : which p.debuggee p.category = true <;> simp [Pipe.close, hHere, hCategory]

theorem Holds.pours {m' : Ledger} (h : Holds φ past s m) (hPours : Pours s m s' m') :
    Holds φ (past ++ [⟨.outside, s, s'⟩]) s' m' := by
  have hSilent : sentAt ⟨.outside, s, s'⟩ = [] := sentAt_of_same hPours.outbox
  constructor
  · apply h.1.snoc (by rw [hSilent, hPours.outbox, List.append_nil]) fun _ _ => hPours.teller
    · exact fun k task owed hk x hx => hPours.teller (h.1.owes k task owed hk x hx)
    · simp [hSilent]
  · have hOutput : output φ (past ++ [⟨.outside, s, s'⟩]) = output φ past := by
      funext n
      rw [output, forwarded_snoc, hSilent, output]
      simp
    rw [hOutput, jobsOf_same (by simp)]
    exact h.2.pours hPours

theorem speakers_keep (told : (c : Call) → Answer c → Prop) : (speakers told).KeepsIn (fun _ _ => True) Holds where
  keep _ _ := rfl
  answered _ _ _ _ _ _ _ := trivial
  fits _ _ := trivial
  takes h hFree hTakes _ := h.takes hFree hTakes
  goes {φ past s m k task owed asked s' m' owed'} h hPhase hMoves hReplied _ := by
    -- An answer tells nothing of streams.
    obtain rfl : m' = m := by
      cases asked with
      | none => exact hReplied
      | some x => exact hReplied.2
    exact h.goes hPhase hMoves
  done h hPhase hPost := h.done (hPost ▸ hPhase)
  outside h hPours _ := h.pours hPours

/-! ## Every run -/

abbrev PouringStage := Scene Party Task Session World Ledger fun _ => Unit

/-- The forwarder of a stream is free, has been let forward it, and finds nothing to do. -/
structure Drained (n : Nat) (now : PouringStage) : Prop where
  free : now.busy (forwarder n) = none
  nothing : takeOutput n now.state = none
  forwarded : ∀ o, (n, o) ∈ now.state.streams → o.forwarded = true

def readableOf (p : Pipe) : List Dap.Outgoing :=
  (Line.readable (Line.lines p.bytes)).map (notification p.category)

structure Forwards (n : Nat) (p : Pipe) (past : List Occurrence) (now : PouringStage) : Prop where
  inOrder : forwarded n past <+: readableOf p
  whole : p.ended = true → Drained n now → forwarded n past = readableOf p
  /-- So many notifications as there are lines, exactly if all lines are text. -/
  all : p.ended = true → Drained n now →
    ((forwarded n past).length = (Line.lines p.bytes).length ↔ ∀ line ∈ Line.lines p.bytes, (Utf8.decode line).isOk = true)
  /-- The forwarder does come to rest. -/
  jobs : jobsOf n past ≤ (Line.lines p.bytes).length + 1
  /-- The queue to the client tells nothing else of the category of the stream, unless another stream has it too. -/
  queue : (∀ x ∈ now.world, x.2.category = p.category → x.1 = n) →
    now.state.outbox.filter (fun x => x.category? = some p.category) = forwarded n past

/-- A forwarder at rest is done with a stream that has ended. -/
theorem Drained.gone {now : PouringStage} (h : Drained n now)
    (hEnded : ∀ o, (n, o) ∈ now.state.streams → o.ended = true) : n ∉ now.state.unread.map (·.1) := by
  intro hHere
  obtain ⟨y, hy, hn⟩ := List.mem_map.mp hHere
  obtain ⟨x, hx, rfl⟩ := List.mem_map.mp hy
  have hNothing := h.nothing
  unfold takeOutput at hNothing
  split at hNothing
  · next hNone => exact absurd hn (by simpa using List.find?_eq_none.mp hNone x hx)
  · next k o hFound =>
    obtain rfl : k = n := by simpa using List.find?_some hFound
    have hMem := List.mem_of_find?_eq_some hFound
    have hRead := Line.read_next o.ended o.incoming
    simp only [h.forwarded o hMem, Bool.not_true, Bool.false_eq_true, if_false] at hNothing
    split at hNothing
    · next hNext =>
      rw [hNext, hEnded o hMem] at hRead
      cases hRead
    all_goals cases hNothing

theorem Spoken.queue {now : PouringStage} (h : Spoken φ past now.state now.world)
    (hOnce : (now.world.map (·.1)).Nodup) (hp : (n, p) ∈ now.world) (hConsole : p.category ≠ "console")
    (hOnly : ∀ x ∈ now.world, x.2.category = p.category → x.1 = n) :
    now.state.outbox.filter (fun x => x.category? = some p.category) = forwarded n past := by
  have hTells : ∀ {x : Dap.Outgoing}, x.category? = some p.category → tellsOutput x = true :=
    fun hx => by simp [tellsOutput, hx, hConsole]
  rw [h.outbox, List.filter_flatMap, forwarded]
  apply List.flatMap_congr
  intro e he
  split
  · next hTurn =>
    -- All that this forwarder tells has the category of its stream.
    apply List.filter_congr
    intro x hx
    rw [Bool.eq_iff_iff, decide_eq_true_iff]
    constructor
    · exact hTells
    · intro hTold
      obtain ⟨k, hk, j, q, rfl, hq, hCategory⟩ := h.told e he x hx hTold
      obtain rfl : j = n := by
        rw [hTurn] at hk
        cases hk
        rfl
      rw [hCategory, eq_of_key hOnce hq hp]
  · next hTurn =>
    -- Any other tells nothing of that category.
    rw [List.filter_eq_nil_iff]
    intro x hx hHere
    obtain ⟨k, hk, j, q, rfl, hq, hCategory⟩ := h.told e he x hx (hTells (of_decide_eq_true hHere))
    rw [of_decide_eq_true hHere] at hCategory
    obtain rfl : j = n := hOnly _ hq (Option.some.inj hCategory).symm
    exact hTurn hk

/-- Whatever debuggees write, and however the workers come in between each other: the client is told the lines of each
stream in order, each once, up to the first that is no text, and nothing behind that one. -/
theorem forwards_readable {journal : Option Log.Journal} {now : PouringStage}
    (h : (pouring told).Leads (.idle { journal } []) past now) (hp : (n, p) ∈ now.world) : Forwards n p past now := by
  obtain ⟨φ, hPlays, hSpoken, hAccount⟩ := h.by_rule.plays_roles_in (speakers_keep told) (fun _ _ => trivial) (fun _ => rfl)
    ⟨⟨rfl, nofun, by simp⟩, .nothing⟩
  obtain ⟨taken, texts, hTexts, hStands, hOut⟩ := hAccount.streams n p hp
  obtain ⟨more, hMore, hGone, hJobs⟩ := hStands.readable hTexts
  have hAll : readableOf p = forwarded n past ++ (untold φ n ++ more.map (notification p.category)) := by
    rw [readableOf, hMore, List.map_append, ← hOut, output, List.append_assoc]
  have hWhole : p.ended = true → Drained n now → forwarded n past = readableOf p := by
    intro hEnded hRest
    have hUntold : untold φ n = [] := by simp [untold, (hPlays (forwarder n)).free hRest.free]
    have hOver : n ∉ now.state.unread.map (·.1) := by
      apply hRest.gone
      intro o ho
      obtain ⟨q, _, _, hq, -, hSame, -⟩ := hAccount.going (List.mem_map_of_mem ho)
      obtain rfl := eq_of_key hAccount.once hq hp
      exact (congrArg Pipe.ended hSame).trans hEnded
    rw [hAll, hUntold, hGone hOver]
    simp
  constructor
  · exact ⟨_, hAll.symm⟩
  · exact hWhole
  · intro hEnded hRest
    rw [hWhole hEnded hRest, readableOf, List.length_map, Line.length_readable_iff]
  · exact hJobs
  · exact hSpoken.queue hAccount.once hp (hAccount.categories _ hp)

/-! ## A run

A debuggee writes three lines, of which the second is no text. -/

/-- What comes of itself, by name. -/
inductive Pour where
  | request (q : Dap.Request)
  | opens (d : DebuggeeId) (category : String)
  | writes (d : DebuggeeId) (category : String) (bytes : Bytes)
  | closes (which : DebuggeeId → String → Bool)

/-- Cues for a session, with what debuggees do to their streams. -/
def pouringScript {told : (c : Call) → Answer c → Prop} (answer? : (c : Call) → Option (Answer c))
    (hTold : ∀ c a, answer? c = some a → told c a) :
    Script (pouring told) (Option (DebuggeeId × DebugEvent)) Pour where
  take? := (companyScript answer? hTold).take?
  answer? m c := (answer? c).map (·, m)
  come? x s m :=
    match x with
    | .request q => some (s.dispatch q, m)
    | .opens d category =>
      if category ∈ ["stdout", "stderr"] then
        some (s.addStream { debuggee := d, category }, m ++ [(s.nextStream, { debuggee := d, category })])
      else none
    | .writes d category bytes =>
      if ∀ x ∈ m, x.2.debuggee = d → x.2.category = category → x.2.ended = false then
        some (s.writeStream d category bytes, m.map (Prod.map id (Pipe.write d category bytes)))
      else none
    | .closes which => some (s.closeStreams which, m.map (Prod.map id (Pipe.close which)))
  takes h := (companyScript answer? hTold).takes h
  answers {m c a m'} h := by
    obtain ⟨a', hAnswer, hEq⟩ := Option.map_eq_some_iff.mp h
    cases hEq
    exact ⟨hTold c a hAnswer, rfl⟩
  outside {x s m s' m'} h := by
    cases x with
    | request q =>
      cases h
      have hSame : (s.dispatch q).streams = s.streams ∧ (s.dispatch q).nextStream = s.nextStream := by
        rw [dispatch_eq]
        cases route q.command <;> exact ⟨rfl, rfl⟩
      exact .apart (.dispatch q) hSame.1 hSame.2
    | opens d category =>
      dsimp only at h
      split at h
      · next hCategory =>
        cases h
        exact .opens d hCategory
      · cases h
    | writes d category bytes =>
      dsimp only at h
      split at h
      · next hOpen =>
        cases h
        exact .writes d category bytes hOpen
      · cases h
    | closes which =>
      cases h
      exact .closes which

abbrev PourCue := Cue Party (Option (DebuggeeId × DebugEvent)) Pour

def completes (k : Party) (steps : Nat) : List PourCue :=
  .takesUp k none :: List.replicate steps (.goesOn k) ++ [.isDone k]

def brokenLine : Bytes := [0x61, 10, 0xFF, 10, 0x62, 10]

/-- The debuggee has written all before it is let run, and its forwarder is left alone then. -/
def brokenLineForwarded : List PourCue :=
  [.outside (.request attachRequest), .outside (.opens 7 "stdout"), .outside (.opens 7 "stderr"),
    .outside (.writes 7 "stdout" brokenLine), .outside (.closes fun d _ => d = 7)] ++ completes launcher 11 ++
    [.outside (.request configurationDoneRequest), .takesUp (.worker (.arrival 0)) none] ++
    List.replicate 2 (.goesOn (.worker (.arrival 0))) ++ completes launcher 8 ++ completes (forwarder 0) 1 ++
    completes (forwarder 0) 2

/-- Whether this was written to the first stream, and its forwarder is at rest. -/
def isDrained (bytes : Bytes) (now : PouringStage) : Bool :=
  now.world.any (fun x => x.1 = 0 ∧ x.2.category = "stdout" ∧ x.2.bytes = bytes ∧ x.2.ended = true) &&
    (now.busy (forwarder 0)).isNone && (takeOutput 0 now.state).isNone &&
    now.state.streams.all fun x => x.1 ≠ 0 ∨ x.2.forwarded = true

theorem drained_of_check {bytes : Bytes} {now : PouringStage} (h : isDrained bytes now = true) :
    Drained 0 now ∧ ∃ p, (0, p) ∈ now.world ∧ p.category = "stdout" ∧ p.bytes = bytes ∧ p.ended = true := by
  simp only [isDrained, Bool.and_eq_true, List.any_eq_true, List.all_eq_true, decide_eq_true_iff, Option.isNone_iff_eq_none] at h
  obtain ⟨⟨⟨⟨⟨n, p⟩, hp, rfl, hCategory, hBytes, hEnded⟩, hFree⟩, hNothing⟩, hForwarded⟩ := h
  refine ⟨⟨hFree, hNothing, ?_⟩, p, hp, hCategory, hBytes, hEnded⟩
  exact fun o ho => (hForwarded _ ho).resolve_left (by simp)

theorem forwards_readable_broken : ∃ past now p,
    (pouring fun c a => attachable c = some a).Leads (.idle { journal := none } []) past now ∧ (0, p) ∈ now.world ∧
      p.bytes = brokenLine ∧ p.ended = true ∧ Drained 0 now ∧ Forwards 0 p past now := by
  obtain ⟨past, now, hLeads, hCheck⟩ := (pouringScript attachable fun _ _ => id).leads_of_check brokenLineForwarded
    (.idle { journal := none } []) (fun _ now => isDrained brokenLine now) (by decide +kernel)
  obtain ⟨hDrained, p, hp, -, hBytes, hEnded⟩ := drained_of_check hCheck
  exact ⟨past, now, p, hLeads, hp, hBytes, hEnded, hDrained, forwards_readable hLeads hp⟩

/-- Of three lines the client is told one. -/
theorem lines_lost : ∃ past now p,
    (pouring fun c a => attachable c = some a).Leads (.idle { journal := none } []) past now ∧ (0, p) ∈ now.world ∧
      p.category = "stdout" ∧ p.ended = true ∧ Drained 0 now ∧ (Line.lines p.bytes).length = 3 ∧
      (now.state.outbox.filter fun x => x.category? = some "stdout").length = 1 := by
  obtain ⟨past, now, hLeads, hCheck⟩ := (pouringScript attachable fun _ _ => id).leads_of_check brokenLineForwarded
    (.idle { journal := none } []) (fun _ now => isDrained brokenLine now &&
      (now.state.outbox.filter fun x => x.category? = some "stdout").length = 1) (by decide +kernel)
  rw [Bool.and_eq_true, decide_eq_true_iff] at hCheck
  obtain ⟨hDrained, p, hp, hCategory, hBytes, hEnded⟩ := drained_of_check hCheck.1
  exact ⟨past, now, p, hLeads, hp, hCategory, hEnded, hDrained, by rw [hBytes]; rfl, hCheck.2⟩

end Session
end JvmDebug
