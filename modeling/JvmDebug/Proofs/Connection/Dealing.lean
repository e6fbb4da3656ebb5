import JvmDebug.Proofs.Connection.Correlation
import JvmDebug.Proofs.Connection.Frames
import JvmDebug.Proofs.Routine.Jobs
import JvmDebug.Proofs.Routine.Terms

/-!
# What the reader does with a packet

A reply goes to whom it is owed, an event set to whoever takes events, and what is of no use to anybody changes nothing.
When the reader shuts down, the events end, and they end nowhere else.
-/

namespace JvmDebug.Jdwp.Connection
set_option autoImplicit false

variable {past : List Happening} {s s' : Connection}
  {a : Scene Party Errand Connection Link Written Party.Result} {id : UInt32} {packet : Bytes} {why : Error} {job : Errand}

abbrev Deed := Doing Connection Link

/-! ## What is done with a frame -/

def errandOf (f : Packet.Frame) : Errand := if f.isReply then .reply f.id f.bytes else .events f.bytes

theorem errandOf_eq_reply {f : Packet.Frame} :
    errandOf f = .reply id packet ↔ f.isReply = true ∧ f.id = id ∧ f.bytes = packet := by
  cases h : f.isReply <;> simp [errandOf, h]

theorem errandOf_eq_events {f : Packet.Frame} : errandOf f = .events packet ↔ f.isReply = false ∧ f.bytes = packet := by
  cases h : f.isReply <;> simp [errandOf, h]

theorem errandOf_ne_shutDown (f : Packet.Frame) : errandOf f ≠ .shutDown why := by
  cases h : f.isReply <;> simp [errandOf, h]

/-- All that the reader has done with a frame when it is done with it. -/
inductive Dealt (f : Packet.Frame) : List Deed → Prop where
  | handsOn {ticket : Ticket} {s s' : Connection} : f.isReply = true → (redeem f.id s).1 = some ticket →
      Dealt f [⟨none, s, (redeem f.id s).2⟩, ⟨none, s', settle ticket (.ok f.reply) s'⟩]
  | unknown {s s' : Connection} : f.isReply = true → (redeem f.id s).1 = none → Dealt f [⟨none, s, s⟩, ⟨none, s', s'⟩]
  | delivers {events : EventSet} {s s' : Connection} : f.isReply = false → Reader.eventSet.value f.data = .ok events →
      s'.eventsDropped = false → Dealt f [⟨none, s, s⟩, ⟨none, s', { s' with events := s'.events ++ [events] }⟩]
  | unwanted {events : EventSet} {s s' s'' : Connection} : f.isReply = false → Reader.eventSet.value f.data = .ok events →
      s'.eventsDropped = true → Dealt f [⟨none, s, s⟩, ⟨none, s', s'⟩, ⟨none, s'', s''⟩]
  | unreadable {why : Error} {s : Connection} : f.isReply = false → Reader.eventSet.value f.data = .error why →
      Dealt f [⟨none, s, s⟩]

/-- All that the reader has done when it has shut down. -/
inductive Closes : List Deed → Prop where
  | closes (s s₁ s₂ s₃ : Connection) :
      Closes [⟨none, s, s⟩, ⟨none, s₁, s₁.close⟩, ⟨none, s₂, s₂⟩, ⟨none, s₃, s₃.endEvents⟩]

/-! ## Terms -/

/-- Events end for good, and only where the reader shuts down. -/
structure Lasts (k : Party) (job : Errand) (s s' : Connection) : Prop where
  stays : s.eventsEnded = true → s'.eventsEnded = true
  ends : s'.eventsEnded = true → s.eventsEnded = true ∨ k = .reader ∧ ∃ why, job = .shutDown why

theorem Lasts.of_same {k : Party} (h : s'.eventsEnded = s.eventsEnded) : Lasts k job s s' :=
  ⟨fun hEnded => h.trans hEnded, fun hEnded => .inl (h.symm.trans hEnded)⟩

def working (k : Party) (job : Errand) : Terms Connection Link where
  others s s' := s.eventsEnded = true → s'.eventsEnded = true
  refl _ := fun h => h
  trans hFirst hSecond := hSecond ∘ hFirst
  asks _ _ _ := True
  does _ d := Lasts k job d.before d.after
  keep _ s := s

/-- What is to be said of a job when it is done. -/
def DoneWith : (k : Party) → Errand → k.Result → List Deed → Connection → Prop
  | .reader, job, _, did, s =>
    (∀ f, errandOf f = job → Dealt f did) ∧ ∀ why, job = .shutDown why → Closes did ∧ s.eventsEnded = true
  | .caller _, _, _, _, _ | .writer, _, _, _, _ => True

theorem doneWith_of_dealt {x : Unit} {did : List Deed} {s : Connection} (hJob : ∀ why, job ≠ .shutDown why)
    (hDealt : ∀ f, errandOf f = job → Dealt f did) : DoneWith .reader job x did s :=
  ⟨hDealt, fun why h => absurd h (hJob why)⟩

theorem routeReply_heeds (id : UInt32) (packet : Bytes) (s : Connection) :
    (routeReply id packet).Heeds (working .reader (.reply id packet)) (DoneWith .reader (.reply id packet)) [] s := by
  intro s₁ _ _
  refine ⟨.of_same rfl, ?_⟩
  dsimp only [Routine.bind]
  cases hRedeem : (redeem id s₁).1 with
  | some ticket =>
    intro s₂ _ _
    refine ⟨.of_same rfl, fun s₃ _ _ => doneWith_of_dealt (by simp) ?_⟩
    intro f hErrand
    obtain ⟨hReply, rfl, rfl⟩ := errandOf_eq_reply.mp hErrand
    rw [Packet.ofPacket_frame hReply]
    exact .handsOn hReply hRedeem
  | none =>
    intro s₂ _ _
    refine ⟨.of_same rfl, fun s₃ _ _ => doneWith_of_dealt (by simp) ?_⟩
    intro f hErrand
    obtain ⟨hReply, rfl, rfl⟩ := errandOf_eq_reply.mp hErrand
    have hSame : (redeem f.id s₁).2 = s₁ := by
      have hOwed := redeem_none hRedeem
      cases s₁
      exact congrArg (fun owed => Connection.mk _ _ _ owed ..) hOwed
    change Dealt f [⟨none, s₁, (redeem f.id s₁).2⟩, ⟨none, s₂, s₂⟩]
    rw [hSame]
    exact .unknown hReply hRedeem

theorem deliverEvents_heeds (packet : Bytes) (s : Connection) :
    (deliverEvents packet).Heeds (working .reader (.events packet)) (DoneWith .reader (.events packet)) [] s := by
  unfold deliverEvents
  split
  · next events hEvents =>
    intro s₁ _ _
    refine ⟨.of_same rfl, fun s₂ _ _ => ?_⟩
    change Lasts _ _ _ (addEvents events s₂).2 ∧
      (if (addEvents events s₂).1 = true then _ else _ : Routine Connection Link Unit).Heeds _ _
        [⟨none, s₁, s₁⟩, ⟨none, s₂, (addEvents events s₂).2⟩] (addEvents events s₂).2
    cases hDropped : s₂.eventsDropped with
    | false =>
      have hAdd : addEvents events s₂ = (true, { s₂ with events := s₂.events ++ [events] }) := by simp [addEvents, hDropped]
      rw [hAdd]
      refine ⟨.of_same rfl, fun s₃ _ _ => doneWith_of_dealt (by simp) ?_⟩
      intro f hErrand
      obtain ⟨hReply, rfl⟩ := errandOf_eq_events.mp hErrand
      exact .delivers hReply hEvents hDropped
    | true =>
      have hAdd : addEvents events s₂ = (false, s₂) := by simp [addEvents, hDropped]
      rw [hAdd]
      refine ⟨.of_same rfl, fun s₃ _ _ => ⟨.of_same rfl, fun s₄ _ _ => doneWith_of_dealt (by simp) ?_⟩⟩
      intro f hErrand
      obtain ⟨hReply, rfl⟩ := errandOf_eq_events.mp hErrand
      exact .unwanted hReply hEvents hDropped
  · next why hError =>
    intro s₁ _ _
    refine ⟨.of_same rfl, fun s₂ _ _ => doneWith_of_dealt (by simp) ?_⟩
    intro f hErrand
    obtain ⟨hReply, rfl⟩ := errandOf_eq_events.mp hErrand
    exact .unreadable hReply hError

theorem shutDown_heeds (why : Error) (s : Connection) :
    (shutDown why).Heeds (working .reader (.shutDown why)) (DoneWith .reader (.shutDown why)) [] s := by
  obtain ⟨record, hNote⟩ := shutDown_eq_note why
  rw [hNote]
  intro s₁ _ _
  refine ⟨.of_same rfl, fun s₂ _ _ => ⟨.of_same rfl, fun s₃ _ _ => ⟨.of_same rfl, fun s₄ _ _ => ⟨?_, ?_⟩⟩⟩⟩
  · exact ⟨fun _ => rfl, fun _ => .inr ⟨rfl, why, rfl⟩⟩
  intro s₅ hOthers _
  refine ⟨fun f hErrand => absurd hErrand (errandOf_ne_shutDown f), ?_⟩
  exact fun _ _ => ⟨.closes s₁ s₂ s₃ s₄, hOthers rfl⟩

/-- Callers and the writer have nothing to do with the end of events. -/
def bystanding : Bounds Connection Link := ⟨fun s s' => s'.eventsEnded = s.eventsEnded, fun _ => True, fun _ s => s⟩

theorem send_bystanding (id : UInt32) (c : Command) : (send id c).Within bystanding fun _ => True := by
  refine Routine.within_then ⟨fun _ => rfl, trivial⟩ fun _ => ?_
  refine Routine.within_then (fun _ => ⟨rfl, trivial⟩) fun ticket => ?_
  refine Routine.within_then ⟨fun s => ⟨fun _ => rfl, nofun⟩, fun _ => trivial⟩ fun _ => ?_
  refine Routine.within_then ⟨fun s => ⟨fun _ => rfl, nofun⟩, fun _ => trivial⟩ fun _ => ?_
  exact fun _ => ⟨rfl, trivial⟩

theorem writeQueued_bystanding (q : Queued) : (writeQueued q).Within bystanding fun _ => True := by
  refine Routine.within_then (fun s => ⟨?_, trivial⟩) fun mayWrite => ?_
  · change (owe q s).2.eventsEnded = s.eventsEnded
    unfold owe
    split <;> rfl
  cases mayWrite with
  | false => trivial
  | true =>
    refine Routine.within_then ⟨fun _ => rfl, trivial⟩ fun _ => ?_
    refine Routine.within_then ⟨trivial, fun _ => rfl, fun _ => trivial⟩ fun written => ?_
    cases written with
    | ok _ => trivial
    | error why =>
      refine Routine.within_then ⟨fun _ => rfl, trivial⟩ fun _ => ?_
      refine Routine.within_then (fun _ => ⟨rfl, trivial⟩) fun ticket => ?_
      cases ticket with
      | none => trivial
      | some ticket => exact fun _ => ⟨rfl, trivial⟩

theorem heeds_of_bystanding {k : Party} {r : Routine Connection Link k.Result} (h : r.Within bystanding fun _ => True)
    (hPost : ∀ x did s, DoneWith k job x did s) (s : Connection) : r.Heeds (working k job) (DoneWith k job) [] s := by
  refine Routine.Heeds.mono (fun x did s _ => hPost x did s) (h.heeds (fun _ _ => True) rfl ?_ ?_ ?_ trivial)
  · exact fun _ _ _ => trivial
  · exact fun _ _ _ _ _ hSame _ => ⟨.of_same hSame, trivial⟩
  · exact fun _ _ _ => trivial

theorem takes_heeds {k : Party} {r : Routine Connection Link k.Result} (h : Takes k job s r s') :
    r.Heeds (working k job) (DoneWith k job) [] s' := by
  cases h with
  | send n id c s => exact heeds_of_bystanding (k := .caller n) (send_bystanding id c) (fun _ _ _ => trivial) s
  | @write q _ _ _ hHead hWrite =>
    obtain ⟨⟨q', rest⟩, hDequeue, hEq⟩ := Option.map_eq_some_iff.mp hWrite
    cases hEq
    exact heeds_of_bystanding (k := .writer) (writeQueued_bystanding q') (fun _ _ _ => trivial) s'
  | reply hPacket hRead =>
    obtain ⟨-, rfl, -⟩ := read?_packet hPacket hRead
    exact routeReply_heeds _ _ _
  | events hPacket hRead =>
    obtain ⟨-, rfl, -⟩ := read?_packet hPacket hRead
    exact deliverEvents_heeds _ _
  | shutDown hPacket hRead =>
    obtain ⟨-, rfl, -⟩ := read?_failed hPacket hRead
    exact shutDown_heeds _ _

theorem takes_eventsEnded {k : Party} {r : Routine Connection Link k.Result} (h : Takes k job s r s') :
    s'.eventsEnded = s.eventsEnded := by
  cases h with
  | send n id c s => rfl
  | write hHead hWrite =>
    obtain ⟨⟨q, rest⟩, hDequeue, hEq⟩ := Option.map_eq_some_iff.mp hWrite
    cases hEq
    unfold dequeue? at hDequeue
    split at hDequeue <;> cases hDequeue
    rfl
  | reply hPacket hRead | events hPacket hRead =>
    obtain ⟨-, -, rfl⟩ := read?_packet hPacket hRead
    rfl
  | shutDown hPacket hRead =>
    obtain ⟨-, -, rfl⟩ := read?_failed hPacket hRead
    rfl

theorem outside_eventsEnded (h : Outside s s') : s'.eventsEnded = s.eventsEnded := by
  cases h <;> rfl

theorem accord : Accord setting (fun _ => True) working DoneWith where
  valid _ _ := rfl
  keep _ _ := rfl
  answered _ := trivial
  takes _ hTakes := ⟨trivial, takes_heeds hTakes⟩
  own _ _ := trivial
  outside _ _ := trivial
  others_own _ hLasts := hLasts.stays
  others_takes _ hTakes := (takes_eventsEnded hTakes).trans
  others_outside hOutside := (outside_eventsEnded hOutside.1).trans

theorem Comes.kept (h : Comes past a) : JvmDebug.Kept (fun _ => True) working DoneWith past a :=
  Setting.Leads.kept h accord (fun _ => rfl) trivial

/-- Whatever the reader is done with, it has done all that belongs to it. -/
theorem Comes.done_with (h : Comes past a) : ∀ x ∈ finished .reader past,
    (∀ f, errandOf f = x.1 → Dealt f x.2) ∧ ∀ why, x.1 = .shutDown why → Closes x.2 := by
  refine Setting.Leads.finished_all h (p := fun job did =>
    (∀ f, errandOf f = job → Dealt f did) ∧ ∀ why, job = .shutDown why → Closes did) fun hLeads hBusy => ?_
  obtain ⟨hFrame, hShutDown⟩ := (Comes.kept hLeads).busy hBusy _ (fun h => h) trivial
  exact ⟨hFrame, fun why hJob => (hShutDown why hJob).1⟩

/-- Where events have ended, the reader has found the end of the stream. -/
theorem Comes.shutDown_of_eventsEnded (h : Comes past a) (hEnded : a.state.eventsEnded = true) :
    ∃ why, .shutDown why ∈ begun .reader past := by
  induction h with
  | nil => cases hEnded
  | @snoc past e b c hComes hHappens ih =>
    have hBefore : b.state.eventsEnded = true → ∃ why, .shutDown why ∈ begun .reader (past ++ [e]) := fun hEnded => by
      obtain ⟨why, hMem⟩ := ih hEnded
      rw [begun_snoc]
      exact ⟨why, List.mem_append_left _ hMem⟩
    cases hHappens with
    | takesUp _ hTakes => exact hBefore ((takes_eventsEnded hTakes).symm.trans hEnded)
    | isDone _ => exact hBefore hEnded
    | outside hOutside => exact hBefore ((outside_eventsEnded hOutside.1).symm.trans hEnded)
    | goesOn hBusy hStep =>
      rcases ((Comes.kept hComes).goes accord hBusy hStep).1.ends hEnded with hEnded | ⟨rfl, why, rfl⟩
      · exact hBefore hEnded
      · refine ⟨why, ?_⟩
        rw [begun_snoc, Setting.Leads.begun_eq hComes rfl, hBusy]
        simp

/-- With the reader, the events end. -/
theorem Comes.eventsEnded (h : Comes past a) (hEnded : HasEnded past) : a.state.eventsEnded = true := by
  induction h with
  | nil =>
    obtain ⟨why, e, he, -⟩ := hEnded
    cases he
  | @snoc past e b c hComes hHappens ih =>
    have hKept := Comes.kept hComes
    obtain ⟨why, x, hx, hTurn⟩ := hEnded
    rcases List.mem_append.mp hx with hx | hx
    · have hBefore := ih ⟨why, x, hx, hTurn⟩
      cases hHappens with
      | takesUp _ hTakes => exact (takes_eventsEnded hTakes).trans hBefore
      | isDone _ => exact hBefore
      | outside hOutside => exact (outside_eventsEnded hOutside.1).trans hBefore
      | goesOn hBusy hStep => exact (hKept.goes accord hBusy hStep).1.stays hBefore
    · obtain rfl := List.mem_singleton.mp hx
      cases hHappens with
      | isDone hBusy =>
        cases hTurn
        exact ((hKept.busy hBusy _ (fun h => h) trivial).2 why rfl).2
      | _ => cases hTurn

/-! ## No waits -/

theorem deliverEvents_unwaiting (packet : Bytes) : (deliverEvents packet).Unwaiting := by
  unfold deliverEvents
  split
  · refine Routine.Unwaiting.bind trivial fun _ => ?_
    refine Routine.Unwaiting.bind (fun _ => trivial) fun added => ?_
    cases added <;> trivial
  · trivial

theorem routeReply_unwaiting (id : UInt32) (packet : Bytes) : (routeReply id packet).Unwaiting := by
  refine Routine.Unwaiting.bind (fun _ => trivial) fun ticket => ?_
  cases ticket with
  | none => trivial
  | some ticket => exact fun _ => trivial

theorem shutDown_unwaiting (why : Error) : (shutDown why).Unwaiting := by
  obtain ⟨record, hNote⟩ := shutDown_eq_note why
  rw [hNote]
  exact fun _ _ => trivial

/-- The reader never waits in the middle of its work. -/
theorem Comes.reader_unwaiting (h : Comes past a) {r : Routine Connection Link Unit}
    (hBusy : a.busy .reader = some (job, r)) : r.Unwaiting := by
  refine Setting.Leads.left h (k := .reader) rfl ?_ (fun _ _ _ _ _ _ _ hStep => hStep.unwaiting) hBusy
  intro job s r s' hTakes
  cases hTakes with
  | reply hPacket hRead =>
    obtain ⟨-, rfl, -⟩ := read?_packet hPacket hRead
    exact routeReply_unwaiting _ _
  | events hPacket hRead =>
    obtain ⟨-, rfl, -⟩ := read?_packet hPacket hRead
    exact deliverEvents_unwaiting _
  | shutDown hPacket hRead =>
    obtain ⟨-, rfl, -⟩ := read?_failed hPacket hRead
    exact shutDown_unwaiting _

end JvmDebug.Jdwp.Connection
