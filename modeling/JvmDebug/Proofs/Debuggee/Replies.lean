import JvmDebug.Debuggee.Pump
import JvmDebug.Proofs.Jdwp.Lists
import JvmDebug.Proofs.Placement.Alive
import JvmDebug.Proofs.Routine.Phases

/-!
# What replies come to

A query fails with the error of its reply, or because the data of the reply are malformed. So whoever asks a machine
that is not gone never hears that it is, whatever else its replies say.
-/

namespace JvmDebug
set_option autoImplicit false

open Jdwp (LoadedClass Location RequestId Reply Query Reader)

variable {α : Type}

/-- What a placer may be told by a machine that replies with these errors. -/
def Backend.Telling (errors : Jdwp.Error → Prop) (c : Backend.Call) (a : Backend.Answer c) : Prop :=
  ∀ e, (Happening.answered c a).refusal? = some e → errors e ∨ ∃ why, e = .malformed why

namespace Debuggee

/-- What the machine replies; `errors` says with which errors it may. -/
def Replies (errors : Jdwp.Error → Prop) : (c : Call) → Answer c → Prop
  | .command _, reply => ∀ e, reply >>= Reply.check = .error e → errors e
  | .publish _, _ | .exitCode, _ | .kill, _ => True

/-- Every call may be replied to, whatever errors there are. -/
theorem exists_reply (errors : Jdwp.Error → Prop) (c : Call) : ∃ a, Replies errors c a := by
  cases c with
  | command => exact ⟨.ok ⟨0, 0, []⟩, nofun⟩
  | publish => exact ⟨(), trivial⟩
  | exitCode => exact ⟨none, trivial⟩
  | kill => exact ⟨.ok (), trivial⟩

/-- Any error but that the machine is gone. -/
abbrev StillThere (e : Jdwp.Error) : Prop := e.isDisconnect = false

/-- Errors that a machine may reply with, and those of malformed replies. -/
def Tells (errors : Jdwp.Error → Prop) (answer : Except Jdwp.Error α) : Prop :=
  ∀ e, answer = .error e → errors e ∨ ∃ why, e = .malformed why

theorem Tells.mono {errors errors' : Jdwp.Error → Prop} (hSub : ∀ e, errors e → errors' e) {answer : Except Jdwp.Error α}
    (h : Tells errors answer) : Tells errors' answer :=
  fun e hError => (h e hError).imp_left (hSub e)

theorem Tells.still_there {answer : Except Jdwp.Error α} (h : Tells StillThere answer) {e : Jdwp.Error}
    (hError : answer = .error e) : e.isDisconnect = false := by
  rcases h e hError with hThere | ⟨why, rfl⟩
  · exact hThere
  · rfl

variable {errors : Jdwp.Error → Prop} {S : Type}

theorem tells_answer {q : Query α} (hPlain : q.reader.Plain) {reply : Except Jdwp.Error Reply}
    (hReply : Replies errors (.command q.command) reply) : Tells errors (reply >>= q.answer) := by
  intro e hError
  have hSplit : reply >>= q.answer = (reply >>= Reply.check) >>= q.reader.value := by
    cases reply <;> rfl
  rw [hSplit] at hError
  cases hCheck : reply >>= Reply.check with
  | error e' =>
    rw [hCheck] at hError
    cases hError
    exact .inl (hReply _ hCheck)
  | ok data =>
    rw [hCheck] at hError
    exact .inr (hPlain data e hError)

theorem gives_query {q : Query α} (hPlain : q.reader.Plain) :
    (query q).run.Gives (Replies errors) (Tells errors) := fun _ hReply => tells_answer hPlain hReply

/-! ## Placing -/

theorem present_of_telling {c : Backend.Call} {a : Backend.Answer c} (h : Backend.Telling StillThere c a) :
    Backend.Present c a := by
  intro e hRefused
  rcases h e hRefused with hThere | ⟨why, rfl⟩
  · exact hThere
  · rfl

/-- Each request for events is granted. -/
def Grants : (c : Call) → Answer c → Prop
  | .command c, reply => ∀ r, c = (Query.setRequest r).command → ∃ id, reply >>= (Query.setRequest r).answer = .ok id
  | .publish _, _ | .exitCode, _ | .kill, _ => True

theorem gives_onWire {answered : (c : Call) → Answer c → Prop} {post : α → Prop} {r : Routine Debuggee Jdwp.Wire α} :
    (onWire r).Gives answered post ↔ r.Gives (fun c reply => answered (.command c) reply) post := by
  induction r with
  | done a => rfl
  | atomic _ _ ih => exact forall_congr' ih
  | wait _ _ _ _ ih => exact forall_congr' ih
  | call _ _ ih => exact forall_congr' fun a => imp_congr_right fun _ => ih a
  | note _ _ ih => exact ih

variable {r : Jdwp.EventRequest} {c : Backend.Call}

theorem gives_ask {q : Query α} (hPlain : q.reader.Plain) :
    (Jdwp.ask q : Routine S Jdwp.Wire _).Gives (fun c reply => Replies errors (.command c) reply) (Tells errors) :=
  fun _ hReply => tells_answer hPlain hReply

theorem gives_place : (Jdwp.place r : Routine S Jdwp.Wire _).Gives (fun c reply => Replies errors (.command c) reply)
    (Tells errors) := by
  refine Routine.gives_bind.mpr ((gives_ask Reader.decodes_i32.plain).mono ?_)
  rintro (e | id) hTells
  · rintro e' ⟨⟩
    exact hTells e rfl
  · exact nofun

theorem gives_place_granted :
    (Jdwp.place r : Routine S Jdwp.Wire _).Gives (fun c reply => Grants (.command c) reply)
      fun a => ∃ id, a = .ok id := by
  have hAsk : (Jdwp.ask (Query.setRequest r) : Routine S Jdwp.Wire _).Gives
      (fun c reply => Grants (.command c) reply) fun a => ∃ id, a = .ok id := fun _ hGranted => hGranted r rfl
  refine Routine.gives_bind.mpr (hAsk.mono ?_)
  rintro _ ⟨id, rfl⟩
  exact ⟨id, rfl⟩

theorem plain_lineTable (c : Jdwp.ClassId) (m : Jdwp.MethodId) : (Query.lineTable c m).reader.Plain :=
  (Reader.regular_bind (Reader.regular_number _ _ _) fun _ => Reader.regular_bind (Reader.regular_number _ _ _) fun _ =>
    Reader.regular_bind Reader.decodes_lineEntry.list.toRegular fun _ => Reader.regular_pure _).plain

theorem gives_locationsIn (c : LoadedClass) (line : UInt32) (methods : List Jdwp.Method) :
    (Backend.locationsIn c line methods : Routine S Jdwp.Wire _).Gives
      (fun c reply => Replies errors (.command c) reply) (Tells errors) := by
  induction methods with
  | nil => exact nofun
  | cons m rest ih =>
    refine Routine.gives_bind.mpr ((gives_ask (plain_lineTable c.id m.id)).mono ?_)
    rintro (e | table) hTells
    · dsimp only
      split
      · rintro e' ⟨⟩
        exact hTells e rfl
      · exact ih
    · refine Routine.gives_bind.mpr (ih.mono ?_)
      rintro (e | found) hFound
      · rintro e' ⟨⟩
        exact hFound e rfl
      · exact nofun

/-- The placer hears only such errors as the machine replies with. -/
theorem gives_serve : (onWire (Backend.serve c)).Gives (Replies errors) (Backend.Telling errors c) := by
  refine gives_onWire.mpr ?_
  cases c with
  | loadedClasses name =>
    refine Routine.gives_bind.mpr ((gives_ask (Reader.decodes_classInfo _).list.plain).mono ?_)
    rintro (e | found) hTells
    · rintro e' ⟨⟩
      exact hTells e rfl
    · exact nofun
  | lineLocations cls line =>
    refine Routine.gives_bind.mpr ((gives_ask Reader.decodes_method.list.plain).mono ?_)
    rintro (e | methods) hTells
    · rintro e' ⟨⟩
      exact hTells e rfl
    · refine (gives_locationsIn cls line methods).mono ?_
      rintro (e | found) hFound
      · rintro e' ⟨⟩
        exact hFound e rfl
      · exact nofun
  | setBreakpoint | setWatch | setException =>
    refine gives_place.mono ?_
    rintro (e | id) hTells
    · rintro e' ⟨⟩
      exact hTells e rfl
    · exact nofun
  | clearBreakpoint r | clearWatch r | clearException r =>
    refine (gives_ask (q := Query.clearRequest _ r) (Reader.plain_pure ())).mono ?_
    rintro (e | done) hTells
    · rintro e' ⟨⟩
      exact hTells e rfl
    · exact nofun

/-- Where requests are granted, the request for exceptions is. -/
theorem gives_serve_granting : (onWire (Backend.serve c)).Gives (fun c a => Replies StillThere c a ∧ Grants c a)
    (Backend.Granting c) := by
  have hThere : (onWire (Backend.serve c)).Gives (fun c a => Replies StillThere c a ∧ Grants c a) (Backend.Present c) :=
    (gives_serve.mono fun _ => present_of_telling).restrict fun _ _ h => h.1
  cases c with
  | setException caught uncaught =>
    have hGranted : (onWire (Backend.serve (.setException caught uncaught))).Gives
        (fun c a => Replies StillThere c a ∧ Grants c a) fun a => ∃ id, a = .ok id :=
      (gives_onWire.mpr gives_place_granted).restrict fun _ _ h => h.2
    refine (hThere.and hGranted).mono ?_
    rintro _ ⟨hPresent, id, rfl⟩
    exact ⟨hPresent, fun _ _ _ => rfl⟩
  | _ => exact hThere.mono fun a hPresent => ⟨hPresent, nofun⟩

end Debuggee
end JvmDebug
