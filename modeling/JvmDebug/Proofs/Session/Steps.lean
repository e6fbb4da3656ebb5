import JvmDebug.Proofs.Routine.Bounds
import JvmDebug.Session.Requests

/-!
# Steps of a session

What the steps of a session mean for bounds on what is done. Much of what requests do is within any bounds that allow to
look, to note records and to set the journal up: to read breakpoints and to wait for them, to set up logging, and to look
for sources.
-/

namespace JvmDebug.Session
set_option autoImplicit false

open Attempt (within_seq)

variable {b : Bounds Session World} {α β : Type}

@[simp] theorem within_look {f : Session → α} {post : α → Prop} :
    (look f : Activity α).Within b post ↔ ∀ s, b.changes s s ∧ post (f s) := Iff.rfl

@[simp] theorem within_change {f : Session → Session} {post : Unit → Prop} :
    (change f : Activity Unit).Within b post ↔ ∀ s, b.changes s (f s) ∧ post () := Iff.rfl

@[simp] theorem within_changeGet {f : Session → α × Session} {post : α → Prop} :
    (changeGet f : Activity α).Within b post ↔ ∀ s, b.changes s (f s).2 ∧ post (f s).1 := Iff.rfl

@[simp] theorem within_call {c : Call} {post : Answer c → Prop} :
    (Routine.ask (I := World) c : Activity (Answer c)).Within b post ↔ b.calls c ∧ (∀ s, b.changes s s) ∧ ∀ a, post a :=
  Iff.rfl

@[simp] theorem within_act {r : Activity α} {post : Except Error α → Prop} :
    (act r).run.Within b post ↔ r.Within b fun a => post (.ok a) := Attempt.within_lift

@[simp] theorem within_see {f : Session → α} {post : Except Error α → Prop} :
    (see f).run.Within b post ↔ ∀ s, b.changes s s ∧ post (.ok (f s)) := Iff.rfl

@[simp] theorem within_alter {f : Session → Session} {post : Except Error Unit → Prop} :
    (alter f).run.Within b post ↔ ∀ s, b.changes s (f s) ∧ post (.ok ()) := Iff.rfl

@[simp] theorem within_alterGet {f : Session → α × Session} {post : Except Error α → Prop} :
    (alterGet f).run.Within b post ↔ ∀ s, b.changes s (f s).2 ∧ post (.ok (f s).1) := Iff.rfl

@[simp] theorem within_demand {r : Activity (Except Error α)} {post : Except Error α → Prop} :
    (demand r).run.Within b post ↔ r.Within b post := Iff.rfl

@[simp] theorem within_require {r : Except Error α} {post : Except Error α → Prop} :
    (require r).run.Within b post ↔ post r := Iff.rfl

/-- Bounds that allow to look at the session, to note records, and to set the journal up. -/
structure Plain (b : Bounds Session World) : Prop where
  stays : ∀ s, b.changes s s
  notes : ∀ x s, b.changes s (b.keep x s)
  journal : ∀ f s, b.changes s (onJournal f s)

namespace Plain

variable (hPlain : Plain b)
include hPlain

theorem note {level : Log.Level} {part : Log.Part} {text : String} :
    (Routine.log level part text : Activity Unit).Within b fun _ => True :=
  ⟨hPlain.notes _, trivial⟩

theorem seen (f : Session → α) : (see f).run.Within b fun _ => True := fun s => ⟨hPlain.stays s, trivial⟩

theorem asks {c : Call} (hCall : b.calls c) : (Routine.ask (I := World) c : Activity (Answer c)).Within b fun _ => True :=
  ⟨hCall, hPlain.stays, fun _ => trivial⟩

theorem theDebuggee : theDebuggee.run.Within b fun _ => True := by
  refine within_seq (hPlain.seen _) fun d => ?_
  split <;> trivial

/-! Breakpoints -/

theorem noteUnknownFilter (id : String) : (noteUnknownFilter id).Within b fun _ => True := by
  unfold Session.noteUnknownFilter
  split
  · exact hPlain.note
  · trivial

theorem readBreakpoint (source : Source) (x : Dap.BreakpointArgument) :
    (readBreakpoint source x).run.Within b fun _ => True := by
  refine within_seq (within_act.mpr ?_) fun _ => within_seq (hPlain.seen _) fun _ => trivial
  unfold noteCondition
  split
  · exact hPlain.note
  · trivial

theorem awaitSync (source : Source) (generation : Nat) : (awaitSync source generation).Within b fun _ => True := by
  refine Routine.within_then (fun s => ⟨hPlain.stays s, trivial⟩) fun d => ?_
  split
  · trivial
  · refine Routine.within_then (Routine.within_waitUpTo.mpr ⟨hPlain.stays, fun _ => trivial⟩) fun inTime => ?_
    split
    · trivial
    · exact hPlain.note

theorem breakpointJson (x : Breakpoint) : (breakpointJson x).run.Within b fun _ => True :=
  within_seq (hPlain.seen _) fun _ => within_seq (hPlain.seen _) fun _ => trivial

/-! Before a debuggee is started -/

theorem startLogFile (hCalls : ∀ file, b.calls (.openLog file)) (file : Path) :
    (startLogFile file).run.Within b fun _ => True := by
  refine within_seq (within_act.mpr (hPlain.asks (hCalls file))) fun opened => ?_
  split
  · exact fun s => ⟨hPlain.journal _ s, trivial⟩
  · trivial

theorem applyLogging (hCalls : ∀ file, b.calls (.openLog file)) (a : Dap.LoggingArguments) :
    (applyLogging a).run.Within b fun _ => True := by
  refine within_seq trivial fun choice => within_seq trivial fun file => within_seq (hPlain.seen _) fun noJournal => ?_
  split
  · trivial
  · have hFile : ∀ file, (Session.startLogFile file).run.Within b fun _ => True := hPlain.startLogFile hCalls
    have hLevel : ∀ f, (alter (onJournal f)).run.Within b fun _ => True := fun f s => ⟨hPlain.journal f s, trivial⟩
    -- The file is opened whether or not the level was changed.
    cases choice <;> cases file
    · trivial
    · exact hFile _
    · exact hLevel _
    · exact within_seq (hLevel _) fun _ => hFile _

theorem scanSources (hCalls : b.calls .files) (root : Path) : (scanSources root).Within b fun _ => True := by
  refine Routine.within_then (hPlain.asks hCalls) fun tree => ?_
  split
  · refine Routine.within_then (Routine.within_each fun x _ => ?_) fun _ => ?_
    · dsimp only
      split
      · trivial
      · exact hPlain.note
    · exact Routine.within_then hPlain.note fun _ => trivial
  · exact Routine.within_then hPlain.note fun _ => trivial

end Plain
end JvmDebug.Session
