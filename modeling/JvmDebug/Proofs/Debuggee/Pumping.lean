import JvmDebug.Proofs.Debuggee.Looking
import JvmDebug.Proofs.Debuggee.Sections

/-!
# The phases of the pump

The phases that the pump passes through while it handles events, with a log of what it has asked, what it was answered,
and what its sections on the placer came to. Breakpoints that a class brings are owed: each of them is marked and then
published before the pump does anything else. What is asked about exceptions and steps concerns nobody else.
-/

namespace JvmDebug
set_option autoImplicit false

namespace Debuggee

open Jdwp (ClassId ObjectId ThreadId RequestId LoadedClass Query Reader)
open Backend (By Telling)

variable {α β ε : Type} {errors : Jdwp.Error → Prop}

/-- What the pump has done. -/
inductive Note where
  | asked (x : Asked World)
  /-- A class was reported to the placer, which was `before` and then `after`. -/
  | prepared (request : RequestId) (c : LoadedClass) (before after : Placer)
      (outcome : Except Error (List (Int × UInt32)))

namespace Note

def asked? : Note → Option (Asked World)
  | asked x => some x
  | prepared .. => none

def command (c : Jdwp.Command) (reply : Except Jdwp.Error Jdwp.Reply) : Note := asked ⟨.command c, reply⟩

def published (e : DebugEvent) : Note := asked ⟨.publish e, ()⟩

end Note

/-- Nothing but commands, whatever they were answered. -/
def Commands (did : List Note) : Prop := ∀ x ∈ did, ∃ c reply, x = Note.command c reply

/-- Changes that concern nobody else: what has been learnt about classes, and the steps that are out. -/
def Aside (d d' : Debuggee) : Prop := ∃ types detailField pendingSteps, d' = { d with types, detailField, pendingSteps }

/-- How the placer may answer for a class that is prepared. -/
abbrev Prepares (errors : Jdwp.Error → Prop) (request : RequestId) (c : LoadedClass) (before after : Placer)
    (outcome : Except Error (List (Int × UInt32))) : Prop :=
  Routine.Run (By (Telling errors)) (Placer.classPrepared request c).run before [] outcome after []

/-- A machine that is there has breakpoints placed; exactly those that are reported have code from then on, beside those
that had some. -/
theorem Prepares.finds {request : RequestId} {c : LoadedClass} {before after : Placer}
    {outcome : Except Error (List (Int × UInt32))} (h : Prepares StillThere request c before after outcome) :
    ∃ found, outcome = .ok found ∧ (before.installed.Distinct → Placer.Moved before before.placedWith after ∧
      Placer.Gains (found.map (·.1)) before.verified after.verified) := by
  have hLives : Routine.Run Backend.Lives (Placer.classPrepared request c).run before [] outcome after [] :=
    h.weaken fun _ _ _ _ hAnswer => ⟨present_of_telling hAnswer.1, hAnswer.2⟩
  exact hLives.satisfies (Placer.classPrepared_gains request c before [])

def foundIn : Except Error (List (Int × UInt32)) → List (Int × UInt32)
  | .ok found => found
  | .error _ => []

/-- What the pump has in hand. -/
inductive InHand where
  /-- Breakpoints that have code and are still to be marked and published. -/
  | owes (found : List (Int × UInt32))
  /-- The first of them is marked. -/
  | marked (id : Int) (line : UInt32) (rest : List (Int × UInt32))
  /-- The placer, as it was and as it is. -/
  | holds (before now : Placer)

structure PumpPhase where
  log : List Note
  hand : InHand

namespace PumpPhase

/-- The pump owes nothing. -/
def free (log : List Note) : PumpPhase := ⟨log, .owes []⟩

/-- What the pump may do, and the phase it is in then. -/
inductive Moves (errors : Jdwp.Error → Prop) :
    PumpPhase → Option (Asked World) → Debuggee → Debuggee → PumpPhase → Prop where
  | aside {log : List Note} {d d' : Debuggee} : Aside d d' → Moves errors (free log) none d d' (free log)
  | asks {log : List Note} {d : Debuggee} {c : Jdwp.Command} {reply : Except Jdwp.Error Jdwp.Reply} :
      Moves errors (free log) (some ⟨.command c, reply⟩) d d (free (log ++ [.command c reply]))
  | publishes {log : List Note} {d : Debuggee} {e : DebugEvent} : (∀ id line, e ≠ .breakpointResolved id line) →
      Moves errors (free log) (some ⟨.publish e, ()⟩) d d (free (log ++ [.published e]))
  | takes {log : List Note} {d : Debuggee} : d.placerUser = none →
      Moves errors (free log) none d { d with placerUser := some .pump } ⟨log, .holds d.placer d.placer⟩
  | places {log : List Note} {d : Debuggee} {before : Placer} (p : Placer) :
      Moves errors ⟨log, .holds before d.placer⟩ none d { d with placer := p } ⟨log, .holds before p⟩
  | asksThere {log : List Note} {d : Debuggee} {before now : Placer} {c : Jdwp.Command}
      {reply : Except Jdwp.Error Jdwp.Reply} : Moves errors ⟨log, .holds before now⟩ (some ⟨.command c, reply⟩) d d
        ⟨log ++ [.command c reply], .holds before now⟩
  | leaves {log : List Note} {d : Debuggee} {before now : Placer} {request : RequestId} {c : LoadedClass}
      {outcome : Except Error (List (Int × UInt32))} : Prepares errors request c before now outcome →
      Moves errors ⟨log, .holds before now⟩ none d { d with placerUser := none }
        ⟨log ++ [.prepared request c before now outcome], .owes (foundIn outcome)⟩
  | marks {log : List Note} {d : Debuggee} {id : Int} {line : UInt32} {rest : List (Int × UInt32)} :
      Moves errors ⟨log, .owes ((id, line) :: rest)⟩ none d { d with book := d.book.markVerified id }
        ⟨log, .marked id line rest⟩
  | resolves {log : List Note} {d : Debuggee} {id : Int} {line : UInt32} {rest : List (Int × UInt32)} :
      Moves errors ⟨log, .marked id line rest⟩ (some ⟨.publish (.breakpointResolved id line), ()⟩) d d
        ⟨log ++ [.published (.breakpointResolved id line)], .owes rest⟩

/-- At the placer, the pump knows what it is like. -/
def fits (g : PumpPhase) (d : Debuggee) : Prop :=
  match g.hand with
  | .holds _ now => d.placer = now
  | .owes _ | .marked .. => True

/-- While the pump is at the placer, nobody else is. -/
def Holds (g : PumpPhase) (d : Debuggee) : Prop :=
  match g.hand with
  | .holds _ now => d.placerUser = some .pump ∧ d.placer = now
  | .owes _ | .marked .. => True

/-- What is owed is not made to wait. -/
def waits (g : PumpPhase) : Prop :=
  match g.hand with
  | .owes found => found = []
  | .marked .. => False
  | .holds .. => True

theorem Holds.fits {g : PumpPhase} {d : Debuggee} (h : g.Holds d) : g.fits d := by
  obtain ⟨log, hand⟩ := g
  cases hand with
  | holds before now => exact h.2
  | _ => trivial

variable {errors : Jdwp.Error → Prop} {g g' : PumpPhase} {d d' : Debuggee} {asked : Option (Asked World)}

theorem Moves.holds (hMoves : Moves errors g asked d d' g') (h : g.Holds d) : g'.Holds d' := by
  cases hMoves with
  | takes => exact ⟨rfl, rfl⟩
  | places p => exact ⟨h.1, rfl⟩
  | asksThere => exact h
  | _ => trivial

/-- All that is asked is in the log. -/
theorem Moves.log (hMoves : Moves errors g asked d d' g') :
    g'.log.filterMap Note.asked? = g.log.filterMap Note.asked? ++ asked.toList := by
  cases hMoves <;> simp [free, Note.asked?, Note.command, Note.published]

end PumpPhase

open PumpPhase (free)

/-- The phases of the pump, on a machine that replies with these errors. -/
def pumping (errors : Jdwp.Error → Prop) : Phases PumpPhase Debuggee World where
  fits := PumpPhase.fits
  moves := PumpPhase.Moves errors
  waits := PumpPhase.waits
  answered := Replies errors
  keep _ d := d

theorem waits_free {log : List Note} : (pumping errors).waits (free log) := rfl

variable {log : List Note}

theorem commands_nil : Commands [] := fun _ h => absurd h List.not_mem_nil

theorem Commands.append {did did' : List Note} (h : Commands did) (h' : Commands did') : Commands (did ++ did') := by
  intro x hx
  rcases List.mem_append.mp hx with hx | hx
  · exact h x hx
  · exact h' x hx

theorem commands_one (c : Jdwp.Command) (reply : Except Jdwp.Error Jdwp.Reply) : Commands [.command c reply] := by
  intro x hx
  exact ⟨c, reply, List.mem_singleton.mp hx⟩

/-! ## Asking -/

/-- Commands that let nothing run, and changes that concern nobody else. -/
def musing : Bounds Debuggee World := ⟨Aside, fun c => ∃ x, c = .command x ∧ x.letsRun = false, fun _ d => d⟩

theorem Aside.refl (d : Debuggee) : Aside d d := ⟨d.types, d.detailField, d.pendingSteps, rfl⟩

theorem muses_query {q : Query α} (hStands : q.command.letsRun = false) : (query q).run.Within musing fun _ => True :=
  ⟨⟨q.command, rfl, hStands⟩, .refl, fun _ => trivial⟩

theorem looking_musing : Looking musing where
  learns d types detailField := ⟨types, detailField, d.pendingSteps, rfl⟩
  asks c hLooks := ⟨c, rfl, by simpa using (Bool.and_eq_true_iff.mp hLooks).1⟩
  keep := rfl

/-- Whatever is asked goes into the log. -/
theorem passes_musing {r : Activity α} {yields : α → Prop} (h : r.Within musing fun _ => True)
    (hGives : r.Gives (Replies errors) yields) :
    r.Passes (pumping errors) (fun a g => yields a ∧ ∃ did, Commands did ∧ g = free (log ++ did)) (free log) := by
  refine h.passes hGives rfl ?_ ?_ ?_ ⟨[], commands_nil, by rw [List.append_nil]⟩
  · rintro _ ⟨did, -, rfl⟩
    exact waits_free
  · rintro _ d d' ⟨did, hCommands, rfl⟩ - hAside
    exact ⟨_, .aside hAside, did, hCommands, rfl⟩
  · rintro _ d _ reply ⟨did, hCommands, rfl⟩ - ⟨c, rfl, -⟩ -
    exact ⟨_, .asks, _, hCommands.append (commands_one c reply), by rw [List.append_assoc]⟩

theorem passes_query {q : Query α} :
    (query q).run.Passes (pumping errors) (fun a g => ∃ reply, Replies errors (.command q.command) reply ∧
      a = reply >>= q.answer ∧ g = free (log ++ [.command q.command reply])) (free log) :=
  fun _ _ reply hReply => ⟨_, .asks, reply, hReply, rfl, rfl⟩

theorem passes_publish {e : DebugEvent} (h : ∀ id line, e ≠ .breakpointResolved id line) :
    (publish e).Passes (pumping errors) (fun _ g => g = free (log ++ [.published e])) (free log) :=
  fun _ _ _ _ => ⟨_, .publishes h, rfl⟩

theorem passes_note {level : Log.Level} {part : Log.Part} {text : String} :
    (Routine.log level part text : Activity Unit).Passes (pumping errors) (fun _ g => g = free log) (free log) :=
  fun d _ => ⟨_, .aside (.refl d), rfl⟩

theorem passes_aside {change : Debuggee → Debuggee} (h : ∀ d, Aside d (change d)) :
    (Routine.modify change : Activity Unit).Passes (pumping errors) (fun _ g => g = free log) (free log) :=
  fun d _ => ⟨_, .aside (h d), rfl⟩

theorem passes_get : (Routine.get : Activity Debuggee).Passes (pumping errors) (fun _ g => g = free log) (free log) :=
  fun d _ => ⟨_, .aside (.refl d), rfl⟩

/-! ## Errors -/

/-- Work fails as on a machine that is gone only if the machine replied so. -/
def Blames (errors : Jdwp.Error → Prop) (a : Except Error α) : Prop :=
  ∀ why, a = .error why → why.isDisconnect = true → ∃ e, errors e ∧ e.isDisconnect = true

theorem blames_ok (a : α) : Blames errors (.ok a) := nofun

theorem Blames.of_error {why : Error} (h : Blames errors (.error why : Except Error α)) :
    Blames errors (.error why : Except Error β) := by
  rintro _ ⟨⟩
  exact h why rfl

theorem Tells.blames {a : Except Jdwp.Error α} (h : Tells errors a) : Blames errors (a.mapError Error.ofJdwp) := by
  rintro why hError hGone
  cases a with
  | ok a => cases hError
  | error e =>
    cases hError
    rw [Error.isDisconnect_ofJdwp] at hGone
    rcases h e rfl with hReplied | ⟨_, rfl⟩
    · exact ⟨e, hReplied, hGone⟩
    · cases hGone

theorem Blames.still_there {why : Error} (h : Blames StillThere (.error why : Except Error α)) :
    why.isDisconnect = false := by
  by_contra hGone
  obtain ⟨e, hThere, hDisconnect⟩ := h why rfl (by simpa using hGone)
  rw [StillThere, hDisconnect] at hThere
  cases hThere

/-- Work that blames the machine only for what it replied. -/
abbrev Fair (errors : Jdwp.Error → Prop) (w : Work α) : Prop := w.run.Gives (Replies errors) (Blames errors)

theorem fair_bind {w : Work α} {k : α → Work β} (h : Fair errors w) (hNext : ∀ a, Fair errors (k a)) :
    Fair errors (w >>= k) := by
  refine Routine.gives_bind.mpr (h.mono ?_)
  rintro (why | a) hBlames
  · exact hBlames.of_error
  · exact hNext a

theorem fair_pure (a : α) : Fair errors (pure a : Work α) := blames_ok a

theorem fair_lift (r : Activity α) : Fair errors (ExceptT.lift r : Work α) :=
  Routine.gives_bind.mpr ((Routine.gives_anything _).mono fun a _ => blames_ok a)

theorem fair_exchange {x : Exchange α} (h : x.run.Gives (Replies errors) (Tells errors)) : Fair errors (exchange x) :=
  Routine.gives_bind.mpr (h.mono fun _ => Tells.blames)

theorem fair_ask {q : Query α} (hPlain : q.reader.Plain) : Fair errors (ask q) := fair_exchange (gives_query hPlain)

/-! ## Exceptions -/

theorem tells_cached {known : TypeCache → List (ClassId × α)} {keep : List (ClassId × α) → TypeCache → TypeCache}
    {c : ClassId} {q : Query α} (hPlain : q.reader.Plain) :
    (cached known keep c q).run.Gives (Replies errors) (Tells errors) := by
  refine Routine.gives_bind.mpr (Routine.gives_bind.mpr ((Routine.gives_anything _).mono fun d _ => ?_))
  dsimp only [Routine.Gives, Function.comp_apply, ExceptT.bindCont]
  split
  · rintro e ⟨⟩
  · refine Routine.gives_bind.mpr ((gives_query hPlain).mono ?_)
    rintro (e | a) hTells
    · rintro e' ⟨⟩
      exact hTells e rfl
    · rintro d e' ⟨⟩

theorem fair_detailField? : Fair errors detailField? := by
  refine fair_bind (fair_lift _) fun d => ?_
  split
  · exact fair_pure _
  refine fair_bind (fair_ask (Reader.decodes_classInfo _).list.plain) fun found => ?_
  split
  · exact fair_pure _
  refine fair_bind (fair_exchange (tells_cached Reader.decodes_field.list.plain)) fun fields => ?_
  dsimp only
  split
  · exact fair_bind (fair_lift _) fun _ => fair_pure _
  · exact fair_pure _

theorem fair_exceptionMessage (exception : ObjectId) : Fair errors (exceptionMessage exception) := by
  refine fair_bind fair_detailField? fun field => ?_
  split
  · exact fair_pure _
  refine fair_bind (fair_ask Reader.decodes_tagged.list.plain) fun values => ?_
  split
  · exact fair_pure _
  exact fair_bind (fair_ask Reader.regular_string.plain) fun _ => fair_pure _

/-- The class of an object is asked for, and what it is called. -/
def classAnswer (object : ObjectId) (reply : Except Jdwp.Error Jdwp.Reply) : Except Jdwp.Error ClassId :=
  reply >>= (Query.classOf object).answer

def signatureAnswer (c : ClassId) (reply : Except Jdwp.Error Jdwp.Reply) : Except Jdwp.Error String :=
  reply >>= (Query.signature c).answer

/-- How an exception comes not to be described: the machine does not tell its class, or not what the class is called, or
it is gone by then. -/
inductive Undescribed (errors : Jdwp.Error → Prop) (object : ObjectId) : Error → List Note → Prop where
  | noClass {reply : Except Jdwp.Error Jdwp.Reply} {e : Jdwp.Error} : Tells errors (classAnswer object reply) →
      classAnswer object reply = .error e →
      Undescribed errors object (.ofJdwp e) [.command (Query.classOf object).command reply]
  | noSignature {reply reply' : Except Jdwp.Error Jdwp.Reply} {c : ClassId} {e : Jdwp.Error} :
      classAnswer object reply = .ok c → Tells errors (signatureAnswer c reply') → signatureAnswer c reply' = .error e →
      Undescribed errors object (.ofJdwp e)
        [.command (Query.classOf object).command reply, .command (Query.signature c).command reply']
  | gone {why : Error} {did : List Note} : Commands did → Blames errors (.error why : Except Error Unit) →
      why.isDisconnect = true → Undescribed errors object why did

theorem Undescribed.commands {object : ObjectId} {why : Error} {did : List Note}
    (h : Undescribed errors object why did) : Commands did := by
  cases h with
  | noClass => exact commands_one _ _
  | noSignature => exact (commands_one _ _).append (commands_one _ _)
  | gone hCommands => exact hCommands

/-- An exception is described once the machine has told its class. -/
structure Described (object : ObjectId) (did : List Note) : Prop where
  commands : Commands did
  told : ∃ reply c rest, did = .command (Query.classOf object).command reply :: rest ∧ classAnswer object reply = .ok c

theorem passes_signature (c : ClassId) : (signature c).run.Passes (pumping errors) (fun a g =>
    (∃ s did, a = .ok s ∧ Commands did ∧ g = free (log ++ did)) ∨
      ∃ reply e, Tells errors (signatureAnswer c reply) ∧ signatureAnswer c reply = .error e ∧ a = .error e ∧
        g = free (log ++ [.command (Query.signature c).command reply])) (free log) := by
  refine Attempt.passes_bind (Attempt.passes_lift (passes_get.mono ?_))
  rintro d _ rfl
  dsimp only [Attempt.andThen]
  split
  · next s _ => exact .inl ⟨s, [], rfl, commands_nil, by rw [List.append_nil]⟩
  · refine Attempt.passes_bind (passes_query.mono ?_)
    rintro a _ ⟨reply, hReply, rfl, rfl⟩
    have hTells : Tells errors (signatureAnswer c reply) := tells_answer Reader.regular_string.plain hReply
    change Attempt.andThen _ _ (signatureAnswer c reply)
    cases hAnswer : signatureAnswer c reply with
    | error e => exact .inr ⟨reply, e, hAnswer ▸ hTells, hAnswer, rfl, rfl⟩
    | ok s =>
      refine Attempt.passes_bind (Attempt.passes_lift ((passes_aside fun d => ⟨_, _, _, rfl⟩).mono ?_))
      rintro _ _ rfl
      exact .inl ⟨s, _, rfl, commands_one _ reply, rfl⟩

theorem passes_describeException (object : ObjectId) (caught : Bool) :
    (describeException object caught).run.Passes (pumping errors) (fun a g => ∃ did, g = free (log ++ did) ∧
      match a with
      | .ok _ => Described object did
      | .error why => Undescribed errors object why did) (free log) := by
  refine Attempt.passes_bind (Routine.Passes.map (passes_query.mono ?_))
  rintro _ _ ⟨reply, hReply, rfl, rfl⟩
  have hTells : Tells errors (classAnswer object reply) :=
    tells_answer (Reader.regular_bind (Reader.regular_number _ _ _) fun _ => Reader.decodes_u64.toRegular).plain hReply
  change Attempt.andThen _ _ ((classAnswer object reply).mapError Error.ofJdwp)
  cases hClass : classAnswer object reply with
  | error e => exact ⟨_, rfl, .noClass (hClass ▸ hTells) hClass⟩
  | ok c =>
    refine Attempt.passes_bind (Routine.Passes.map (Attempt.passes_bind ((passes_signature c).mono ?_)))
    rintro _ _ (⟨s, did, rfl, hCommands, rfl⟩ | ⟨reply', e, hTells', hSignature, rfl, rfl⟩)
    · -- What its message is need not be told.
      refine Attempt.passes_bind (Attempt.passes_lift ((passes_musing ((inspects_exceptionMessage object).within looking_musing)
        (fair_exceptionMessage object)).mono ?_))
      rintro message _ ⟨hBlames, others, hOthers, rfl⟩
      have hDescribed : Described object (.command (Query.classOf object).command reply :: (did ++ others)) :=
        ⟨(commands_one _ reply).append (hCommands.append hOthers), reply, c, _, rfl, hClass⟩
      have hLog : log ++ [.command (Query.classOf object).command reply] ++ did ++ others =
          log ++ .command (Query.classOf object).command reply :: (did ++ others) := by simp
      rw [hLog]
      cases message with
      | ok message => exact ⟨_, rfl, hDescribed⟩
      | error why =>
        change Routine.Passes _ _ (ExceptT.run (if why.isDisconnect = true then throw why else _)) _
        split
        · next hGone => exact ⟨_, rfl, .gone hDescribed.commands hBlames.of_error hGone⟩
        · refine Attempt.passes_bind (Attempt.passes_lift (passes_note.mono ?_))
          rintro _ _ rfl
          exact ⟨_, rfl, hDescribed⟩
    · refine ⟨_, ?_, .noSignature hClass hTells' hSignature⟩
      simp

/-! ## Steps -/

theorem within_clearStep (thread : ThreadId) : (clearStep thread).run.Within musing fun _ => True := by
  refine Attempt.within_then
    (Attempt.within_lift.mpr fun d => ⟨⟨d.types, d.detailField, _, rfl⟩, trivial⟩) (fun taken => ?_) fun _ => trivial
  split
  · trivial
  refine Attempt.within_then (Attempt.within_lift.mpr ((muses_query (q := Query.clearRequest _ _) rfl).mono fun _ _ => trivial))
    (fun answer => ?_) fun _ => trivial
  split
  · trivial
  · dsimp only
    split
    · trivial
    · exact Attempt.within_lift.mpr ⟨fun d => .refl d, trivial⟩

/-- Work that fails only if the machine is gone. -/
def Dies (errors : Jdwp.Error → Prop) (a : Except Error α) : Prop :=
  ∀ why, a = .error why → why.isDisconnect = true ∧ ∃ e, errors e ∧ e.isDisconnect = true

theorem Dies.not_still_there {why : Error} : ¬Dies StillThere (.error why : Except Error α) := by
  intro h
  obtain ⟨-, e, hThere, hGone⟩ := h why rfl
  rw [StillThere, hGone] at hThere
  cases hThere

theorem dies_clearStep (thread : ThreadId) : (clearStep thread).run.Gives (Replies errors) (Dies errors) := by
  refine Routine.gives_bind.mpr (Routine.gives_bind.mpr ((Routine.gives_anything _).mono fun taken _ => ?_))
  cases taken with
  | none => exact nofun
  | some request =>
    refine Routine.gives_bind.mpr (Routine.gives_bind.mpr
      ((gives_query (q := Query.clearRequest _ request) (Reader.plain_pure ())).mono ?_))
    rintro (e | _) hTells
    · change Routine.Gives _ _ (ExceptT.run (if e.isDisconnect = true then throw (Error.ofJdwp e) else _))
      split
      · next hGone =>
        rintro _ ⟨⟩
        have hDisconnect : (Error.ofJdwp e).isDisconnect = true := (Error.isDisconnect_ofJdwp e).trans hGone
        exact ⟨hDisconnect, hTells.blames _ rfl hDisconnect⟩
      · exact Routine.gives_bind.mpr ((Routine.gives_anything _).mono fun _ _ => nofun)
    · exact nofun

end Debuggee
end JvmDebug
