import JvmDebug.Proofs.Debuggee.Pumping
import JvmDebug.Proofs.Routine.Sparing

/-!
# What is asked of a debuggee, and the book

Whoever looks at a stopped thread looks only, whatever is looked at. No request of a session writes into the book of
breakpoints. To take over a machine does, but only when nothing can fail any more.
-/

namespace JvmDebug.Debuggee
set_option autoImplicit false

open Attempt (within_seq)
open Jdwp (ClassId ObjectId ThreadId Location Query)

variable {α β : Type}

/-! ## The book -/

def isPublish : Call → Prop
  | .publish _ => True
  | _ => False

/-- What leaves the book alone, and publishes nothing. -/
def bookless : Bounds Debuggee World := ⟨fun d d' => d'.book = d.book, fun c => ¬isPublish c, fun _ d => d⟩

theorem looking_bookless : Looking bookless where
  learns _ _ _ := rfl
  asks _ _ := id
  keep := rfl

theorem bookless_of_asking {r : Activity α} {post : α → Prop} (h : r.Within asking post) : r.Within bookless post := by
  have hKeep : asking.keep = bookless.keep := rfl
  refine Routine.Within.weaken ?_ ?_ hKeep h
  · rintro d _ rfl
    rfl
  · rintro _ ⟨c, rfl⟩
    exact id

theorem bookless_query (q : Query α) : (query q).run.Within bookless fun _ => True := bookless_of_asking (within_query q)

theorem bookless_tries (q : Query α) :
    (ExceptT.lift (query q).run : Work (Except Jdwp.Error α)).run.Within bookless fun _ => True :=
  Attempt.within_lift.mpr ((bookless_query q).mono fun _ _ => trivial)

theorem bookless_ask (q : Query α) : (ask q).run.Within bookless fun _ => True := within_exchange (bookless_query q)

theorem bookless_place (r : Jdwp.EventRequest) : (exchange (placeRequest r)).run.Within bookless fun _ => True :=
  within_exchange (bookless_of_asking (within_onWire (within_place r)))

theorem bookless_notes {level : Log.Level} {part : Log.Part} {text : String} :
    (ExceptT.lift (Routine.log level part text) : Work Unit).run.Within bookless fun _ => True := looking_bookless.notes

theorem bookless_modify {change : Debuggee → Debuggee} (h : ∀ d, (change d).book = d.book) :
    (ExceptT.lift (Routine.modify change) : Work Unit).run.Within bookless fun _ => True :=
  Attempt.within_lift.mpr fun d => ⟨h d, trivial⟩

theorem bookless_modifyGet {f : Debuggee → α × Debuggee} (h : ∀ d, (f d).2.book = d.book) :
    (ExceptT.lift (Routine.modifyGet f) : Work α).run.Within bookless fun _ => True :=
  Attempt.within_lift.mpr fun d => ⟨h d, trivial⟩

theorem bookless_get : (ExceptT.lift Routine.get : Work Debuggee).run.Within bookless fun _ => True :=
  Attempt.within_lift.mpr fun _ => ⟨rfl, trivial⟩

theorem bookless_clearStep (thread : ThreadId) : (clearStep thread).run.Within bookless fun _ => True := by
  have hKeep : musing.keep = bookless.keep := rfl
  refine Routine.Within.weaken ?_ ?_ hKeep (within_clearStep thread)
  · rintro d _ ⟨types, detailField, pendingSteps, rfl⟩
    rfl
  · rintro _ ⟨c, rfl, -⟩
    exact id

theorem bookless_resume (thread : ThreadId) : (resume thread).run.Within bookless fun _ => True := by
  refine within_seq (bookless_tries _) fun answer => ?_
  split
  · trivial
  · dsimp only
    split
    · trivial
    · exact within_seq bookless_notes fun _ => trivial

theorem bookless_step (thread : ThreadId) (kind : StepKind) : (step thread kind).run.Within bookless fun _ => True := by
  refine within_seq (bookless_clearStep thread) fun _ => ?_
  refine within_seq (bookless_place _) fun request => ?_
  exact within_seq (bookless_modify fun _ => rfl) fun _ => bookless_ask _

theorem bookless_endLaunched : endLaunched.run.Within bookless fun _ => True := by
  refine within_seq bookless_notes fun _ => within_seq (bookless_tries _) fun exited => ?_
  extract_lets kill_
  have hKill : (kill_ ()).run.Within bookless fun _ => True := by
    refine within_seq (Attempt.within_lift.mpr ⟨id, fun _ => rfl, fun _ => trivial⟩) fun killed => ?_
    split
    · trivial
    · exact bookless_notes
  cases exited with
  | ok _ => exact hKill
  | error e => exact within_seq bookless_notes fun _ => hKill

theorem bookless_leaveAttached : leaveAttached.run.Within bookless fun _ => True := by
  refine within_seq bookless_notes fun _ => within_seq (bookless_tries _) fun left => ?_
  split
  · trivial
  · split <;> trivial

theorem bookless_disconnect : disconnect.run.Within bookless fun _ => True := by
  refine within_seq (bookless_modifyGet fun _ => rfl) fun already => ?_
  split
  · trivial
  refine within_seq (bookless_modify fun _ => rfl) fun _ => within_seq bookless_get fun d => ?_
  split
  · exact bookless_endLaunched
  · exact bookless_leaveAttached

/-- No request of a session writes into the book. -/
theorem bookless_serve (r : DebuggeeRequest) : (serve r).Within bookless fun _ => True := by
  have hFound : ∀ {γ : Type} {w : Work γ}, (w.run.Within bookless fun _ => True) →
      (orNotFound w).run.Within bookless fun _ => True := fun h => Attempt.within_mapError.mpr (h.mono fun _ _ => trivial)
  cases r with
  | threads => exact inspects_threads.within looking_bookless
  | resume thread => exact bookless_resume thread
  | resumeAll => exact bookless_ask _
  | pause thread => exact bookless_ask _
  | step thread kind => exact bookless_step thread kind
  | stackTrace thread => exact hFound ((inspects_stackTrace thread).within looking_bookless)
  | scopes frame => trivial
  | expand reference => exact hFound ((inspects_expand reference).within looking_bookless)
  | evaluate frame expression => exact hFound ((inspects_evaluate frame expression).within looking_bookless)
  | completions frame text => exact hFound ((inspects_completions frame text).within looking_bookless)
  | disconnect => exact bookless_disconnect

theorem bookless_onPlacer (w : Placer.Work α) : (onPlacer w).Within bookless fun _ => True := by
  have hZoomed : (w.run.zoom Debuggee.placer fun p d => { d with placer := p }).Within
      (⟨fun d d' => d'.book = d.book, fun _ => True, fun _ d => d⟩ : Bounds Debuggee Backend) fun _ => True :=
    (Routine.within_anything fun _ p => p).zoom (fun _ _ _ => rfl) (fun _ => id) (fun _ => rfl) fun _ _ => rfl
  exact hZoomed.interpret (fun _ _ => id) rfl fun c _ => bookless_of_asking (within_serve c)

/-! ## Taking over a machine -/

/-- Whether work spares the book: where it fails, it has left it as it was. -/
abbrev SparesBook (w : Work α) : Prop := w.run.Spares Debuggee.book (fun x => isPublish x.1) Failed

theorem sparesBook_after {w : Work α} {k : α → Work β} (h : w.run.Within bookless fun _ => True)
    (hNext : ∀ a, SparesBook (k a)) : SparesBook (w >>= k) :=
  Attempt.spares_after h (fun _ _ => id) (fun _ _ => id) hNext

theorem start_sparesBook : SparesBook start := by
  refine sparesBook_after (bookless_ask _) fun version => sparesBook_after bookless_notes fun _ => ?_
  refine sparesBook_after (bookless_place _) fun starts => sparesBook_after (bookless_place _) fun deaths => ?_
  refine sparesBook_after bookless_get fun d => ?_
  extract_lets rest
  have hRest : SparesBook (rest ()) := by
    refine sparesBook_after (bookless_modifyGet fun _ => rfl) fun wanted => ?_
    refine sparesBook_after (bookless_onPlacer _) fun verified => ?_
    refine sparesBook_after (bookless_modifyGet fun _ => rfl) fun filters => ?_
    refine sparesBook_after (bookless_onPlacer _) fun _ => ?_
    -- From here on the book is written to, and nothing fails any more.
    exact (Attempt.never_bind Attempt.never_lift fun _ => Attempt.never_lift).spares
  split
  · exact hRest
  · exact sparesBook_after (bookless_ask _) fun _ => hRest

end JvmDebug.Debuggee
