import JvmDebug.Proofs.Debuggee.References
import JvmDebug.Proofs.Session.Given

/-!
# Where handles come from

A frame is shown when the stack of a thread is asked for, and a reference when something is looked at that the client
knows by a handle. So every handle stems from a thread, and belongs to that thread, however many handles lie between.
-/

namespace JvmDebug.Session
set_option autoImplicit false

open Jdwp (ThreadId)

/-- The debuggee answers as one behind a machine does. -/
def driven : (c : Call) → Answer c → Prop
  | .drive _ r, a => (Debuggee.serve r).MayYield a
  | _, _ => True

variable {journal : Option Log.Journal} {past : List Happening} {e : Happening} {q : Dap.Request}
  {asked : Option (Asked World)} {s : Scene Hand Job Session World Unit fun _ => Unit} {t o : ThreadId} {n : Int}
  {did : List Act}

/-! ## What a request shows -/

theorem asksFrame_unique {m : Int} (hn : q.asksFrame n) (hm : q.asksFrame m) : n = m := by
  rcases hn with ⟨hn, hArgs⟩ | ⟨hn, a, hArgs, hFrame⟩ | ⟨hn, a, hArgs, hFrame⟩ <;>
    rcases hm with ⟨hm, hArgs'⟩ | ⟨hm, a', hArgs', hFrame'⟩ | ⟨hm, a', hArgs', hFrame'⟩ <;>
    simp_all

theorem asksReference_unique {m : Int} (hn : q.asksReference n) (hm : q.asksReference m) : n = m := by
  have hEq := hn.2.symm.trans hm.2
  cases hEq
  rfl

theorem not_asks_both {m : Int} (hn : q.asksFrame n) (hm : q.asksReference m) : False := by
  have hCommand := hm.1
  rcases hn with ⟨hn, -⟩ | ⟨hn, -⟩ | ⟨hn, -⟩ <;> simp [hn] at hCommand

/-- All that was asked so far was answered by such a debuggee. -/
def AllDriven (did : List Act) : Prop := ∀ x ∈ did, ∀ c a, x.asked = some ⟨c, a⟩ → driven c a

theorem Told.frame_origin {frames : List FrameRef} {references : List VariableRef} {f : FrameRef}
    (h : Told q did frames references) (hDriven : AllDriven did) (hf : f ∈ frames) : q.command = "stackTrace" ∧
      ∃ a, q.argumentsAs Dap.StackTraceArguments.read = .ok a ∧ f.thread = threadFromClient a.thread := by
  cases h with
  | @stackTrace a d stack x hCommand hArguments hx hAsked =>
    refine ⟨hCommand, a, hArguments, ?_⟩
    obtain ⟨y, hy, rfl⟩ := List.mem_map.mp hf
    refine Debuggee.thread_of_stackTrace (hDriven x hx _ _ hAsked) y ?_
    unfold stackPart at hy
    split at hy
    · split at hy
      · exact List.mem_of_mem_drop (List.mem_of_mem_take hy)
      · exact List.mem_of_mem_drop hy
    · exact List.mem_of_mem_drop hy
  | _ => cases hf

/-- What a request looks at: a frame or a reference that it found under a handle, and the thread of that. -/
inductive LooksAt (q : Dap.Request) (did : List Act) (t : ThreadId) : Prop where
  | frame {n : Int} {f : FrameRef} {y : Act} : q.asksFrame n → y ∈ did → y.before.view.frame n = .ok f → f.thread = t →
      LooksAt q did t
  | reference {n : Int} {r : VariableRef} {y : Act} : q.asksReference n → y ∈ did →
      y.before.view.reference n = .ok r → r.thread = t → LooksAt q did t

theorem Told.reference_origin {frames : List FrameRef} {references : List VariableRef} {r : VariableRef}
    (h : Told q did frames references) (hDriven : AllDriven did) (hr : r ∈ references) : LooksAt q did r.thread := by
  cases h with
  | stackTrace => cases hr
  | scopes hCommand hArguments hy hFrame hx hAsked =>
    obtain ⟨z, hz, rfl⟩ := List.mem_map.mp hr
    exact .frame (.inl ⟨hCommand, hArguments⟩) hy hFrame (Debuggee.thread_of_scopes (hDriven _ hx _ _ hAsked) z hz).symm
  | expand hCommand hArguments hy hReference hx hAsked =>
    obtain ⟨z, hz, hChildren⟩ := List.mem_filterMap.mp hr
    exact .reference ⟨hCommand, hArguments⟩ hy hReference
      (Debuggee.thread_of_expand (hDriven _ hx _ _ hAsked) z hz r hChildren).symm
  | evaluate hCommand hArguments hHandle hy hFrame hx hAsked =>
    exact .frame (.inr (.inl ⟨hCommand, _, hArguments, hHandle⟩)) hy hFrame
      (Debuggee.thread_of_evaluate (hDriven _ hx _ _ hAsked) r (Option.mem_toList.mp hr)).symm

/-! ## The moment at which a handle is given out -/

/-- The moment of a request at which something is shown. -/
def shownBy (past : List Happening) (e : Happening) (asked : Option (Asked World)) : List Act :=
  deeds (.worker .defaultLane) past ++ [⟨asked, e.before, e.after⟩]

theorem Effect.frame_added {f : FrameRef} (h : Effect past e)
    (hAdded : (n, o, f) ∈ added e.before.frames.entries e.after.frames.entries) :
    o = f.thread ∧ ∃ q asked frames references, servesAt e.turn q asked ∧
      Told q (shownBy past e asked) frames references ∧ f ∈ frames := by
  have hNone : ∀ {may}, e.before.Sheds may e.after → False := fun hSheds => by simp [hSheds.frames.added] at hAdded
  cases h with
  | request q asked hServes hConduct =>
    cases hConduct with
    | quiet hQuiet => exact (hNone hQuiet.toSheds).elim
    | frame f' hAfter hShown =>
      obtain ⟨frames, references, hTold, hPrefix, -⟩ := hShown
      have hIssued : added e.before.frames.entries e.after.frames.entries = [(e.before.frames.next, f'.thread, f')] := by
        rw [show e.after = e.before.withFrame f' from hAfter]
        exact added_withFrame ..
      refine ⟨?_, q, asked, frames, references, hServes, hTold, hPrefix.subset ?_⟩
      · rw [hIssued, List.mem_singleton] at hAdded
        cases hAdded
        rfl
      · rw [issued_snoc]
        exact List.mem_map.mpr ⟨_, List.mem_append_right _ hAdded, rfl⟩
    | reference r hAfter _ =>
      rw [show e.after = e.before.withReference r from hAfter] at hAdded
      simp [Session.frames, withReference, added_self] at hAdded
    | responds result hAfter _ =>
      rw [show e.after = e.before.post (.response (.of q result)) from hAfter] at hAdded
      simp [Session.frames, post, added_self] at hAdded
  | other _ hReserved => exact (hNone hReserved.toSheds).elim

theorem Effect.reference_added {r : VariableRef} (h : Effect past e)
    (hAdded : (n, o, r) ∈ added e.before.references.entries e.after.references.entries) :
    o = r.thread ∧ ∃ q asked frames references, servesAt e.turn q asked ∧
      Told q (shownBy past e asked) frames references ∧ r ∈ references := by
  have hNone : ∀ {may}, e.before.Sheds may e.after → False := fun hSheds => by simp [hSheds.references.added] at hAdded
  cases h with
  | request q asked hServes hConduct =>
    cases hConduct with
    | quiet hQuiet => exact (hNone hQuiet.toSheds).elim
    | frame f hAfter _ =>
      rw [show e.after = e.before.withFrame f from hAfter] at hAdded
      simp [Session.references, withFrame, added_self] at hAdded
    | reference r' hAfter hShown =>
      obtain ⟨frames, references, hTold, -, hPrefix⟩ := hShown
      have hIssued : added e.before.references.entries e.after.references.entries =
          [(e.before.references.next, r'.thread, r')] := by
        rw [show e.after = e.before.withReference r' from hAfter]
        exact added_withReference ..
      refine ⟨?_, q, asked, frames, references, hServes, hTold, hPrefix.subset ?_⟩
      · rw [hIssued, List.mem_singleton] at hAdded
        cases hAdded
        rfl
      · rw [issued_snoc]
        exact List.mem_map.mpr ⟨_, List.mem_append_right _ hAdded, rfl⟩
    | responds result hAfter _ =>
      rw [show e.after = e.before.post (.response (.of q result)) from hAfter] at hAdded
      simp [Session.references, post, added_self] at hAdded
  | other _ hReserved => exact (hNone hReserved.toSheds).elim

theorem mem_given {β : Type} {pool : Session → Handles ThreadId β} {x : Int × ThreadId × β} :
    x ∈ given pool past ↔ ∃ e ∈ past, x ∈ added (pool e.before).entries (pool e.after).entries := List.mem_flatMap

theorem given_mono {β : Type} {pool : Session → Handles ThreadId β} {since : List Happening} {x : Int × ThreadId × β}
    (h : x ∈ given pool past) : x ∈ given pool (past ++ since) := by
  rw [given_append]
  exact List.mem_append_left _ h

section Driven

variable {told : (c : Call) → Answer c → Prop}

/-- The effect of a moment in the middle of a session. -/
theorem Comes.effect {before after : List Happening} (h : Comes told journal (before ++ e :: after) s) :
    Effect before e := by
  obtain ⟨m, m', hFirst, hHappens, -⟩ := Setting.Leads.around h
  exact effect_of_happens (Comes.kept hFirst) hHappens

/-- A handle belongs to the thread of what it stands for. -/
theorem Comes.frame_owner {f : FrameRef} (h : Comes told journal past s) (hGiven : (n, o, f) ∈ given frames past) :
    f.thread = o := by
  obtain ⟨e, he, hAdded⟩ := mem_given.mp hGiven
  obtain ⟨before, after, rfl⟩ := List.append_of_mem he
  exact (h.effect.frame_added hAdded).1.symm

theorem Comes.reference_owner {r : VariableRef} (h : Comes told journal past s)
    (hGiven : (n, o, r) ∈ given references past) : r.thread = o := by
  obtain ⟨e, he, hAdded⟩ := mem_given.mp hGiven
  obtain ⟨before, after, rfl⟩ := List.append_of_mem he
  exact (h.effect.reference_added hAdded).1.symm

/-- What a request finds under a handle was given out before. -/
theorem Comes.given_of_found {β : Type} {pool : Session → Handles ThreadId β} {kind : String} {v : β}
    {before after : List Happening} (hPool : IsPool pool kind) (h : Comes told journal (before ++ e :: after) s)
    {y : Act} (hy : y ∈ shownBy before e asked) (hFound : (pool y.before).get n = .ok v) :
    ∃ o, (n, o, v) ∈ given pool before := by
  have hAt : ∀ {early late : List Happening} {x : Happening}, before ++ e :: after = early ++ x :: late →
      x.before = y.before → ∃ o, (n, o, v) ∈ given pool early := by
    intro early late x hEq hSame
    rw [hEq] at h
    obtain ⟨m, m', hFirst, hHappens, -⟩ := Setting.Leads.around h
    have hChronicle := hPool.chronicle hFirst
    rw [← hHappens.before, hSame] at hChronicle
    obtain ⟨o, hThere⟩ := hChronicle.get_eq_ok_iff.mp hFound
    exact ⟨o, hChronicle.sublist.subset hThere⟩
  rcases List.mem_append.mp hy with hy | hy
  · obtain ⟨early, x, late, job, rfl, -, hBefore, -⟩ := exists_of_mem_deeds hy
    obtain ⟨o, hGiven⟩ := hAt (List.append_assoc early (x :: late) _) hBefore
    exact ⟨o, given_mono hGiven⟩
  · rw [List.mem_singleton.mp hy] at hFound hAt
    exact hAt rfl rfl

end Driven

theorem Comes.driven {before after : List Happening} (h : Comes driven journal (before ++ e :: after) s)
    (hServes : servesAt e.turn q asked) : AllDriven (shownBy before e asked) := by
  intro x hx c a hAsked
  have hAnswered : ∀ {x : Happening} {job : Job}, x ∈ before ++ e :: after →
      x.turn = .goesOn (.worker .defaultLane) job (some ⟨c, a⟩) → Session.driven c a := fun hx hTurn =>
    (Setting.Leads.answered h hx hTurn).elim fun _ ⟨_, hTold⟩ => hTold
  rcases List.mem_append.mp hx with hx | hx
  · obtain ⟨early, y, late, job, rfl, hTurn, -⟩ := exists_of_mem_deeds hx
    exact hAnswered (by simp) (hAsked ▸ hTurn)
  · rw [List.mem_singleton.mp hx] at hAsked
    exact hAnswered (by simp) (hServes.trans (congrArg _ hAsked))

/-! ## Stemming from a thread -/

/-- Something that the client knows by a number. -/
inductive Known where
  | frame (n : Int)
  | reference (n : Int)

/-- Whether it is given out at a moment. -/
def Known.appears (e : Happening) : Known → Prop
  | frame n => n ∈ (added e.before.frames.entries e.after.frames.entries).map (·.1)
  | reference n => n ∈ (added e.before.references.entries e.after.references.entries).map (·.1)

/-- Whether it belongs to a thread. -/
def Known.belongs (past : List Happening) (t : ThreadId) : Known → Prop
  | frame n => ∃ f, (n, t, f) ∈ given frames past
  | reference n => ∃ r, (n, t, r) ∈ given references past

/-- What stems from a thread: the frames of its stack, and whatever is shown of something that stems from it. -/
inductive Stems (past : List Happening) (t : ThreadId) : Known → Prop where
  | stack {e : Happening} {q : Dap.Request} {asked : Option (Asked World)} {a : Dap.StackTraceArguments} {n : Int} :
      e ∈ past → servesAt e.turn q asked → q.command = "stackTrace" →
      q.argumentsAs Dap.StackTraceArguments.read = .ok a → threadFromClient a.thread = t → (Known.frame n).appears e →
      Stems past t (.frame n)
  | ofFrame {e : Happening} {q : Dap.Request} {asked : Option (Asked World)} {m n : Int} :
      e ∈ past → servesAt e.turn q asked → q.asksFrame m → Stems past t (.frame m) → (Known.reference n).appears e →
      Stems past t (.reference n)
  | ofReference {e : Happening} {q : Dap.Request} {asked : Option (Asked World)} {m n : Int} :
      e ∈ past → servesAt e.turn q asked → q.asksReference m → Stems past t (.reference m) →
      (Known.reference n).appears e → Stems past t (.reference n)

theorem Stems.mono {since : List Happening} {x : Known} (h : Stems past t x) : Stems (past ++ since) t x := by
  induction h with
  | stack he hServes hCommand hArguments hThread hAppears =>
    exact .stack (List.mem_append_left _ he) hServes hCommand hArguments hThread hAppears
  | ofFrame he hServes hAsks _ hAppears ih => exact .ofFrame (List.mem_append_left _ he) hServes hAsks ih hAppears
  | ofReference he hServes hAsks _ hAppears ih =>
    exact .ofReference (List.mem_append_left _ he) hServes hAsks ih hAppears

theorem servesAt_unique {turn : Turn Hand Job World} {q' : Dap.Request} {asked' : Option (Asked World)}
    (h : servesAt turn q asked) (h' : servesAt turn q' asked') : q = q' := by
  have hEq := h.symm.trans h'
  cases hEq
  rfl

/-- What a request that shows a reference looks at was given out before, and belongs to the same thread. -/
theorem Comes.reference_source {r : VariableRef} {before after : List Happening}
    (h : Comes Session.driven journal (before ++ e :: after) s)
    (hAdded : (n, t, r) ∈ added e.before.references.entries e.after.references.entries) :
    ∃ q asked, servesAt e.turn q asked ∧
      ((∃ m f, q.asksFrame m ∧ (m, t, f) ∈ given frames before) ∨
        ∃ m r, q.asksReference m ∧ (m, t, r) ∈ given references before) := by
  obtain ⟨m, m', hFirst, -⟩ := Setting.Leads.around h
  obtain ⟨rfl, q, asked, frames, references, hServes, hTold, hr⟩ := h.effect.reference_added hAdded
  refine ⟨q, asked, hServes, ?_⟩
  cases hTold.reference_origin (h.driven hServes) hr with
  | frame hAsks hy hFound hThread =>
    obtain ⟨o, hGiven⟩ := h.given_of_found frames_isPool hy hFound
    obtain rfl := Comes.frame_owner hFirst hGiven
    exact .inl ⟨_, _, hAsks, hThread ▸ hGiven⟩
  | reference hAsks hy hFound hThread =>
    obtain ⟨o, hGiven⟩ := h.given_of_found references_isPool hy hFound
    obtain rfl := Comes.reference_owner hFirst hGiven
    exact .inr ⟨_, _, hAsks, hThread ▸ hGiven⟩

theorem belongs_of_stems {x : Known} (h : Comes Session.driven journal past s) (hStems : Stems past t x) :
    x.belongs past t := by
  induction hStems with
  | @stack e q asked a n he hServes hCommand hArguments hThread hAppears =>
    obtain ⟨⟨_, o, f⟩, hAdded, rfl⟩ := List.mem_map.mp hAppears
    obtain ⟨before, after, rfl⟩ := List.append_of_mem he
    obtain ⟨rfl, q', asked', frames, references, hServes', hTold, hf⟩ := h.effect.frame_added hAdded
    obtain ⟨-, a', hArguments', hOwner⟩ := hTold.frame_origin (h.driven hServes') hf
    obtain rfl := servesAt_unique hServes hServes'
    cases hArguments.symm.trans hArguments'
    exact ⟨f, mem_given.mpr ⟨e, he, hOwner.trans hThread ▸ hAdded⟩⟩
  | @ofFrame e q asked m n he hServes hAsks _ hAppears ih =>
    obtain ⟨f, hGiven⟩ := ih
    obtain ⟨⟨_, o, r⟩, hAdded, rfl⟩ := List.mem_map.mp hAppears
    obtain ⟨before, after, rfl⟩ := List.append_of_mem he
    obtain ⟨q', asked', hServes', hSource⟩ := h.reference_source hAdded
    obtain rfl := servesAt_unique hServes hServes'
    rcases hSource with ⟨m', f', hAsks', hGiven'⟩ | ⟨m', r', hAsks', -⟩
    · obtain rfl := asksFrame_unique hAsks hAsks'
      cases (frames_isPool.chronicle h).unique hGiven (given_mono hGiven') rfl
      exact ⟨r, mem_given.mpr ⟨e, he, hAdded⟩⟩
    · exact (not_asks_both hAsks hAsks').elim
  | @ofReference e q asked m n he hServes hAsks _ hAppears ih =>
    obtain ⟨r', hGiven⟩ := ih
    obtain ⟨⟨_, o, r⟩, hAdded, rfl⟩ := List.mem_map.mp hAppears
    obtain ⟨before, after, rfl⟩ := List.append_of_mem he
    obtain ⟨q', asked', hServes', hSource⟩ := h.reference_source hAdded
    obtain rfl := servesAt_unique hServes hServes'
    rcases hSource with ⟨m', f', hAsks', -⟩ | ⟨m', r'', hAsks', hGiven'⟩
    · exact (not_asks_both hAsks' hAsks).elim
    · obtain rfl := asksReference_unique hAsks hAsks'
      cases (references_isPool.chronicle h).unique hGiven (given_mono hGiven') rfl
      exact ⟨r, mem_given.mpr ⟨e, he, hAdded⟩⟩

/-- Every handle stems from its thread: what it was shown of was given out at an earlier moment. -/
theorem stems_of_belongs {x : Known} (h : Comes Session.driven journal past s) (hBelongs : x.belongs past t) :
    Stems past t x := by
  induction past using List.reverseRecOn generalizing s x t with
  | nil => cases x <;> simp [Known.belongs, given] at hBelongs
  | append_singleton past e ih =>
    obtain ⟨m, m', hFirst, -, -⟩ := Setting.Leads.around h
    have hThere : e ∈ past ++ [e] := List.mem_concat_self ..
    cases x with
    | frame n =>
      obtain ⟨f, hGiven⟩ := hBelongs
      rw [given_snoc] at hGiven
      rcases List.mem_append.mp hGiven with hGiven | hAdded
      · exact (ih hFirst (show (Known.frame n).belongs past t from ⟨f, hGiven⟩)).mono
      · obtain ⟨rfl, q, asked, frames, references, hServes, hTold, hf⟩ := h.effect.frame_added hAdded
        obtain ⟨hCommand, a, hArguments, hOwner⟩ := hTold.frame_origin (h.driven hServes) hf
        exact .stack hThere hServes hCommand hArguments hOwner.symm (List.mem_map.mpr ⟨_, hAdded, rfl⟩)
    | reference n =>
      obtain ⟨r, hGiven⟩ := hBelongs
      rw [given_snoc] at hGiven
      rcases List.mem_append.mp hGiven with hGiven | hAdded
      · exact (ih hFirst (show (Known.reference n).belongs past t from ⟨r, hGiven⟩)).mono
      · have hAppears : (Known.reference n).appears e := List.mem_map.mpr ⟨_, hAdded, rfl⟩
        obtain ⟨q, asked, hServes, ⟨m, f, hAsks, hFrom⟩ | ⟨m, r', hAsks, hFrom⟩⟩ := h.reference_source hAdded
        · exact .ofFrame hThere hServes hAsks (ih hFirst (show (Known.frame m).belongs past t from ⟨f, hFrom⟩)).mono hAppears
        · exact .ofReference hThere hServes hAsks (ih hFirst (show (Known.reference m).belongs past t from ⟨r', hFrom⟩)).mono hAppears

/-- The handles that belong to a thread are those that stem from it. -/
theorem stems_iff {x : Known} (h : Comes Session.driven journal past s) : Stems past t x ↔ x.belongs past t :=
  ⟨belongs_of_stems h, stems_of_belongs h⟩

end JvmDebug.Session
