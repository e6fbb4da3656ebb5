import JvmDebug.Proofs.Debuggee.Completing
import JvmDebug.Proofs.Session.Given
import JvmDebug.Proofs.Session.Messages

/-!
# Finding variables by their names

A client may have a path evaluated. Or it asks for the variables of a frame and goes on itself, name by name, each time
to the first child that is called so. On a machine that stands still both ways lead to the same variable.
-/

namespace JvmDebug
set_option autoImplicit false

/-! ## What the client is shown -/

namespace ClientView

/-- References have counted up from the beginning. -/
def Numbered (v : ClientView) : Prop := ∃ issued, Handles.Chronicle "variable reference" issued v.references

/-- The number under which a client finds something, or 0 for nothing. -/
def Refers (v : ClientView) (n : Int) : Option VariableRef → Prop
  | none => n = 0
  | some r => n ≠ 0 ∧ v.reference n = .ok r

structure Displays (v : ClientView) (x : Variable) (shown : Dap.VariableView) : Prop where
  name : shown.name = x.name
  value : shown.value = x.value
  type : shown.type = x.type
  refers : v.Refers shown.reference x.children

/-- What was found before is found still. -/
structure Grows (v v' : ClientView) : Prop where
  numbered : v'.Numbered
  keeps : ∀ n r, v.reference n = .ok r → v'.reference n = .ok r

variable {v v' v'' : ClientView} {x : Variable} {shown : Dap.VariableView} {n : Int} {children : Option VariableRef}

theorem Grows.refl (h : v.Numbered) : v.Grows v := ⟨h, fun _ _ hFound => hFound⟩

theorem Grows.trans (hFirst : v.Grows v') (hSecond : v'.Grows v'') : v.Grows v'' :=
  ⟨hSecond.numbered, fun n r hFound => hSecond.keeps n r (hFirst.keeps n r hFound)⟩

theorem Refers.later (h : v.Refers n children) (hGrows : v.Grows v') : v'.Refers n children := by
  cases children with
  | none => exact h
  | some r => exact ⟨h.1, hGrows.keeps n r h.2⟩

theorem Displays.later (h : v.Displays x shown) (hGrows : v.Grows v') : v'.Displays x shown :=
  { h with refers := h.refers.later hGrows }

theorem addReference_grows (h : v.Numbered) (r : VariableRef) :
    (v.addReference r).2.Refers (v.addReference r).1 (some r) ∧ v.Grows (v.addReference r).2 := by
  obtain ⟨issued, hChronicle⟩ := h
  have hPositive : 1 ≤ v.references.next := hChronicle.ascending.2.2
  refine ⟨⟨?_, hChronicle.get_store r.thread r⟩, ⟨_, hChronicle.moves (.store r.thread r)⟩, fun n r' hFound => ?_⟩
  · change v.references.next ≠ 0
    omega
  · exact hChronicle.get_store_of_get r.thread r hFound

theorem addVariable_grows (h : v.Numbered) (x : Variable) :
    (v.addVariable x).2.Displays x (v.addVariable x).1 ∧ v.Grows (v.addVariable x).2 := by
  unfold addVariable
  cases hChildren : x.children with
  | none => exact ⟨⟨rfl, rfl, rfl, by rw [hChildren]; rfl⟩, .refl h⟩
  | some r =>
    obtain ⟨hRefers, hGrows⟩ := addReference_grows h r
    exact ⟨⟨rfl, rfl, rfl, by rw [hChildren]; exact hRefers⟩, hGrows⟩

end ClientView

/-! ## What paths lead to -/

namespace Debuggee

variable {α : Type} {reply : Jdwp.Command → Except Jdwp.Error Jdwp.Reply} {frame : FrameRef}

theorem Settles.orNotFound {w : Work α} {a : α} (h : Settles reply w (.ok a)) : Settles reply (orNotFound w) (.ok a) := by
  refine Routine.Passes.map (Routine.Passes.mono ?_ h)
  rintro _ _ rfl
  rfl

/-- What has the variables of a frame as its children. -/
def allLocals (frame : FrameRef) : Variable := ⟨"Locals", "", none, some (.locals frame)⟩

/-- The names that a path has between its dots, without the blanks around them. -/
def segments (expression : String) : List String :=
  (splitBy (· = '.') expression.toList).map fun name => trim (String.ofList name)

theorem pathNames_trim (expression : String) : pathNames (trim expression) = segments expression := by
  have hTrim : pathNames (trim expression) = pathNames expression := by
    rw [pathNames_eq, trim, String.toList_ofList, pathNames]
  rw [hTrim, pathNames_eq, segments]

/-- A path is evaluated by following its names from the variables of the frame, unless its first name is empty. -/
theorem settles_evaluate {expression first : String} {rest : List String} {found : Option Variable}
    (hNames : pathNames expression = first :: rest)
    (hFollow : Settles reply (follow (allLocals frame) (first :: rest)) (.ok found)) :
    Settles reply (evaluate frame expression)
      (.ok (if first = "" then none else found.map fun y => { y with name := trim expression })) := by
  unfold evaluate
  rw [hNames]
  dsimp only
  by_cases hFirst : first = ""
  · subst hFirst
    exact settles_pure none
  · rw [if_neg hFirst, if_neg (by simpa using hFirst)]
    obtain ⟨known, hKnown, hRest⟩ := hFollow.of_bind (definite_expand (.locals frame))
    refine Settles.bind hKnown ?_
    split at hRest
    · next y hFind =>
      rw [hFind]
      exact hRest.bind (settles_pure _)
    · next hFind =>
      rw [hFind, Except.ok.inj (hRest.unique (settles_pure none))]
      exact settles_pure none

end Debuggee

namespace Session

open Debuggee (Forthcoming Learnt Settles still finding expand)

variable {α β M : Type} {reply : Jdwp.Command → Except Jdwp.Error Jdwp.Reply} {others : (c : Call) → Answer c}
  {answers : Answering World M} {s : Session} {m : M} {x : Debuggee} {d : DebuggeeId} {frame : FrameRef} {handle n : Int}

/-! ## A session and its debuggee -/

/-- What a debuggee answers on a machine that stands still, if it need not wait, and what it is then. -/
def attend (reply : Jdwp.Command → Except Jdwp.Error Jdwp.Reply) (r : DebuggeeRequest) (x : Debuggee) :
    Option r.Answer × Debuggee :=
  let (left, x') := Routine.advance (m := Id) (Debuggee.answerStill reply) (fun _ x => x) (Debuggee.serve r) x
  (left.result?, x')

/-- A debuggee answers for itself; whatever else is asked for, others answer. -/
def answerFor (reply : Jdwp.Command → Except Jdwp.Error Jdwp.Reply) (others : (c : Call) → Answer c) :
    (c : Call) → StateM Debuggee (Answer c)
  | .drive d r => fun x => ((attend reply r x).1.getD (others (.drive d r)), (attend reply r x).2)
  | c => pure (others c)

abbrev Attended (reply : Jdwp.Command → Except Jdwp.Error Jdwp.Reply) (others : (c : Call) → Answer c) :
    Answering World Debuggee :=
  fun x c a x' => (answerFor reply others c).run x = (a, x')

/-- What a request comes to, and what session and debuggee are then. -/
def performed (reply : Jdwp.Command → Except Jdwp.Error Jdwp.Reply) (others : (c : Call) → Answer c) (w : Work α)
    (s : Session) (x : Debuggee) : Option (Except Error α) × Session × Debuggee :=
  let ((left, s'), x') := (Routine.advance (answerFor reply others) (fun _ s => s) w.run s).run x
  (left.result?, s', x')

/-- A session that looks at a machine that stands still. -/
structure Watches (reply : Jdwp.Command → Except Jdwp.Error Jdwp.Reply) (s : Session) (x : Debuggee) : Prop where
  debuggee : s.debuggee.isSome
  numbered : s.view.Numbered
  learnt : Learnt (still reply) x

/-- Whatever a session has done, its references have counted up. -/
theorem numbered_of_comes {told : (c : Call) → Answer c → Prop} {journal : Option Log.Journal} {past : List Happening}
    {now : Scene Hand Job Session World Unit fun _ => Unit} (h : Comes told journal past now) :
    now.state.view.Numbered :=
  ⟨_, references_isPool.chronicle h⟩

section Steps

variable {post : Except Error β → Session → M → Prop} {k : α → Work β}

theorem ensures_see {f : Session → α} (h : Routine.Ensures answers post (k (f s)).run s m) :
    Routine.Ensures answers post (see f >>= k).run s m :=
  Attempt.ensures_after h

theorem ensures_require {r : Except Error α} {a : α} (hOk : r = .ok a)
    (h : Routine.Ensures answers post (k a).run s m) : Routine.Ensures answers post (require r >>= k).run s m := by
  subst hOk
  exact h

theorem ensures_theFrame {k : FrameRef → Work β} (hFrame : s.view.frame handle = .ok frame)
    (h : Routine.Ensures answers post (k frame).run s m) :
    Routine.Ensures answers post (theFrame handle >>= k).run s m := by
  refine Attempt.ensures_bind (ensures_see ?_)
  rw [hFrame]
  exact h

theorem ensures_theDebuggee {k : DebuggeeId → Work β} (hDebuggee : s.debuggee.isSome)
    (h : ∀ d, Routine.Ensures answers post (k d).run s m) :
    Routine.Ensures answers post (theDebuggee >>= k).run s m := by
  obtain ⟨d, hSome⟩ := Option.isSome_iff_exists.mp hDebuggee
  refine Attempt.ensures_bind (ensures_see ?_)
  rw [hSome]
  exact h d

end Steps

theorem attend_of_passes {r : DebuggeeRequest} {found : r.Answer → Prop}
    (h : (Debuggee.serve r).Passes (finding (still reply)) (fun a _ => found a) ()) (hLearnt : Learnt (still reply) x) :
    ∃ a x', attend reply r x = (some a, x') ∧ found a ∧ Learnt (still reply) x' := by
  obtain ⟨a, x', hRun, hFound⟩ := Debuggee.comes_of_passes h hLearnt
  refine ⟨a, x', ?_, hFound⟩
  unfold attend
  rw [hRun]
  rfl

theorem ensures_drive {r : DebuggeeRequest} {found : r.Answer → Prop} {post : r.Answer → Session → Debuggee → Prop}
    (h : (Debuggee.serve r).Passes (finding (still reply)) (fun a _ => found a) ()) (hLearnt : Learnt (still reply) x)
    (hPost : ∀ a x', found a → Learnt (still reply) x' → post a s x') :
    Routine.Ensures (Attended reply others) post (drive d r) s x := by
  obtain ⟨a, x', hAttend, ha, hLearnt'⟩ := attend_of_passes h hLearnt
  have hAnswerFor : (answerFor reply others (.drive d r)).run x = (a, x') := by
    change ((attend reply r x).1.getD _, (attend reply r x).2) = _
    rw [hAttend]
    rfl
  intro b y hAnswer
  cases hAnswerFor.symm.trans hAnswer
  exact hPost a x' ha hLearnt'

/-! ## Showing several things -/

theorem ensures_showVariables (hNumbered : s.view.Numbered) (xs : List Variable) :
    Routine.Ensures answers (fun a s' m' => ∃ shown, a = .ok shown ∧ List.Forall₂ s'.view.Displays xs shown ∧
        s.view.Grows s'.view ∧ s'.debuggee = s.debuggee ∧ m' = m)
      (xs.mapM (show_ ClientView.addVariable)).run s m := by
  induction xs generalizing s with
  | nil => exact ⟨[], rfl, .nil, .refl hNumbered, rfl, rfl⟩
  | cons x rest ih =>
    obtain ⟨hFirst, hGrows⟩ := ClientView.addVariable_grows hNumbered x
    rw [List.mapM_cons]
    refine Attempt.ensures_after (Attempt.ensures_bind (Routine.Ensures.mono ?_ (ih hGrows.numbered)))
    rintro _ s' m' ⟨shown, rfl, hShown, hGrows', hDebuggee, rfl⟩
    exact ⟨_ :: shown, rfl, .cons (hFirst.later hGrows') hShown, hGrows.trans hGrows', hDebuggee, rfl⟩

theorem ensures_serveVariables {r : VariableRef} {xs : List Variable} (hWatches : Watches reply s x)
    (hReference : s.view.reference n = .ok r) (hExpand : Settles reply (expand r) (.ok xs)) :
    Routine.Ensures (Attended reply others) (fun a s' x' => ∃ shown,
        a = .ok (some (Dap.listBody "variables" (shown.map (·.json)))) ∧ List.Forall₂ s'.view.Displays xs shown ∧
          Watches reply s' x')
      (serveVariables n).run s x := by
  refine ensures_see (ensures_require hReference (ensures_theDebuggee hWatches.debuggee fun d => ?_))
  refine Attempt.ensures_bind (ensures_drive hExpand.orNotFound hWatches.learnt ?_)
  rintro _ x' rfl hLearnt
  refine Attempt.ensures_bind (Routine.Ensures.mono ?_ (ensures_showVariables hWatches.numbered xs))
  rintro _ s' _ ⟨shown, rfl, hShown, hGrows, hDebuggee, rfl⟩
  exact ⟨shown, rfl, hShown, hDebuggee ▸ hWatches.debuggee, hGrows.numbered, hLearnt⟩

theorem ensures_serveScopes (hWatches : Watches reply s x) (hFrame : s.view.frame handle = .ok frame) :
    Routine.Ensures (Attended reply others) (fun a s' x' => ∃ shown : Dap.ScopeView,
        a = .ok (some (Dap.listBody "scopes" [shown.json])) ∧ shown.name = "Locals" ∧
          s'.view.Refers shown.reference (some (.locals frame)) ∧ Watches reply s' x')
      (serveScopes handle).run s x := by
  have hServes : (Debuggee.serve (.scopes frame)).Passes (finding (still reply))
      (fun a _ => a = .ok (Debuggee.scopes frame)) () := rfl
  refine ensures_theFrame hFrame (ensures_theDebuggee hWatches.debuggee fun d => ?_)
  refine Attempt.ensures_bind (ensures_drive hServes hWatches.learnt ?_)
  rintro _ x' rfl hLearnt
  obtain ⟨hRefers, hGrows⟩ := ClientView.addReference_grows hWatches.numbered (.locals frame)
  exact ⟨⟨"Locals", _⟩, rfl, rfl, hRefers, hWatches.debuggee, hGrows.numbered, hLearnt⟩

/-! ## The client -/

/-- The first of several things with a name. -/
def named? (name : String) (items : List Json) : Option Json := items.find? fun j => j.textAt? "name" = some name

/-- The number under which a client looks further. -/
def numberOf (j : Json) : Int := (j.intAt? "variablesReference").getD 0

/-- Goes from something to its first child with the first name, and on from there. What has the number 0 has no
children. -/
def descend (j : Json) : List String → Work (Option Json)
  | [] => return some j
  | name :: rest => do
    if numberOf j = 0 then return none
    let body ← serveVariables (numberOf j)
    match named? name (body.elim [] (·.itemsAt "variables")) with
    | none => return none
    | some child => descend child rest

/-- Goes from the variables of a frame on by names. -/
def navigate (handle : Int) (names : List String) : Work (Option Json) := do
  let body ← serveScopes handle
  match named? "Locals" (body.elim [] (·.itemsAt "scopes")) with
  | none => return none
  | some scope => descend scope names

theorem find?_displayed {v : ClientView} {xs : List Variable} {shown : List Dap.VariableView} (name : String)
    (h : List.Forall₂ v.Displays xs shown) : ∃ child : Option Dap.VariableView,
      named? name (shown.map (·.json)) = child.map (·.json) ∧
        Option.Rel v.Displays (xs.find? (·.name = name)) child := by
  refine ⟨shown.find? (·.name = name), ?_, ?_⟩
  · have hNamed : ∀ y : Dap.VariableView, (y.json.textAt? "name" = some name) = (y.name = name) := fun y => by
      rw [(Dap.textAt?_variable_json y).1, Option.some.injEq]
    unfold named?
    rw [List.find?_map]
    simp only [Function.comp_def, hNamed]
  · induction h with
    | nil => exact .none
    | @cons x y _ _ hFirst _ ih =>
      rw [List.find?_cons, List.find?_cons, hFirst.name]
      split
      · exact .some hFirst
      · exact ih

theorem numberOf_variable (shown : Dap.VariableView) : numberOf shown.json = shown.reference := by
  rw [numberOf, Dap.intAt?_variable_json, Option.getD_some]

/-- Where a client gets is where the names lead. -/
theorem ensures_descend {names : List String} {y : Variable} {found : Option Variable} {j : Json}
    (hFollow : Settles reply (Debuggee.follow y names) (.ok found)) (hWatches : Watches reply s x)
    (hRefers : s.view.Refers (numberOf j) y.children)
    (hShown : names = [] → ∃ shown : Dap.VariableView, j = shown.json ∧ s.view.Displays y shown) :
    Routine.Ensures (Attended reply others) (fun a s' _ => ∃ shown : Option Dap.VariableView,
        a = .ok (shown.map (·.json)) ∧ Option.Rel s'.view.Displays found shown)
      (descend j names).run s x := by
  induction names generalizing y j s x with
  | nil =>
    obtain ⟨shown, rfl, hDisplays⟩ := hShown rfl
    cases hFollow.unique (Debuggee.settles_pure (some y))
    exact ⟨some shown, rfl, .some hDisplays⟩
  | cons name rest ih =>
    unfold Debuggee.follow at hFollow
    unfold descend
    split at hFollow
    · next hLeaf =>
      rw [hLeaf] at hRefers
      cases hFollow.unique (Debuggee.settles_pure none)
      have hZero : numberOf j = 0 := hRefers
      rw [if_pos hZero]
      exact ⟨none, rfl, .none⟩
    · next r hChildren =>
      rw [hChildren] at hRefers
      obtain ⟨xs, hExpand, hRest⟩ := hFollow.of_bind (Debuggee.definite_expand r)
      rw [if_neg hRefers.1]
      refine Attempt.ensures_bind (Routine.Ensures.mono ?_ (ensures_serveVariables hWatches hRefers.2 hExpand))
      rintro _ s' x' ⟨shown, rfl, hDisplays, hWatches'⟩
      obtain ⟨child, hNamed, hFind⟩ := find?_displayed name hDisplays
      dsimp only [Option.elim]
      rw [Dap.itemsAt_listBody, hNamed]
      split at hRest
      · next z hSome =>
        rw [hSome] at hFind
        cases hFind with
        | some hChild =>
          refine ih hRest hWatches' ?_ fun _ => ⟨_, rfl, hChild⟩
          rw [numberOf_variable]
          exact hChild.refers
      · next hNone =>
        rw [hNone] at hFind
        cases hFind
        cases hRest.unique (Debuggee.settles_pure none)
        exact ⟨none, rfl, .none⟩

/-- From the variables of a frame a client gets to where the names lead from there. -/
theorem ensures_navigate {first : String} {rest : List String} {found : Option Variable}
    (hFollow : Settles reply (Debuggee.follow (Debuggee.allLocals frame) (first :: rest)) (.ok found))
    (hWatches : Watches reply s x) (hFrame : s.view.frame handle = .ok frame) :
    Routine.Ensures (Attended reply others) (fun a s' _ => ∃ shown : Option Dap.VariableView,
        a = .ok (shown.map (·.json)) ∧ Option.Rel s'.view.Displays found shown)
      (navigate handle (first :: rest)).run s x := by
  refine Attempt.ensures_bind (Routine.Ensures.mono ?_ (ensures_serveScopes hWatches hFrame))
  rintro _ s' x' ⟨shown, rfl, hName, hRefers, hWatches'⟩
  have hScope : named? "Locals" [shown.json] = some shown.json := by
    rw [named?, List.find?_cons_of_pos]
    rw [Dap.textAt?_scope_json, hName]
    rfl
  have hNumber : numberOf shown.json = shown.reference := by
    rw [numberOf, Dap.intAt?_scope_json, Option.getD_some]
  dsimp only [Option.elim]
  rw [Dap.itemsAt_listBody, hScope]
  exact ensures_descend hFollow hWatches' (hNumber ▸ hRefers) nofun

/-- How a client is answered that has a path evaluated. -/
def Evaluates (path : String) (v : ClientView) : Option Variable → Except Error (Option Json) → Prop
  | none, a => a = .error (.notFound s!"{path} is not in scope")
  | some y, a => ∃ shown, a = .ok (some (Dap.evaluated shown)) ∧ v.Displays y shown

theorem ensures_serveEvaluate {expression path : String} {found : Option Variable} (hPath : trim expression = path)
    (hEvaluate : Settles reply (Debuggee.evaluate frame path) (.ok found)) (hWatches : Watches reply s x)
    (hFrame : s.view.frame handle = .ok frame) :
    Routine.Ensures (Attended reply others) (fun a s' _ => Evaluates path s'.view found a)
      (serveEvaluate ⟨expression, some handle⟩).run s x := by
  unfold serveEvaluate
  dsimp only
  rw [hPath]
  refine ensures_theFrame hFrame (ensures_theDebuggee hWatches.debuggee fun d => ?_)
  refine Attempt.ensures_bind (ensures_drive hEvaluate.orNotFound hWatches.learnt ?_)
  rintro _ x' rfl hLearnt
  cases found with
  | none => rfl
  | some y =>
    obtain ⟨hDisplays, hGrows⟩ := ClientView.addVariable_grows hWatches.numbered y
    exact Attempt.ensures_after ⟨_, rfl, hDisplays⟩

/-! ## Both ways -/

theorem performed_of_ensures (others : (c : Call) → Answer c) {w : Work α}
    {post : Except Error α → Session → Debuggee → Prop} (h : Routine.Ensures (Attended reply others) post w.run s x) :
    ∃ a s' x', performed reply others w s x = (some a, s', x') ∧ post a s' x' := by
  obtain ⟨a, s', x', hRun, hPost⟩ := h.advance
  refine ⟨a, s', x', ?_, hPost⟩
  unfold performed
  rw [hRun]
  rfl

/-- What one client was answered and another has found looks the same, and has the same children. -/
structure SameVariable (s t : Session) (body found : Json) : Prop where
  value : ∃ text, body.textAt? "result" = some text ∧ found.textAt? "value" = some text
  type : body.textAt? "type" = found.textAt? "type"
  children : ∃ n n', body.intAt? "variablesReference" = some n ∧ found.intAt? "variablesReference" = some n' ∧
    (n = 0 ↔ n' = 0) ∧ (n ≠ 0 → ∃ r, s.view.reference n = .ok r ∧ t.view.reference n' = .ok r)

theorem sameVariable_of_displays {t : Session} {y : Variable} {name : String} {shown shown' : Dap.VariableView}
    (hEvaluated : s.view.Displays { y with name } shown) (hFound : t.view.Displays y shown') :
    SameVariable s t (Dap.evaluated shown) shown'.json := by
  obtain ⟨hResult, hType, hNumber⟩ := Dap.textAt?_evaluated shown
  obtain ⟨-, hValue, hType'⟩ := Dap.textAt?_variable_json shown'
  refine ⟨⟨y.value, ?_, ?_⟩, ?_, _, _, hNumber, Dap.intAt?_variable_json shown', ?_⟩
  · rw [hResult, hEvaluated.value]
  · rw [hValue, hFound.value]
  · rw [hType, hType', hEvaluated.type, hFound.type]
  · have hHere : s.view.Refers shown.reference y.children := hEvaluated.refers
    have hThere : t.view.Refers shown'.reference y.children := hFound.refers
    cases hChildren : y.children with
    | none =>
      rw [hChildren] at hHere hThere
      exact ⟨iff_of_true hHere hThere, absurd hHere⟩
    | some r =>
      rw [hChildren] at hHere hThere
      exact ⟨iff_of_false hHere.1 hThere.1, fun _ => ⟨r, hHere.2, hThere.2⟩⟩

/-- On a machine that stands still and refuses nothing, a path is evaluated to the variable to which a client gets by
its names, unless the first of them is empty. -/
theorem evaluating_is_navigating {t : Session} {y : Debuggee} {handle' : Int} (hForthcoming : Forthcoming reply)
    (hEvaluates : Watches reply s x) (hFrame : s.view.frame handle = .ok frame)
    (hNavigates : Watches reply t y) (hFrame' : t.view.frame handle' = .ok frame)
    (others : (c : Call) → Answer c) (expression : String) :
    let evaluated := performed reply others (serveEvaluate ⟨expression, some handle⟩) s x
    let navigated := performed reply others (navigate handle' (Debuggee.segments expression)) t y
    ∃ answer found, evaluated.1 = some answer ∧ navigated.1 = some (.ok found) ∧
      match if (Debuggee.segments expression).head? = some "" then none else found with
      | none => answer = .error (.notFound s!"{trim expression} is not in scope")
      | some shown => ∃ body, answer = .ok (some body) ∧ SameVariable evaluated.2.1 navigated.2.1 body shown := by
  intro evaluated navigated
  obtain ⟨first, rest, hSegments⟩ : ∃ first rest, Debuggee.segments expression = first :: rest := by
    refine List.exists_cons_of_ne_nil ?_
    unfold Debuggee.segments
    simpa using splitBy_ne_nil _ _
  have hDefinite : Debuggee.Definite reply (Debuggee.follow (Debuggee.allLocals frame) (first :: rest)) :=
    Debuggee.definite_follow ..
  obtain ⟨_, hFollow, hSucceeds⟩ := hDefinite
  obtain ⟨found, rfl⟩ := hSucceeds hForthcoming
  obtain ⟨path, hPath⟩ : ∃ path, trim expression = path := ⟨_, rfl⟩
  have hNames : Debuggee.pathNames path = first :: rest := by
    rw [← hPath, Debuggee.pathNames_trim, hSegments]
  obtain ⟨answer, s', x', hEvaluated, hAnswer⟩ := performed_of_ensures others
    (ensures_serveEvaluate hPath (Debuggee.settles_evaluate hNames hFollow) hEvaluates hFrame)
  obtain ⟨_, t', y', hNavigated, shown, rfl, hShown⟩ := performed_of_ensures others
    (ensures_navigate hFollow hNavigates hFrame')
  rw [← hSegments] at hNavigated
  refine ⟨answer, shown.map (·.json), congrArg (·.1) hEvaluated, congrArg (·.1) hNavigated, ?_⟩
  have hHere : evaluated.2.1 = s' := congrArg (·.2.1) hEvaluated
  have hThere : navigated.2.1 = t' := congrArg (·.2.1) hNavigated
  rw [hHere, hThere, hSegments, hPath]
  simp only [List.head?_cons, Option.some.injEq]
  by_cases hFirst : first = ""
  · rw [if_pos hFirst] at hAnswer ⊢
    exact hAnswer
  · rw [if_neg hFirst] at hAnswer ⊢
    cases hShown with
    | none => exact hAnswer
    | some hDisplays =>
      obtain ⟨shown', rfl, hDisplays'⟩ := hAnswer
      exact ⟨_, rfl, sameVariable_of_displays hDisplays' hDisplays⟩

/-! A session that has shown the frame of the point. -/

section Point

open Debuggee (pointFrame pointReply)

def pointSession : Session :=
  { debuggee := some 0, view := (ClientView.addFrame {} ⟨"Point.shift", none, pointFrame⟩).2 }

def pointDebuggee : Debuggee := { origin := .attached, book := {}, placer := { index := {}, root := ⟨""⟩ } }

theorem watches_point (reply : Jdwp.Command → Except Jdwp.Error Jdwp.Reply) :
    Watches reply pointSession pointDebuggee where
  debuggee := rfl
  numbered := ⟨[], .fresh⟩
  learnt := Debuggee.learnt_of_unlearnt rfl

theorem frame_point : pointSession.view.frame 1 = .ok pointFrame := rfl

/-- Nobody but the debuggee does anything. -/
def silent : (c : Call) → Answer c
  | .drive _ r => r.failed .noDebuggee
  | .build c => c.failed .noDebuggee
  | .files => .folder []
  | .openLog _ => .error ⟨.other, "closed"⟩
  | .launch .. | .attach .. => .error .noDebuggee

theorem field_of_point_is_navigated :
    let evaluated := performed pointReply silent (serveEvaluate ⟨" this . x", some 1⟩) pointSession pointDebuggee
    let navigated := performed pointReply silent (navigate 1 ["this", "x"]) pointSession pointDebuggee
    ∃ body found, evaluated.1 = some (.ok (some body)) ∧ navigated.1 = some (.ok (some found)) ∧
      SameVariable evaluated.2.1 navigated.2.1 body found ∧ found.textAt? "value" = some "4" := by
  have hValue : (performed pointReply silent (navigate 1 ["this", "x"]) pointSession pointDebuggee).1.map
      (·.map (·.bind (·.textAt? "value"))) = some (.ok (some "4")) := by decide +kernel
  have hSegments : Debuggee.segments " this . x" = ["this", "x"] := by decide +kernel
  obtain ⟨answer, found, hEvaluated, hNavigated, hSame⟩ :=
    evaluating_is_navigating Debuggee.forthcoming_point (watches_point pointReply) frame_point (watches_point pointReply)
      frame_point silent " this . x"
  rw [hSegments] at hNavigated hSame
  rw [hNavigated] at hValue
  cases found with
  | none => cases hValue
  | some found =>
    obtain ⟨body, rfl, hSame⟩ := hSame
    exact ⟨body, found, hEvaluated, hNavigated, hSame, Except.ok.inj (Option.some.inj hValue)⟩

/-- The same machine, but the one variable of its table has no name. It holds the point. -/
def hiddenReply (c : Jdwp.Command) : Except Jdwp.Error Jdwp.Reply :=
  match c.set, c.number with
  | 6, 2 => .ok ⟨1, 0, Jdwp.Layout.i32 2 ++ Jdwp.Layout.count 1 ++ Jdwp.Layout.u64 0 ++ Jdwp.Layout.string "" ++
      Jdwp.Layout.string "LPoint;" ++ Jdwp.Layout.u32 10 ++ Jdwp.Layout.u32 1⟩
  | _, _ => pointReply c

theorem forthcoming_hidden : Forthcoming hiddenReply where
  this := Debuggee.forthcoming_point.this
  table l e hRefused := by
    have hTable : Debuggee.told hiddenReply (Debuggee.tableQuery l) = .ok [⟨0, "", "LPoint;", 10, 1⟩] := by
      change Debuggee.told hiddenReply (Debuggee.tableQuery pointFrame.location) = .ok [⟨0, "", "LPoint;", 10, 1⟩]
      decide +kernel
    cases hTable.symm.trans hRefused
  values := Debuggee.forthcoming_point.values
  classOf := Debuggee.forthcoming_point.classOf
  signature := Debuggee.forthcoming_point.signature
  fields := Debuggee.forthcoming_point.fields
  objectValues := Debuggee.forthcoming_point.objectValues
  text := Debuggee.forthcoming_point.text
  length := Debuggee.forthcoming_point.length
  elements := Debuggee.forthcoming_point.elements

/-- A path does not begin at a variable without a name, though a client gets to its fields. -/
theorem field_of_nameless_not_evaluated :
    Forthcoming hiddenReply ∧ Watches hiddenReply pointSession pointDebuggee ∧
      pointSession.view.frame 1 = .ok pointFrame ∧ Debuggee.segments ".x" = ["", "x"] ∧
      (performed hiddenReply silent (navigate 1 ["", "x"]) pointSession pointDebuggee).1.map
        (·.map (·.bind (·.textAt? "value"))) = some (.ok (some "4")) ∧
      (performed hiddenReply silent (serveEvaluate ⟨".x", some 1⟩) pointSession pointDebuggee).1.map
        (·.map (·.bind (·.textAt? "result"))) = some (.error (.notFound ".x is not in scope")) := by
  refine ⟨forthcoming_hidden, watches_point hiddenReply, frame_point, ?_, ?_, ?_⟩ <;> decide +kernel

end Point

end Session
end JvmDebug
