import JvmDebug.Proofs.Debuggee.Inspecting
import JvmDebug.Proofs.Debuggee.Lines
import JvmDebug.Proofs.Path
import JvmDebug.Proofs.Placement.Overlap
import JvmDebug.Proofs.SourceIndex
import JvmDebug.Proofs.Text.Pieces

/-!
# Sources and places in the code

Breakpoints of a source are placed in the classes that are listed for it, and in those that are nested in them. A thread
that stands in such a class is shown in the source that the index leads back to: under the path at which the client set
the breakpoints, if the class is listed itself or its outermost class is listed for the same source.
-/

namespace JvmDebug.SourceIndex
set_option autoImplicit false

variable {listed : List (Path × String)} {s : Path} {n c : String}

/-! ## Classes that lead back -/

theorem outermost_of_nested (h : c.toList ++ ['$'] <+: n.toList) : outermost n = outermost c := by
  obtain ⟨rest, hRest⟩ := h
  rw [List.append_assoc] at hRest
  rw [outermost, ← hRest, List.singleton_append, takeWhile_ne_append]
  rfl

/-- A class of a source leads back to it exactly if it is listed, or its outermost class is listed for that source. -/
theorem source?_iff (hOnce : ListedOnce listed) (hListed : c ∈ (ofListed listed).binaryNames s)
    (hWithin : c = n ∨ c.toList ++ ['$'] <+: n.toList) (hOther : ∀ e ∈ listed, e.2 = n → n = c) :
    (∃ r, (ofListed listed).source? n = some r ∧ (r == s) = true) ↔
      n = c ∨ outermost c ∈ (ofListed listed).binaryNames s := by
  rcases hWithin with rfl | hNested
  · obtain ⟨r, hSome, hSame⟩ := (listed?_iff hOnce).mpr hListed
    exact iff_of_true ⟨r, by rw [source?, hSome]; rfl, hSame⟩ (.inl rfl)
  · have hNot : n ≠ c := by
      rintro rfl
      have hLength := hNested.length_le
      rw [List.length_append, List.length_singleton] at hLength
      omega
    have hUnlisted : (ofListed listed).listed? n = none := by
      have hSpec := listed?_spec listed n
      split at hSpec
      · exact absurd (hOther _ hSpec rfl) hNot
      · assumption
    rw [or_iff_right hNot, source?, hUnlisted, Option.none_or, outermost_of_nested hNested]
    exact listed?_iff hOnce

end JvmDebug.SourceIndex

namespace JvmDebug.Debuggee
set_option autoImplicit false

open Jdwp (LineTable Location Query)
open SourceIndex (ListedOnce ofListed outermost)

variable {replied : Replying} {index : SourceIndex} {root p r s : Path} {listed : List (Path × String)} {c n : String}
  {l : Location} {t : LineTable} {line : UInt32}

/-- To look at a machine where sources are found by this index, below this root. -/
def findingBy (replied : Replying) (index : SourceIndex) (root : Path) : Phases Unit Debuggee World :=
  (finding replied).also fun d => d.placer.index = index ∧ d.placer.root = root

theorem Finds.by {α ε : Type} {found : Except ε α → Prop} {w : Attempt ε Debuggee World α}
    (h : Finds replied found w) (hMuses : w.run.Within musing fun _ => True) :
    w.run.Passes (findingBy replied index root) (fun a _ => found a) () := by
  refine Routine.Passes.also h hMuses rfl ?_
  rintro d _ ⟨types, detailField, pendingSteps, rfl⟩
  exact id

/-- What a machine tells of a place in a class of this name: the line there. -/
structure TellsPlace (replied : Replying) (l : Location) (n : String) (t : LineTable) (line : UInt32) : Prop where
  lines : ∀ a, Answered replied (Query.lineTable l.classId l.methodId) a → a = .ok t
  line : (t.lineAt? l.index).bind lineNumber? = some line
  name : ∀ a, Answered replied (Query.signature l.classId) a → ∃ s, a = .ok s ∧ Jdwp.Signature.binaryName s = n

theorem sourcePath_listed (hSource : index.source? n = some r) :
    (sourcePath l.classId n).run.Passes (findingBy replied index root) (fun a _ => a = .ok (root.join r)) () := by
  have hFinds : (ExceptT.lift Routine.get : Exchange Debuggee).run.Passes (findingBy replied index root)
      (fun a _ => ∃ d, a = .ok d ∧ d.placer.index = index ∧ d.placer.root = root) () :=
    fun d hFits => ⟨(), hFits, d, rfl, hFits.2⟩
  refine Attempt.passes_bind (hFinds.mono ?_)
  rintro _ _ ⟨d, rfl, rfl, rfl⟩
  rw [Attempt.andThen_ok, hSource]
  rfl

/-- A place in the class is shown in the source that the index has for it. -/
theorem positionOf_listed (hTells : TellsPlace replied l n t line) (hSource : index.source? n = some r) :
    (positionOf l).Passes (findingBy replied index root)
      (fun position _ => position = some ⟨.ofPath (root.join r), line, none⟩) () := by
  have hName : Finds replied (· = .ok n) (binaryName l.classId) := by
    refine (finds_signature l.classId).bind (fun s hTold => ?_) fun e hRefused => ?_
    · obtain ⟨_, ⟨⟩, rfl⟩ := hTells.name _ hTold
      exact finds_pure rfl
    · obtain ⟨_, ⟨⟩, -⟩ := hTells.name _ hRefused
  have hPath : (do sourcePath l.classId (← binaryName l.classId) : Exchange Path).run.Passes
      (findingBy replied index root) (fun a _ => a = .ok (root.join r)) () := by
    refine Attempt.passes_bind ((hName.by ((inspects_binaryName l.classId).within looking_musing)).mono ?_)
    rintro _ _ rfl
    exact sourcePath_listed hSource
  refine (passes_positionOf ((finds_query hTells.lines).by (muses_query rfl)) hTells.line hPath).mono ?_
  rintro _ _ ⟨_, rfl, rfl⟩
  rfl

/-- A class that is found for a source leads back to it exactly if it is listed itself, or its outermost class is listed
for the same source. Then each place in it that has a line is shown at the path that the client has for the source. -/
theorem classes_lead_back_iff (hOnce : ListedOnce listed) (hListed : c ∈ (ofListed listed).binaryNames s)
    (hWithin : Within c n) (hOther : ∀ e ∈ listed, e.2 = n → n = c) :
    ((∃ r, (ofListed listed).source? n = some r ∧ (r == s) = true) ↔
      n = c ∨ outermost c ∈ (ofListed listed).binaryNames s) ∧
    (n = c ∨ outermost c ∈ (ofListed listed).binaryNames s → ∀ replied root p l t line, p.below? root = some s →
      TellsPlace replied l n t line → (positionOf l).Passes (findingBy replied (ofListed listed) root)
        (fun position _ => ∃ shown, position = some shown ∧ (shown.source.path == p) = true ∧ shown.line = line) ()) := by
  have hIff := SourceIndex.source?_iff hOnce hListed hWithin hOther
  refine ⟨hIff, fun hLeads replied root p l t line hBelow hTells => ?_⟩
  obtain ⟨r, hSource, hSame⟩ := hIff.mpr hLeads
  refine (positionOf_listed hTells hSource).mono ?_
  rintro _ _ rfl
  exact ⟨_, rfl, Path.join_below? hBelow hSame, rfl⟩

/-! A source that lists a class and one that is nested in it, and a source that lists the nested class alone. -/

section Nested

def loopListed : List (Path × String) :=
  [(⟨"src/Loop.java"⟩, "Loop"), (⟨"src/./Loop.java"⟩, "Loop$Step"), (⟨"src/Other.java"⟩, "Other")]

def stepReply (c : Jdwp.Command) : Except Jdwp.Error Jdwp.Reply :=
  if (c.set, c.number) = (2, 1) then .ok ⟨1, 0, Jdwp.Layout.string "LLoop$Step$1;"⟩ else loopReply c

def stepPlace : Location := ⟨1, 7, 2, 5⟩

theorem tellsPlace_step : TellsPlace (still stepReply) stepPlace "Loop$Step$1"
    ⟨0, 15, [⟨9, 4⟩, ⟨0, 3⟩, ⟨5, 4⟩, ⟨12, 3⟩]⟩ 4 where
  lines _ hTold := hTold.only (by decide +kernel)
  line := by decide +kernel
  name a hTold := ⟨"LLoop$Step$1;", hTold.only (by decide +kernel), by decide +kernel⟩

theorem nested_class_leads_back :
    (∃ r, (ofListed loopListed).source? "Loop$Step$1" = some r ∧ (r == ⟨"src/Loop.java"⟩) = true) ∧
      (positionOf stepPlace).Passes (findingBy (still stepReply) (ofListed loopListed) ⟨"/w/"⟩)
        (fun position _ => ∃ shown, position = some shown ∧ (shown.source.path == ⟨"/w//src/Loop.java"⟩) = true ∧
          shown.line = 4) () := by
  have hOnce : ListedOnce loopListed := by
    unfold ListedOnce
    decide +kernel
  have hListed : "Loop$Step" ∈ (ofListed loopListed).binaryNames ⟨"src/Loop.java"⟩ := by decide +kernel
  have hOuter : outermost "Loop$Step" ∈ (ofListed loopListed).binaryNames ⟨"src/Loop.java"⟩ := by decide +kernel
  have hBelow : (Path.mk "/w//src/Loop.java").below? ⟨"/w/"⟩ = some ⟨"src/Loop.java"⟩ := by cbv
  have hWithin : Within "Loop$Step" "Loop$Step$1" := .inr ⟨['1'], by decide⟩
  obtain ⟨hLeads, hShown⟩ := classes_lead_back_iff hOnce hListed hWithin (by decide)
  exact ⟨hLeads.mpr (.inr hOuter), hShown (.inr hOuter) _ _ _ _ _ _ hBelow tellsPlace_step⟩

/-- A class leads nowhere whose outermost class is not listed, though it is found by the one that is. -/
theorem nested_class_leads_nowhere :
    ∃ listed s c n, ListedOnce listed ∧ c ∈ (ofListed listed).binaryNames s ∧ Within c n ∧
      (∀ e ∈ listed, e.2 ≠ c → e.2 ≠ n ∧ ¬(c.length < e.2.length ∧ e.2.toList ++ ['$'] <+: n.toList)) ∧
      ((ofListed listed).source? n).isNone := by
  refine ⟨[(⟨"a/S.kt"⟩, "A$B")], ⟨"a/S.kt"⟩, "A$B", "A$B$1", ?_, ?_, .inr ⟨['1'], by decide⟩, ?_, ?_⟩
  · unfold ListedOnce
    decide +kernel
  · decide +kernel
  · decide
  · decide +kernel

end Nested

end JvmDebug.Debuggee
