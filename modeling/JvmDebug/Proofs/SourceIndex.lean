import JvmDebug.Proofs.Path
import JvmDebug.SourceIndex.Scan
import Mathlib.Data.List.Induction
import Mathlib.Data.List.Sort
import Mathlib.Data.String.Basic

/-!
# What an index tells

An index is made of what is listed: sources, each with the name of one of its classes. The names of a source are those
that are listed for it, in whatever spelling of its path, in order and each once; the source of a listed class is one
that lists it.

So it makes no difference in which order a scan meets the files that list them, how often it meets one of them, or which
others it passes over. Only a class that several sources list comes from the one that was met last.
-/

namespace JvmDebug.SourceIndex
set_option autoImplicit false

variable {index : SourceIndex} {listed listed' : List (Path × String)} {s source : Path} {name n : String}

/-- The index of what is listed. -/
def ofListed (listed : List (Path × String)) : SourceIndex := listed.foldl (fun index e => index.insert e.1 e.2) {}

theorem ofListed_snoc (listed : List (Path × String)) (e : Path × String) :
    ofListed (listed ++ [e]) = (ofListed listed).insert e.1 e.2 := by
  rw [ofListed, List.foldl_append]
  rfl

/-! ## Names of a source -/

theorem mem_insertName {names : List String} : n ∈ insertName name names ↔ n = name ∨ n ∈ names := by
  induction names with
  | nil => simp [insertName]
  | cons m rest ih =>
    rw [insertName]
    split
    · simp
    · split
      · next hSame => simp [hSame]
      · rw [List.mem_cons, ih, List.mem_cons, or_left_comm]

theorem binaryNames_insert : (index.insert source name).binaryNames s =
    if source == s then insertName name (index.binaryNames source) else index.binaryNames s := by
  rw [binaryNames, insert, PathMap.find?_insert]
  split <;> rfl

theorem mem_binaryNames_insert :
    n ∈ (index.insert source name).binaryNames s ↔ (source == s) = true ∧ n = name ∨ n ∈ index.binaryNames s := by
  rw [binaryNames_insert]
  split
  · next hSame =>
    rw [mem_insertName, binaryNames, PathMap.find?_congr _ hSame]
    simp [hSame, binaryNames]
  · next hOther => simp [hOther]

theorem mem_binaryNames : n ∈ (ofListed listed).binaryNames s ↔ ∃ e ∈ listed, (e.1 == s) = true ∧ e.2 = n := by
  induction listed using List.reverseRecOn with
  | nil => simp [ofListed, binaryNames]
  | append_singleton listed e ih =>
    rw [ofListed_snoc, mem_binaryNames_insert, ih]
    constructor
    · rintro (⟨hSource, rfl⟩ | ⟨e', hMem, hListed⟩)
      · exact ⟨e, by simp, hSource, rfl⟩
      · exact ⟨e', by simp [hMem], hListed⟩
    · rintro ⟨e', hMem, hSource, rfl⟩
      rcases List.mem_append.mp hMem with hMem | hMem
      · exact .inr ⟨e', hMem, hSource, rfl⟩
      · obtain rfl := List.mem_singleton.mp hMem
        exact .inl ⟨hSource, rfl⟩

theorem sorted_insertName {names : List String} (h : names.Pairwise (· < ·)) :
    (insertName name names).Pairwise (· < ·) := by
  induction names with
  | nil => exact List.pairwise_singleton _ _
  | cons m rest ih =>
    obtain ⟨hLeast, hRest⟩ := List.pairwise_cons.mp h
    rw [insertName]
    split
    · next hBefore =>
      refine List.pairwise_cons.mpr ⟨fun k hk => ?_, h⟩
      rcases List.mem_cons.mp hk with rfl | hk
      · exact hBefore
      · exact hBefore.trans (hLeast k hk)
    · next hNotBefore =>
      split
      · exact h
      · next hOther =>
        refine List.pairwise_cons.mpr ⟨fun k hk => ?_, ih hRest⟩
        rcases mem_insertName.mp hk with rfl | hk
        · exact lt_of_le_of_ne (not_lt.mp hNotBefore) hOther
        · exact hLeast k hk

theorem sorted_binaryNames : ((ofListed listed).binaryNames s).Pairwise (· < ·) := by
  induction listed using List.reverseRecOn generalizing s with
  | nil => exact .nil
  | append_singleton listed e ih =>
    rw [ofListed_snoc, binaryNames_insert]
    split
    · exact sorted_insertName ih
    · exact ih

/-- The names of a source depend on nothing but what is listed. -/
theorem binaryNames_congr (hSame : ∀ e, e ∈ listed ↔ e ∈ listed') :
    (ofListed listed).binaryNames s = (ofListed listed').binaryNames s := by
  refine sorted_binaryNames.eq_of_mem_iff sorted_binaryNames fun n => ?_
  simp only [mem_binaryNames, hSame]

/-! ## Sources of a class -/

theorem listed?_insert :
    (index.insert source name).listed? n = if name = n then some source else index.listed? n := by
  unfold listed? insert
  rw [List.find?_cons]
  by_cases hSame : name = n
  · simp [hSame]
  · have hKeeps : (index.byClass.filter (·.1 ≠ name)).find? (·.1 = n) = index.byClass.find? (·.1 = n) := by
      rw [List.find?_filter]
      congr 1
      funext e
      by_cases hName : e.1 = n
      · simp [hName, Ne.symm hSame]
      · simp [hName]
    rw [if_neg hSame, hKeeps]
    simp [hSame]

theorem listed?_spec (listed : List (Path × String)) (n : String) :
    match (ofListed listed).listed? n with
    | some source => (source, n) ∈ listed
    | none => ∀ e ∈ listed, e.2 ≠ n := by
  induction listed using List.reverseRecOn with
  | nil => exact nofun
  | append_singleton listed e ih =>
    rw [ofListed_snoc, listed?_insert]
    by_cases hSame : e.2 = n
    · rw [if_pos hSame, ← hSame]
      simp
    · rw [if_neg hSame]
      split at ih
      · exact List.mem_append_left _ ih
      · intro e' he'
        rcases List.mem_append.mp he' with he' | he'
        · exact ih e' he'
        · rwa [List.mem_singleton.mp he']

/-- No name is listed for two sources. -/
def ListedOnce (listed : List (Path × String)) : Prop :=
  ∀ e ∈ listed, ∀ e' ∈ listed, e.2 = e'.2 → (e.1 == e'.1) = true

/-- A class that is listed for one source comes from it. -/
theorem listed?_iff (hOnce : ListedOnce listed) :
    (∃ r, (ofListed listed).listed? n = some r ∧ (r == s) = true) ↔ n ∈ (ofListed listed).binaryNames s := by
  rw [mem_binaryNames]
  have hSpec := listed?_spec listed n
  constructor
  · rintro ⟨r, hSome, hSame⟩
    rw [hSome] at hSpec
    exact ⟨_, hSpec, hSame, rfl⟩
  · rintro ⟨e, hMem, hSource, rfl⟩
    split at hSpec
    · next r hSome => exact ⟨r, hSome, BEq.trans (hOnce _ hSpec e hMem rfl) hSource⟩
    · exact absurd rfl (hSpec e hMem)

/-- Two paths that are one, or no path twice. -/
abbrev SamePath : Option Path → Option Path → Prop := Option.Rel fun r r' => (r == r') = true

theorem listed?_congr (hOnce : ListedOnce listed) (hSame : ∀ e, e ∈ listed ↔ e ∈ listed') (n : String) :
    SamePath ((ofListed listed).listed? n) ((ofListed listed').listed? n) := by
  have hSpec := listed?_spec listed n
  have hSpec' := listed?_spec listed' n
  split at hSpec
  · next r hSome =>
    split at hSpec'
    · next r' hSome' =>
      rw [hSome, hSome']
      exact .some (hOnce _ hSpec _ ((hSame _).mpr hSpec') rfl)
    · exact absurd rfl (hSpec' _ ((hSame _).mp hSpec))
  · next hNone =>
    split at hSpec'
    · exact absurd rfl (hSpec _ ((hSame _).mpr hSpec'))
    · next hNone' =>
      rw [hNone, hNone']
      exact .none

theorem source?_congr (hOnce : ListedOnce listed) (hSame : ∀ e, e ∈ listed ↔ e ∈ listed') (n : String) :
    SamePath ((ofListed listed).source? n) ((ofListed listed').source? n) := by
  have hExact := listed?_congr hOnce hSame n
  have hOuter := listed?_congr hOnce hSame (outermost n)
  unfold source?
  generalize (ofListed listed).listed? n = r at hExact ⊢
  generalize (ofListed listed').listed? n = r' at hExact ⊢
  cases hExact with
  | some hPath => exact .some hPath
  | none => exact hOuter

/-! ## Scanning -/

/-- What a target lists. -/
def listing (target : List TargetSource) : List (Path × String) :=
  target.flatMap fun s => s.names.map fun name => (⟨s.path⟩, name)

theorem addTarget_eq (index : SourceIndex) (target : List TargetSource) :
    index.addTarget target = (listing target).foldl (fun index e => index.insert e.1 e.2) index := by
  simp only [addTarget, listing, List.foldl_flatMap, List.foldl_map]

theorem ofTargets_eq (targets : List (List TargetSource)) : ofTargets targets = ofListed (targets.flatMap listing) := by
  simp only [ofTargets, ofListed, List.foldl_flatMap, ← addTarget_eq]

/-- The index of target files in the order in which they are met. Those that cannot be read are passed over. -/
def ofMet (met : List (Except String (List TargetSource))) : SourceIndex := ofTargets (met.filterMap (·.toOption))

/-- What is listed in the files that are met. -/
def listedIn (met : List (Except String (List TargetSource))) : List (Path × String) :=
  (met.filterMap (·.toOption)).flatMap listing

variable {met met' : List (Except String (List TargetSource))}

theorem ofMet_eq (met : List (Except String (List TargetSource))) : ofMet met = ofListed (listedIn met) := ofTargets_eq _

theorem mem_listedIn {e : Path × String} : e ∈ listedIn met ↔ ∃ target, .ok target ∈ met ∧ e ∈ listing target := by
  have hRead : ∀ (a : Except String (List TargetSource)) target, a.toOption = some target ↔ a = .ok target := by
    rintro (_ | _) target <;> simp [Except.toOption]
  simp only [listedIn, List.mem_flatMap, List.mem_filterMap, hRead, exists_eq_right]

/-- No name is listed for two sources. -/
def NamesApart (index : SourceIndex) : Prop :=
  ∀ n s s', n ∈ index.binaryNames s → n ∈ index.binaryNames s' → (s == s') = true

theorem namesApart_iff : NamesApart (ofListed listed) ↔ ListedOnce listed := by
  constructor
  · intro h e he e' he' hName
    exact h e.2 e.1 e'.1 (mem_binaryNames.mpr ⟨e, he, BEq.rfl, rfl⟩) (mem_binaryNames.mpr ⟨e', he', BEq.rfl, hName.symm⟩)
  · intro h n s s' hMem hMem'
    obtain ⟨e, he, hSource, rfl⟩ := mem_binaryNames.mp hMem
    obtain ⟨e', he', hSource', hName⟩ := mem_binaryNames.mp hMem'
    exact BEq.trans (BEq.symm hSource) (BEq.trans (h e he e' he' hName.symm) hSource')

/-- Two indexes that tell the same. Where a class comes from they need agree on only if no name is listed for two sources. -/
structure Agree (index index' : SourceIndex) : Prop where
  names : ∀ s, index.binaryNames s = index'.binaryNames s
  sources : index.NamesApart → ∀ n, SamePath (index.source? n) (index'.source? n)

/-- The names of each source are in order, none of them twice, and they are the names that have a source of their own. -/
structure Orderly (index : SourceIndex) : Prop where
  sorted : ∀ s, (index.binaryNames s).Pairwise (· < ·)
  listed : ∀ n s, index.listed? n = some s → index.source? n = some s ∧ n ∈ index.binaryNames s
  exact : ∀ n s, n ∈ index.binaryNames s → ∃ r, index.listed? n = some r

theorem orderly_ofListed (listed : List (Path × String)) : Orderly (ofListed listed) where
  sorted _ := sorted_binaryNames
  listed n s hSome := by
    have hSpec := listed?_spec listed n
    rw [hSome] at hSpec
    exact ⟨by rw [source?, hSome]; rfl, mem_binaryNames.mpr ⟨_, hSpec, BEq.rfl, rfl⟩⟩
  exact n s hMem := by
    obtain ⟨e, he, -, rfl⟩ := mem_binaryNames.mp hMem
    have hSpec := listed?_spec listed e.2
    split at hSpec
    · next r hSome => exact ⟨r, hSome⟩
    · exact absurd rfl (hSpec e he)

theorem agree_ofMet (hSame : ∀ target, .ok target ∈ met ↔ .ok target ∈ met') : Agree (ofMet met) (ofMet met') := by
  have hListed : ∀ e, e ∈ listedIn met ↔ e ∈ listedIn met' := fun e => by simp only [mem_listedIn, hSame]
  rw [ofMet_eq, ofMet_eq]
  exact {
    names := fun _ => binaryNames_congr hListed
    sources := fun hApart => source?_congr (namesApart_iff.mp hApart) hListed }

/-- An index tells the same in whatever order a scan meets the target files, however often it meets one of them, and
whatever it passes over. -/
theorem index_in_any_order :
    (∀ tree workspace, scan tree workspace = ofMet ((targetFiles tree workspace).map (·.2))) ∧
    (∀ met met', (∀ target, .ok target ∈ met ↔ .ok target ∈ met') → Agree (ofMet met) (ofMet met')) ∧
    (∀ front why back, ofMet (front ++ .error why :: back) = ofMet (front ++ back)) ∧
    ∀ met, Orderly (ofMet met) := by
  refine ⟨fun tree workspace => ?_, fun met met' => agree_ofMet, fun front why back => ?_, fun met => ?_⟩
  · rw [scan, ofMet, List.filterMap_map]
    rfl
  · simp only [ofMet, List.filterMap_append, List.filterMap_cons, Except.toOption]
  · rw [ofMet_eq]
    exact orderly_ofListed _

/-! A source of two targets, under two spellings of its path. -/

section Main

def mainTarget : List TargetSource := [⟨"app/Main.kt", ["MainKt", "Greeter"]⟩]
def lambdaTarget : List TargetSource := [⟨"app//Main.kt", ["MainKt$1", "MainKt"]⟩]

def mainMet : List (Except String (List TargetSource)) := [.ok mainTarget, .ok lambdaTarget]
def lambdaMet : List (Except String (List TargetSource)) :=
  [.ok lambdaTarget, .error "EOF while parsing a value at line 1 column 0", .ok mainTarget, .ok lambdaTarget]

theorem main_in_any_order :
    (ofMet lambdaMet).binaryNames ⟨"app/./Main.kt"⟩ = ["Greeter", "MainKt", "MainKt$1"] ∧
      SamePath ((ofMet mainMet).source? "MainKt") ((ofMet lambdaMet).source? "MainKt") := by
  have hAgree : Agree (ofMet mainMet) (ofMet lambdaMet) :=
    index_in_any_order.2.1 _ _ fun target => by simp [mainMet, lambdaMet, or_comm]
  have hApart : NamesApart (ofMet mainMet) := by
    rw [ofMet_eq, namesApart_iff, ListedOnce]
    decide +kernel
  have hNames : (ofMet mainMet).binaryNames ⟨"app/./Main.kt"⟩ = ["Greeter", "MainKt", "MainKt$1"] := by decide +kernel
  exact ⟨(hAgree.names _).symm.trans hNames, hAgree.sources hApart _⟩

/-- A class of two sources comes from the one that is met last. -/
example :
    ((ofMet [.ok [⟨"A.kt", ["Main"]⟩], .ok [⟨"B.kt", ["Main"]⟩]]).source? "Main").map (·.text) = some "B.kt" ∧
      ((ofMet [.ok [⟨"B.kt", ["Main"]⟩], .ok [⟨"A.kt", ["Main"]⟩]]).source? "Main").map (·.text) = some "A.kt" := by
  decide +kernel

end Main

end JvmDebug.SourceIndex
