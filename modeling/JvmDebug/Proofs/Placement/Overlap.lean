import JvmDebug.Proofs.Placement.Account

/-!
# How often a class is visited

A source has two patterns for each of its candidates: the name itself, and the names of nested classes. A class that is
prepared once is visited at most as often as there are patterns that match its name, for a name that was found loaded is
not watched for.
-/

namespace JvmDebug
set_option autoImplicit false

open Jdwp (LoadedClass Location RequestId)
open Backend (History Sound covers liveWatches loaded preparations reports reportsFrom reportsOf watching)

variable {h g : History} {name : String} {c : LoadedClass}

/-! Reports of one class -/

namespace Backend

theorem prepared_of_mem_reportsFrom {live : List (RequestId × String)} {x : RequestId × LoadedClass}
    (hx : x ∈ reportsFrom live h) : x.2 ∈ (preparations h).map (·.2) := by
  induction h generalizing live with
  | nil => cases hx
  | cons y rest ih =>
    have hPreparations : preparations (y :: rest) = preparations [y] ++ preparations rest :=
      preparations_append (h := [y])
    rw [hPreparations, List.map_append, List.mem_append]
    rcases List.mem_append.mp hx with hx | hx
    · cases y with
      | answered _ _ => cases hx
      | prepared name c =>
        obtain ⟨w, -, rfl⟩ := List.mem_map.mp hx
        exact .inl (List.mem_singleton_self c)
    · exact .inr (ih hx)

/-- A class that is prepared once is reported by the watches that match it at that moment, and by no others. -/
theorem filter_reports (hOnce : ((preparations h).map (·.2)).Nodup) (hPrepared : g ++ [.prepared name c] <+: h) :
    (reports h).filter (·.2 = c) = (watching g name).map (·, c) := by
  obtain ⟨k, rfl⟩ := hPrepared
  rw [preparations_append, preparations_append, List.map_append, List.map_append, List.nodup_append,
    List.nodup_append] at hOnce
  obtain ⟨⟨-, -, hBefore⟩, -, hAfter⟩ := hOnce
  have hNone : ∀ live k, c ∉ (preparations k).map (·.2) → (reportsFrom live k).filter (·.2 = c) = [] := by
    intro live k hNot
    rw [List.filter_eq_nil_iff]
    intro x hx hEq
    have hMem := prepared_of_mem_reportsFrom hx
    rw [of_decide_eq_true hEq] at hMem
    exact hNot hMem
  rw [reports_append, reports_snoc, List.filter_append, List.filter_append, hNone _ k, List.append_nil, reports,
    hNone _ g, List.nil_append]
  · simp [reportsOf, watching, List.filter_map, Function.comp_def]
  · exact fun hMem => hBefore c hMem c (by simp [preparations, Happening.preparation?]) rfl
  · exact fun hMem => hAfter c (List.mem_append_right _ (by simp [preparations, Happening.preparation?])) c hMem rfl

theorem covers_self (name : String) : covers name name = true := by
  unfold covers
  split
  · rename_i rest hName
    rw [hName]
    exact List.isSuffixOf_iff_suffix.mpr (List.suffix_cons '*' rest)
  · split
    · exact List.isPrefixOf_iff_prefix.mpr (List.dropLast_prefix _)
    · exact decide_eq_true rfl

end Backend

/-- The patterns by which a source is found, for all of its candidates. -/
def patternsOf (names : List String) : List String := names.flatMap fun name => [name, Placer.nestedPattern name]

/-! Names that do not overlap -/

/-- A class of a name, or one that is nested in it. -/
def Within (m name : String) : Prop := m = name ∨ m.toList ++ ['$'] <+: name.toList

/-- Names that a source may be compiled into, none of them twice and none of them nested in another. No star stands at
an end of them. -/
structure Flat (names : List String) : Prop where
  distinct : names.Nodup
  plain : ∀ m ∈ names, m.toList.head? ≠ some '*' ∧ m.toList.getLast? ≠ some '*'
  apart : ∀ m ∈ names, ∀ n ∈ names, ¬ m.toList ++ ['$'] <+: n.toList

theorem covers_plain {m name : String} (hFirst : m.toList.head? ≠ some '*') (hLast : m.toList.getLast? ≠ some '*') :
    covers m name = true ↔ m = name := by
  unfold covers
  split
  · rename_i rest hName
    simp [hName] at hFirst
  · rw [if_neg hLast, decide_eq_true_iff, String.toList_inj]

theorem covers_nestedPattern {m name : String} (hFirst : m.toList.head? ≠ some '*') :
    covers (Placer.nestedPattern m) name = true ↔ m.toList ++ ['$'] <+: name.toList := by
  have hChars : (Placer.nestedPattern m).toList = m.toList ++ ['$'] ++ ['*'] := by
    simp [Placer.nestedPattern]
  unfold covers
  rw [hChars]
  split
  · rename_i rest hName
    cases hList : m.toList with
    | nil => simp [hList] at hName
    | cons c cs =>
      rw [hList] at hName hFirst
      cases hName
      exact absurd rfl hFirst
  · rw [if_pos (by simp), List.dropLast_concat, List.isPrefixOf_iff_prefix]

example : covers (Placer.nestedPattern "A") "A$B" = true := by decide +kernel

theorem Within.unique {names : List String} {m m' name : String} (hFlat : Flat names) (hm : m ∈ names)
    (hm' : m' ∈ names) (hWithin : Within m name) (hWithin' : Within m' name) : m = m' := by
  have hNested : ∀ m ∈ names, ∀ m' ∈ names, m.toList ++ ['$'] <+: m'.toList ++ ['$'] → m = m' := by
    intro m hm m' hm' hPrefix
    rcases List.prefix_concat_iff.mp hPrefix with hEq | hPrefix
    · exact String.toList_inj.mp (List.append_cancel_right hEq)
    · exact absurd hPrefix (hFlat.apart m hm m' hm')
  rcases hWithin with rfl | hIn <;> rcases hWithin' with rfl | hIn'
  · rfl
  · exact absurd hIn' (hFlat.apart m' hm' _ hm)
  · exact absurd hIn (hFlat.apart m hm _ hm')
  · rcases List.prefix_or_prefix_of_prefix hIn hIn' with hPrefix | hPrefix
    · exact hNested m hm m' hm' hPrefix
    · exact (hNested m' hm' m hm hPrefix).symm

theorem Flat.tail {m : String} {rest : List String} (hFlat : Flat (m :: rest)) : Flat rest where
  distinct := (List.nodup_cons.mp hFlat.distinct).2
  plain n hn := hFlat.plain n (List.mem_cons_of_mem _ hn)
  apart n hn n' hn' := hFlat.apart n (List.mem_cons_of_mem _ hn) n' (List.mem_cons_of_mem _ hn')

theorem Flat.within_of_covers {names : List String} {m p name : String} (hFlat : Flat names) (hm : m ∈ names)
    (hp : p ∈ [m, Placer.nestedPattern m]) (hCovers : covers p name = true) : Within m name := by
  obtain ⟨hFirst, hLast⟩ := hFlat.plain m hm
  simp only [List.mem_cons, List.not_mem_nil, or_false] at hp
  rcases hp with rfl | rfl
  · exact .inl ((covers_plain hFirst hLast).mp hCovers)
  · exact .inr ((covers_nestedPattern hFirst).mp hCovers)

theorem Flat.countP_pair_le {names : List String} {m : String} (hFlat : Flat names) (hm : m ∈ names) (name : String) :
    [m, Placer.nestedPattern m].countP (covers · name) ≤ 1 := by
  obtain ⟨hFirst, hLast⟩ := hFlat.plain m hm
  by_cases hName : covers m name = true
  · have hOther : ¬ covers (Placer.nestedPattern m) name = true := by
      rw [covers_nestedPattern hFirst, ← (covers_plain hFirst hLast).mp hName]
      exact hFlat.apart m hm m hm
    simp [hName, hOther]
  · simp only [List.countP_cons, List.countP_nil, hName]
    split <;> simp

/-- Where no candidate is nested in another, at most one pattern matches a name. -/
theorem Flat.countP_patternsOf_le {names : List String} (hFlat : Flat names) (name : String) :
    (patternsOf names).countP (covers · name) ≤ 1 := by
  induction names with
  | nil => exact Nat.zero_le 1
  | cons m rest ih =>
    have hPatterns : patternsOf (m :: rest) = [m, Placer.nestedPattern m] ++ patternsOf rest := rfl
    rw [hPatterns, List.countP_append]
    by_cases hWithin : Within m name
    · have hRest : (patternsOf rest).countP (covers · name) = 0 := by
        refine List.countP_eq_zero.mpr fun p hp hCovers => ?_
        obtain ⟨m', hm', hp⟩ := List.mem_flatMap.mp hp
        have hOther := hFlat.within_of_covers (List.mem_cons_of_mem _ hm') hp hCovers
        have hSame := hWithin.unique hFlat List.mem_cons_self (List.mem_cons_of_mem _ hm') hOther
        exact (List.nodup_cons.mp hFlat.distinct).1 (hSame ▸ hm')
      rw [hRest]
      exact hFlat.countP_pair_le List.mem_cons_self name
    · have hFirst : [m, Placer.nestedPattern m].countP (covers · name) = 0 := List.countP_eq_zero.mpr fun p hp hCovers =>
        hWithin (hFlat.within_of_covers List.mem_cons_self hp hCovers)
      rw [hFirst, Nat.zero_add]
      exact ih hFlat.tail

/-! How often a class is visited -/

/-- Where a class is found at each lookup of its name at most once, finding it and watching for it both take a pattern
that matches its name. -/
theorem count_found_add_countP_le {lookups : List Lookup}
    (hFound : ∀ l ∈ lookups, l.found.count c ≤ if l.name = name then 1 else 0) :
    (lookups.flatMap (·.found)).count c + (lookups.flatMap (·.patterns)).countP (covers · name) ≤
      (patternsOf (lookups.map (·.name))).countP (covers · name) := by
  induction lookups with
  | nil => simp [patternsOf]
  | cons l rest ih =>
    have hRest := ih fun l hl => hFound l (List.mem_cons_of_mem _ hl)
    have hFirst : l.found.count c + l.patterns.countP (covers · name) ≤
        [l.name, Placer.nestedPattern l.name].countP (covers · name) := by
      by_cases hNone : l.found = []
      · simp [Lookup.patterns, hNone]
      · have hCount := hFound l List.mem_cons_self
        have hOwn : (if l.name = name then 1 else 0) ≤ [l.name].countP (covers · name) := by
          split
          · rename_i hName
            rw [hName, List.countP_singleton, Backend.covers_self]
            exact Nat.le_refl 1
          · exact Nat.zero_le _
        have hBoth : [l.name, Placer.nestedPattern l.name] = [l.name] ++ [Placer.nestedPattern l.name] := rfl
        rw [Lookup.patterns, if_neg hNone, List.nil_append, hBoth, List.countP_append]
        omega
    have hPatterns : patternsOf ((l :: rest).map (·.name)) =
        [l.name, Placer.nestedPattern l.name] ++ patternsOf (rest.map (·.name)) := rfl
    rw [List.flatMap_cons, List.flatMap_cons, List.count_append, List.countP_append, hPatterns, List.countP_append]
    omega

namespace World

variable {lines : LoadedClass → UInt32 → List Location} {w : World} {path : Path} {i : Installed} {lookups : List Lookup}

theorem Account.count_found_le (hAccount : Account lines w path i lookups)
    (hOnce : ((preparations w.history).map (·.2)).Nodup) (hPrepared : (name, c) ∈ preparations w.history) :
    ∀ l ∈ lookups, l.found.count c ≤ if l.name = name then 1 else 0 := by
  intro l hl
  obtain ⟨k, hk⟩ := (List.prefix_append ..).trans (hAccount.past l hl)
  have hSublist : l.found.Sublist ((preparations w.history).map (·.2)) := by
    rw [← hk, Backend.preparations_append, List.map_append]
    exact (List.filter_sublist.map _).trans (List.sublist_append_left ..)
  split
  · exact List.nodup_iff_count_le_one.mp (hOnce.sublist hSublist) c
  · rename_i hOther
    refine Nat.le_of_eq (List.count_eq_zero.mpr fun hFound => hOther ?_)
    exact congrArg Prod.fst (List.inj_on_of_nodup_map hOnce (hAccount.prepared hl hFound) hPrepared rfl)

theorem Accounted.count_reportedTo_le (hAccounted : Accounted lines w) (hAccount : Account lines w path i lookups)
    (hOnce : ((preparations w.history).map (·.2)).Nodup) (hPrepared : (name, c) ∈ preparations w.history) :
    (w.reportedTo i).count c ≤ (lookups.flatMap (·.patterns)).countP (covers · name) := by
  obtain ⟨g, hMoment⟩ := Backend.mem_preparations.mp hPrepared
  obtain ⟨watched, hWatches, hPatterns, hLive⟩ := hAccount.watches
  have hSound := hAccounted.sane.order.sound
  have hBefore : g <+: w.history := (List.prefix_append ..).trans hMoment
  have hSound' : Sound g := ((hAccounted.obeyed.before hBefore).weaken Backend.Faithful.willing).sound
  have hGiven : List.Subperm w.given (reports w.history) := List.subperm_ext_iff.mpr fun x _ => hAccounted.given x
  have hSubset : (watching g name).filter (· ∈ i.watches) ⊆ (watched.filter fun x => covers x.2 name).map (·.1) := by
    intro r hr
    obtain ⟨hr, hOwn⟩ := List.mem_filter.mp hr
    rw [decide_eq_true_eq, hWatches] at hOwn
    obtain ⟨x, hx, rfl⟩ := List.mem_map.mp hOwn
    exact List.mem_map_of_mem (List.mem_filter.mpr ⟨hx, hSound.covers_of_watching hBefore (hLive x hx) hr⟩)
  have hDistinct : ((watching g name).filter (· ∈ i.watches)).Nodup := by
    refine List.Nodup.filter _ ?_
    exact (hSound'.once.sublist (List.sublist_append_right ..)).sublist (List.filter_sublist.map _)
  calc (w.reportedTo i).count c
      = w.given.countP fun x => decide (x.1 ∈ i.watches) && decide (x.2 = c) := by
        rw [reportedTo, List.count, List.countP_map, List.countP_filter]
        refine List.countP_congr fun x _ => ?_
        simp [and_comm]
    _ ≤ (reports w.history).countP fun x => decide (x.1 ∈ i.watches) && decide (x.2 = c) := hGiven.countP_le _
    _ = ((watching g name).filter (· ∈ i.watches)).length := by
        rw [← List.countP_filter, Backend.filter_reports hOnce hMoment, List.countP_map, List.countP_eq_length_filter]
        rfl
    _ ≤ ((watched.filter fun x => covers x.2 name).map (·.1)).length :=
        (List.subperm_of_subset hDistinct hSubset).length_le
    _ = (lookups.flatMap (·.patterns)).countP (covers · name) := by
        rw [← hPatterns, List.length_map, List.countP_map, List.countP_eq_length_filter]
        rfl

theorem Accounted.prepared_of_visited (hAccounted : Accounted lines w) (hAccount : Account lines w path i lookups)
    (hVisited : c ∈ w.visited i lookups) : ∃ name, (name, c) ∈ preparations w.history := by
  rcases List.mem_append.mp hVisited with hFound | hReported
  · obtain ⟨l, hl, hFound⟩ := List.mem_flatMap.mp hFound
    exact ⟨l.name, hAccount.prepared hl hFound⟩
  · obtain ⟨r, -, hGiven⟩ := mem_reportedTo.mp hReported
    obtain ⟨g, name, hPrepared, -⟩ := Backend.mem_reports.mp (hAccounted.mem_reports hGiven)
    exact ⟨name, Backend.mem_preparations.mpr ⟨g, hPrepared⟩⟩

/-- A class that is prepared once is visited for a source at most as often as patterns of the source match its name. -/
theorem Accounted.count_visited_le (hAccounted : Accounted lines w) (hAccount : Account lines w path i lookups)
    (hOnce : ((preparations w.history).map (·.2)).Nodup) (hPrepared : (name, c) ∈ preparations w.history) :
    (w.visited i lookups).count c ≤ (patternsOf (w.placer.candidates path)).countP (covers · name) := by
  have hFound := count_found_add_countP_le (hAccount.count_found_le hOnce hPrepared)
  have hReported := hAccounted.count_reportedTo_le hAccount hOnce hPrepared
  rw [visited, List.count_append, ← hAccount.names]
  omega

end World
end JvmDebug
