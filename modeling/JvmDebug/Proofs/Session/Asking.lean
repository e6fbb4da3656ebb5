import JvmDebug.Proofs.Breakpoint.Identity
import JvmDebug.Session.Requests

/-!
# What is asked for when breakpoints are set

The client counts lines and columns from 0 or from 1. A list of breakpoints is understood if each line of it is one that
there can be, and then it is stored position by position; a column that there cannot be is left out.
-/

namespace JvmDebug
set_option autoImplicit false

/-! ## Numbering -/

namespace Numbering

variable {n : Numbering} {line : Int} {l : UInt32}

/-- What a line of the client is when lines are counted from 1. -/
def lineFromOne (n : Numbering) (line : Int) : Int := if n.linesStartAt1 then line else line + 1

def columnFromOne (n : Numbering) (column : Int) : Int := if n.columnsStartAt1 then column else column + 1

def Denotes (k : Int) : Prop := 1 ≤ k ∧ k ≤ 4294967295

theorem counted?_eq_some {k : Int} {x : UInt32} : counted? k = some x ↔ Denotes k ∧ (x.toNat : Int) = k := by
  unfold counted? Denotes
  have hBelow := x.toNat_lt
  constructor
  · intro hSome
    split at hSome
    · next hRange =>
      cases hSome
      refine ⟨by omega, ?_⟩
      rw [UInt32.toNat_ofNat_of_lt' (by simp [UInt32.size]; omega)]
      omega
    · cases hSome
  · rintro ⟨hRange, hSame⟩
    rw [if_pos (by omega)]
    refine congrArg some (UInt32.toNat_inj.mp ?_)
    rw [UInt32.toNat_ofNat_of_lt' (by simp [UInt32.size]; omega)]
    omega

theorem exists_counted?_iff {k : Int} : (∃ x, counted? k = some x) ↔ Denotes k := by
  constructor
  · rintro ⟨x, hx⟩
    exact (counted?_eq_some.mp hx).1
  · intro hRange
    refine ⟨k.toNat.toUInt32, ?_⟩
    unfold counted?
    exact if_pos (by unfold Denotes at hRange; omega)

theorem lineFromClient_eq_ok : n.lineFromClient line = .ok l ↔
    Denotes (n.lineFromOne line) ∧ (l.toNat : Int) = n.lineFromOne line := by
  unfold lineFromClient
  rw [← lineFromOne, ← counted?_eq_some]
  cases counted? (n.lineFromOne line) <;> simp

theorem exists_lineFromClient_iff : (∃ l, n.lineFromClient line = .ok l) ↔ Denotes (n.lineFromOne line) := by
  rw [← exists_counted?_iff]
  simp only [lineFromClient_eq_ok, counted?_eq_some]

/-- The client is told of a line by the number that it has given. -/
theorem lineToClient_of_fromClient (h : n.lineFromClient line = .ok l) : n.lineToClient l = line := by
  have hLine := (lineFromClient_eq_ok.mp h).2
  unfold lineToClient
  unfold lineFromOne at hLine
  split <;> simp_all

theorem columnFromClient?_eq_some {column : Int} {c : UInt32} : n.columnFromClient? column = some c ↔
    Denotes (n.columnFromOne column) ∧ (c.toNat : Int) = n.columnFromOne column :=
  counted?_eq_some

end Numbering

namespace Session

variable {n : Numbering} {source : Source} {x : Dap.BreakpointArgument} {xs : List Dap.BreakpointArgument} {b : Breakpoint}

/-! ## One breakpoint -/

/-- A breakpoint is stored as the client asks for it. -/
structure Stores (n : Numbering) (source : Source) (x : Dap.BreakpointArgument) (b : Breakpoint) : Prop where
  source : b.position.source = source
  line : (b.line.toNat : Int) = n.lineFromOne x.line
  /-- A column that there cannot be is left out. -/
  column : ∀ c, b.position.column = some c ↔ ∃ column, x.column = some column ∧
    Numbering.Denotes (n.columnFromOne column) ∧ (c.toNat : Int) = n.columnFromOne column
  condition : b.condition = x.condition

theorem requested_eq_ok {r : RequestedBreakpoint} : requested n source x = .ok r ↔
    ∃ l, n.lineFromClient x.line = .ok l ∧ r = ⟨⟨source, l, x.column.bind n.columnFromClient?⟩, x.condition⟩ := by
  unfold requested
  cases n.lineFromClient x.line with
  | error e => simp [bind, Except.bind]
  | ok l => simp [bind, Except.bind, pure, Except.pure, eq_comm]

theorem stores_of_requested (h : requested n source x = .ok (BreakpointSet.again b)) : Stores n source x b := by
  obtain ⟨l, hLine, hAgain⟩ := requested_eq_ok.mp h
  obtain ⟨hPosition, hCondition⟩ := (RequestedBreakpoint.mk.injEq ..).mp hAgain
  obtain ⟨-, hLine⟩ := Numbering.lineFromClient_eq_ok.mp hLine
  constructor
  case source => rw [hPosition]
  case line => rw [Breakpoint.line, hPosition, hLine]
  case column =>
    intro c
    rw [hPosition, Option.bind_eq_some_iff]
    exact exists_congr fun column => and_congr_right fun _ => Numbering.columnFromClient?_eq_some
  case condition => exact hCondition

theorem line_of_requested (h : requested n source x = .ok (BreakpointSet.again b)) (verified : Bool) :
    (ClientView.breakpointView n b verified).line = x.line := by
  obtain ⟨l, hLine, hAgain⟩ := requested_eq_ok.mp h
  obtain ⟨hPosition, -⟩ := (RequestedBreakpoint.mk.injEq ..).mp hAgain
  have hSame : b.line = l := by rw [Breakpoint.line, hPosition]
  exact (congrArg n.lineToClient hSame).trans (Numbering.lineToClient_of_fromClient hLine)

/-! ## All of a list -/

/-- A list is understood item by item, the first one first. -/
theorem mapM_eq_ok {α β : Type} {f : α → Except Error β} {as : List α} {bs : List β} :
    as.mapM f = .ok bs ↔ List.Forall₂ (fun a b => f a = .ok b) as bs := by
  induction as generalizing bs with
  | nil => simp [pure, Except.pure, eq_comm]
  | cons a rest ih =>
    rw [List.mapM_cons, List.forall₂_cons_left_iff]
    cases hFirst : f a with
    | error e => simp [bind, Except.bind]
    | ok b =>
      simp only [bind, Except.bind, pure, Except.pure]
      cases hRest : rest.mapM f with
      | error e => simp [← ih, hRest]
      | ok others => simp [← ih, hRest, eq_comm]

/-- All of a list is understood, or nothing of it. -/
theorem exists_mapM_requested_iff (n : Numbering) (source : Source) (xs : List Dap.BreakpointArgument) :
    (∃ wanted, xs.mapM (requested n source) = .ok wanted) ↔ ∀ x ∈ xs, Numbering.Denotes (n.lineFromOne x.line) := by
  have hOne : ∀ x, (∃ r, requested n source x = .ok r) ↔ Numbering.Denotes (n.lineFromOne x.line) := by
    intro x
    rw [← Numbering.exists_lineFromClient_iff]
    simp [requested_eq_ok]
  simp only [mapM_eq_ok]
  induction xs with
  | nil => simp
  | cons x rest ih =>
    rw [List.forall_mem_cons]
    refine Iff.trans ?_ (and_congr (hOne x) ih)
    simp [List.forall₂_cons_left_iff]

/-! ## What a request comes to -/

/-- The client is shown some breakpoints, each by itself. Whether one has code is told as it is known then. -/
def Viewed (n : Numbering) (stored : List Breakpoint) (views : List Dap.BreakpointView) : Prop :=
  List.Forall₂ (fun b view => ∃ verified, view = ClientView.breakpointView n b verified) stored views

section Viewed

variable {stored : List Breakpoint} {views : List Dap.BreakpointView}

theorem exists_viewed {shown : List Json}
    (h : List.Forall₂ (fun b json => ∃ verified, json = (ClientView.breakpointView n b verified).json) stored shown) :
    ∃ views, Viewed n stored views ∧ shown = views.map (·.json) := by
  induction h with
  | nil => exact ⟨[], .nil, rfl⟩
  | @cons b _ _ _ hFirst _ ih =>
    obtain ⟨verified, rfl⟩ := hFirst
    obtain ⟨views, hViews, rfl⟩ := ih
    exact ⟨ClientView.breakpointView n b verified :: views, .cons ⟨verified, rfl⟩ hViews, rfl⟩

theorem Viewed.ids (h : Viewed n stored views) : views.map (·.id) = stored.map (·.id) := by
  induction h with
  | nil => rfl
  | cons hView _ ih =>
    obtain ⟨verified, rfl⟩ := hView
    rw [List.map_cons, List.map_cons, ih]
    rfl

/-- Each breakpoint is shown at the line that the client has given. -/
theorem Viewed.lines (h : Viewed n stored views)
    (hRequested : List.Forall₂ (fun x b => requested n source x = .ok (BreakpointSet.again b)) xs stored) :
    views.map (·.line) = xs.map (·.line) := by
  induction hRequested generalizing views with
  | nil =>
    cases h
    rfl
  | cons hFirst _ ih =>
    cases h with
    | cons hView hRest =>
      obtain ⟨verified, rfl⟩ := hView
      rw [List.map_cons, List.map_cons, line_of_requested hFirst, ih hRest]

end Viewed

/-- The breakpoints of a source are replaced by what the client asks for, or nothing is changed. -/
structure Replaced (n : Numbering) (source : Source) (xs : List Dap.BreakpointArgument) (before after : BreakpointBook)
    (result : Except Error (Option Json)) : Prop where
  isOk : result.isOk = true ↔ ∀ x ∈ xs, Numbering.Denotes (n.lineFromOne x.line)
  refused : result.isOk = false → after.current = before.current ∧ after.next = before.next
  accepted : ∀ body, result = .ok body → ∃ stored views, body = some (Dap.listBody "breakpoints" (views.map (·.json))) ∧
    Viewed n stored views ∧ views.map (·.line) = xs.map (·.line) ∧ (views.map (·.id)).Nodup ∧
    List.Forall₂ (Stores n source) xs stored ∧ after.breakpointsOf source.path = stored ∧
    ∀ q, (source.path == q) = false → after.current.bySource.find? q = before.current.bySource.find? q

variable {before after : BreakpointBook}

theorem Replaced.of_error {e : Error} (hError : xs.mapM (requested n source) = .error e)
    (hSame : after.current = before.current ∧ after.next = before.next) : Replaced n source xs before after (.error e) where
  isOk := by
    rw [← exists_mapM_requested_iff n source, hError]
    simp [Except.isOk, Except.toBool]
  refused _ := hSame
  accepted := nofun

theorem Replaced.of_ok {wanted : List RequestedBreakpoint} {shown : List Json}
    (hWanted : xs.mapM (requested n source) = .ok wanted)
    (hNumbered : BreakpointSet.Numbered before.next (before.breakpointsOf source.path))
    (hAfter : after.current = (before.apply ⟨source, wanted⟩).current)
    (hShown : List.Forall₂ (fun b json => ∃ verified, json = (ClientView.breakpointView n b verified).json)
      (before.stored ⟨source, wanted⟩) shown) :
    Replaced n source xs before after (.ok (some (Dap.listBody "breakpoints" shown))) where
  isOk := by
    rw [← exists_mapM_requested_iff n source, hWanted]
    simp [Except.isOk, Except.toBool]
  refused := nofun
  accepted := by
    rintro _ ⟨⟩
    have hStored : (before.stored ⟨source, wanted⟩).map BreakpointSet.again = wanted := by
      rw [BreakpointBook.stored_eq, BreakpointSet.number_again_of]
    have hRequested : List.Forall₂ (fun x b => requested n source x = .ok (BreakpointSet.again b)) xs
        (before.stored ⟨source, wanted⟩) := by
      have hAll := mapM_eq_ok.mp hWanted
      rw [← hStored, List.forall₂_map_right_iff] at hAll
      exact hAll
    obtain ⟨views, hViews, rfl⟩ := exists_viewed hShown
    refine ⟨_, views, rfl, hViews, hViews.lines hRequested, ?ids, hRequested.imp fun _ _ => stores_of_requested, ?here,
      ?others⟩
    case ids =>
      rw [hViews.ids, BreakpointBook.stored_eq]
      exact (BreakpointSet.number_numbered _ before.next wanted hNumbered).2.1.once
    case here =>
      rw [BreakpointBook.breakpointsOf, hAfter]
      exact before.breakpointsOf_apply ⟨source, wanted⟩
    case others =>
      intro q hOther
      rw [hAfter, BreakpointBook.find?_bySource_apply, if_neg (by simp [hOther])]

end Session
end JvmDebug
