import JvmDebug.Jdwp.Value
import JvmDebug.Proofs.Connection.Stream
import JvmDebug.Proofs.Text.Utf8
import Mathlib.Algebra.Group.Nat.Defs

/-!
# What readers take

What a reader makes of bytes, and which bytes it takes for it, told as one equivalence for each reader: it reads `a` and
leaves `rest` if and only if the bytes are the layout of `a` in front of `rest`. So a layout is read back whatever
follows it, and nothing else is read at all.

What a reader makes of bytes does not depend on those behind them. So where a layout is read back, each part of it that is
cut off is refused: what would be read of the part would be read of the whole as well, and would leave the rest over.
-/

namespace JvmDebug.Jdwp
set_option autoImplicit false

/-- Whether there is a layout of a text: its length has four bytes. -/
def Layout.IsEncodable (s : String) : Prop := (Utf8.encode s).length < 256 ^ 4

/-! ## Numbers as bytes -/

theorem length_bigEndian (width n : Nat) : (Layout.bigEndian width n).length = width := by
  induction width generalizing n with
  | zero => rfl
  | succ width ih => simp [Layout.bigEndian, ih]

namespace Reader

theorem bigEndian_snoc (bytes : Bytes) (b : UInt8) : bigEndian (bytes ++ [b]) = bigEndian bytes * 256 + b.toNat := by
  simp [bigEndian, List.foldl_append]

theorem bigEndian_layout {width n : Nat} (h : n < 256 ^ width) : bigEndian (Layout.bigEndian width n) = n := by
  induction width generalizing n with
  | zero => simpa [Layout.bigEndian, bigEndian, eq_comm] using h
  | succ width ih =>
    have hDiv : n / 256 < 256 ^ width := Nat.div_lt_of_lt_mul (by rwa [Nat.pow_succ'] at h)
    have hLow : n.toUInt8.toNat = n % 256 := by simp
    rw [Layout.bigEndian, bigEndian_snoc, ih hDiv, hLow]
    omega

theorem layout_bigEndian (bytes : Bytes) : Layout.bigEndian bytes.length (bigEndian bytes) = bytes := by
  induction bytes using List.reverseRecOn with
  | nil => rfl
  | append_singleton bytes b ih =>
    have hByte := b.toNat_lt
    have hDiv : (bigEndian bytes * 256 + b.toNat) / 256 = bigEndian bytes := by omega
    have hLow : (bigEndian bytes * 256 + b.toNat).toUInt8 = b := by
      apply UInt8.toNat_inj.mp
      simp
    rw [List.length_append, List.length_singleton, Layout.bigEndian, bigEndian_snoc, hDiv, ih, hLow]

theorem bigEndian_lt (bytes : Bytes) : bigEndian bytes < 256 ^ bytes.length := by
  induction bytes using List.reverseRecOn with
  | nil => simp [bigEndian]
  | append_singleton bytes b ih =>
    have hByte := b.toNat_lt
    rw [bigEndian_snoc, List.length_append, List.length_singleton, Nat.pow_succ]
    omega

/-! ## The readers -/

variable {α β ι : Type} {r : Reader α} {bytes rest : Bytes}

@[simp] theorem run_pure_ok {a b : α} : run (pure a) bytes = (.ok b, rest) ↔ a = b ∧ bytes = rest := by
  change ((Except.ok a, bytes) : Except Error α × Bytes) = _ ↔ _
  simp

theorem run_bind (r : Reader α) (k : α → Reader β) (bytes : Bytes) :
    run (r >>= k) bytes = match run r bytes with
      | (.ok a, left) => run (k a) left
      | (.error e, left) => (.error e, left) := by
  simp only [run, ExceptT.run_bind, StateT.run_bind]
  cases StateT.run (ExceptT.run r) bytes with
  | mk outcome left => cases outcome <;> rfl

@[simp] theorem run_bind_ok {k : α → Reader β} {b : β} :
    run (r >>= k) bytes = (.ok b, rest) ↔ ∃ a left, run r bytes = (.ok a, left) ∧ run (k a) left = (.ok b, rest) := by
  rw [run_bind]
  cases run r bytes with
  | mk outcome left => cases outcome <;> simp

@[simp] theorem run_map_ok {f : α → β} {b : β} :
    run (f <$> r) bytes = (.ok b, rest) ↔ ∃ a, run r bytes = (.ok a, rest) ∧ f a = b := by
  rw [← bind_pure_comp, run_bind_ok]
  simp only [run_pure_ok]
  constructor
  · rintro ⟨a, _, hRun, hEq, rfl⟩
    exact ⟨a, hRun, hEq⟩
  · rintro ⟨a, hRun, hEq⟩
    exact ⟨a, rest, hRun, hEq, rfl⟩

theorem run_fail_ok {why : Malformed} {a : α} : ¬run (fail why) bytes = (.ok a, rest) := nofun

theorem run_take_ok {what : String} {n : Nat} {first : Bytes} :
    run (take what n) bytes = (.ok first, rest) ↔ bytes = first ++ rest ∧ first.length = n := by
  rw [← splitExact_eq_some]
  simp only [run, take, ExceptT.run_mk, StateT.run]
  split <;> simp_all

theorem run_take_short {what : String} {n : Nat} (h : bytes.length < n) :
    run (take what n) bytes = (.error (.malformed (.tooShort what n bytes.length)), bytes) := by
  have hNone := splitExact_eq_none.mpr h
  simp only [run, take, ExceptT.run_mk, StateT.run, hNone]

/-- A number of some width, with what makes it of a natural number and back. -/
theorem run_number_ok {what : String} {width : Nat} (parse : Nat → α) (print : α → Nat)
    (hParse : ∀ a, parse (print a) = a) (hPrint : ∀ n < 256 ^ width, print (parse n) = n)
    (hWidth : ∀ a, print a < 256 ^ width) {a : α} :
    run (take what width >>= fun first => pure (parse (bigEndian first))) bytes = (.ok a, rest) ↔
      bytes = Layout.bigEndian width (print a) ++ rest := by
  simp only [run_bind_ok, run_take_ok, run_pure_ok]
  constructor
  · rintro ⟨first, left, ⟨rfl, rfl⟩, rfl, rfl⟩
    rw [hPrint _ (bigEndian_lt first), layout_bigEndian]
  · rintro rfl
    exact ⟨_, _, ⟨rfl, length_bigEndian _ _⟩, by rw [bigEndian_layout (hWidth a), hParse], rfl⟩

@[simp] theorem run_u8_ok {n : UInt8} : run u8 bytes = (.ok n, rest) ↔ bytes = n :: rest := by
  refine (run_number_ok Nat.toUInt8 UInt8.toNat (by simp) ?_ UInt8.toNat_lt).trans (by simp [Layout.bigEndian])
  intro n hn
  simpa using hn

@[simp] theorem run_i8_ok {n : Int8} : run i8 bytes = (.ok n, rest) ↔ bytes = Layout.i8 n ++ rest := by
  refine (run_number_ok (fun n => n.toUInt8.toInt8) (fun n => n.toUInt8.toNat) (by simp) ?_
    fun n => n.toUInt8.toNat_lt).trans (by simp [Layout.bigEndian, Layout.i8, Layout.u8])
  intro n hn
  simpa using hn

@[simp] theorem run_u16_ok {n : UInt16} : run u16 bytes = (.ok n, rest) ↔ bytes = Layout.u16 n ++ rest := by
  refine run_number_ok Nat.toUInt16 UInt16.toNat (by simp) ?_ UInt16.toNat_lt
  intro n hn
  simpa using hn

@[simp] theorem run_i16_ok {n : Int16} : run i16 bytes = (.ok n, rest) ↔ bytes = Layout.i16 n ++ rest := by
  refine run_number_ok (fun n => n.toUInt16.toInt16) (fun n => n.toUInt16.toNat) (by simp) ?_ fun n => n.toUInt16.toNat_lt
  intro n hn
  simpa using hn

/-- Four bytes, whatever number they are. -/
theorem run_word32_ok {what : String} {n : UInt32} :
    run (take what 4 >>= fun first => pure (bigEndian first).toUInt32) bytes = (.ok n, rest) ↔
      bytes = Layout.u32 n ++ rest := by
  refine run_number_ok Nat.toUInt32 UInt32.toNat (by simp) ?_ UInt32.toNat_lt
  intro n hn
  simpa using hn

/-- Eight bytes, whatever number they are. -/
theorem run_word64_ok {what : String} {n : UInt64} :
    run (take what 8 >>= fun first => pure (bigEndian first).toUInt64) bytes = (.ok n, rest) ↔
      bytes = Layout.u64 n ++ rest := by
  refine run_number_ok Nat.toUInt64 UInt64.toNat (by simp) ?_ UInt64.toNat_lt
  intro n hn
  simpa using hn

@[simp] theorem run_u32_ok {n : UInt32} : run u32 bytes = (.ok n, rest) ↔ bytes = Layout.u32 n ++ rest := run_word32_ok
@[simp] theorem run_f32_ok {n : UInt32} : run f32 bytes = (.ok n, rest) ↔ bytes = Layout.u32 n ++ rest := run_word32_ok
@[simp] theorem run_u64_ok {n : UInt64} : run u64 bytes = (.ok n, rest) ↔ bytes = Layout.u64 n ++ rest := run_word64_ok
@[simp] theorem run_f64_ok {n : UInt64} : run f64 bytes = (.ok n, rest) ↔ bytes = Layout.u64 n ++ rest := run_word64_ok

@[simp] theorem run_i32_ok {n : Int32} : run i32 bytes = (.ok n, rest) ↔ bytes = Layout.i32 n ++ rest := by
  refine run_number_ok (fun n => n.toUInt32.toInt32) (fun n => n.toUInt32.toNat) (by simp) ?_ fun n => n.toUInt32.toNat_lt
  intro n hn
  simpa using hn

@[simp] theorem run_i64_ok {n : Int64} : run i64 bytes = (.ok n, rest) ↔ bytes = Layout.i64 n ++ rest := by
  refine run_number_ok (fun n => n.toUInt64.toInt64) (fun n => n.toUInt64.toNat) (by simp) ?_ fun n => n.toUInt64.toNat_lt
  intro n hn
  simpa using hn

/-- Layouts that are read back do not run into what follows them. -/
theorem append_inj_of_run {layout : α → Bytes}
    (hRead : ∀ {bytes : Bytes} {a : α} {rest : Bytes}, run r bytes = (.ok a, rest) ↔ bytes = layout a ++ rest) {a b : α}
    {rest' : Bytes} (h : layout a ++ rest = layout b ++ rest') : a = b ∧ rest = rest' := by
  have hSame := (hRead.mpr rfl).symm.trans (hRead.mpr h)
  simpa using hSame

/-- A text is read if it is UTF-8, and its length fits into the four bytes before it. -/
@[simp] theorem run_string_ok {s : String} :
    run string bytes = (.ok s, rest) ↔ (Utf8.encode s).length < 256 ^ 4 ∧ bytes = Layout.string s ++ rest := by
  simp only [string, run_bind_ok, run_take_ok, Layout.string]
  constructor
  · rintro ⟨size, _, ⟨rfl, hSize⟩, text, _, ⟨rfl, hText⟩, hRead⟩
    split at hRead
    · next s' hDecode =>
      obtain ⟨rfl, rfl⟩ := run_pure_ok.mp hRead
      have hLt := bigEndian_lt size
      rw [Utf8.encode_of_decode hDecode, hText]
      rw [hSize] at hLt
      exact ⟨hLt, by rw [← hSize, layout_bigEndian, List.append_assoc]⟩
    · exact (run_fail_ok hRead).elim
  · rintro ⟨hLt, rfl⟩
    refine ⟨_, _, ⟨List.append_assoc .., length_bigEndian _ _⟩, _, rest, ⟨rfl, (bigEndian_layout hLt).symm⟩, ?_⟩
    rw [Utf8.decode_encode]
    exact run_pure_ok.mpr ⟨rfl, rfl⟩

@[simp] theorem run_taggedObject_ok {o : TaggedObject} :
    run taggedObject bytes = (.ok o, rest) ↔ bytes = o.layout ++ rest := by
  cases o
  simp [taggedObject, TaggedObject.layout]

@[simp] theorem run_location_ok {l : Location} : run location bytes = (.ok l, rest) ↔ bytes = l.layout ++ rest := by
  cases l
  simp [location, Location.layout]

@[simp] theorem run_location?_ok {found : Option Location} :
    run location? bytes = (.ok found, rest) ↔
      ∃ l, (if l.isNull then none else some l) = found ∧ bytes = l.layout ++ rest := by
  simp only [location?, run_bind_ok, run_location_ok, run_pure_ok]
  constructor
  · rintro ⟨l, _, rfl, hFound, rfl⟩
    exact ⟨l, hFound, rfl⟩
  · rintro ⟨l, hFound, rfl⟩
    exact ⟨l, rest, rfl, hFound, rfl⟩

theorem toNat_of_nonneg {n : Int32} (h : ¬n < 0) : n.toInt.toNat < 2 ^ 31 ∧ n.toUInt32.toNat = n.toInt.toNat := by
  have hSign : 0 ≤ n.toInt := Int32.le_iff_toInt_le.mp (Int32.not_lt.mp h)
  have hLt := n.toInt_lt
  have hBits : n.toInt = n.toBitVec.toInt := rfl
  have hNat : n.toUInt32.toNat = n.toBitVec.toNat := rfl
  have hCond := BitVec.toInt_eq_toNat_cond n.toBitVec
  split at hCond <;> omega

/-- A length of a list is a number that is not negative, so its highest bit is free. -/
theorem run_count_ok {n : Nat} : run count bytes = (.ok n, rest) ↔ n < 2 ^ 31 ∧ bytes = Layout.count n ++ rest := by
  simp only [count, run_bind_ok, run_i32_ok, Layout.i32, Layout.u32, Layout.count]
  constructor
  · rintro ⟨size, _, rfl, hRead⟩
    split at hRead
    · exact (run_fail_ok hRead).elim
    · next hSign =>
      obtain ⟨rfl, rfl⟩ := run_pure_ok.mp hRead
      obtain ⟨hLt, hNat⟩ := toNat_of_nonneg hSign
      exact ⟨hLt, by rw [hNat]⟩
  · rintro ⟨hLt, rfl⟩
    have hInt := Int32.toInt_ofNat_of_lt hLt
    have hSign : ¬Int32.ofNat n < 0 := by simp [Int32.lt_iff_toInt_lt, hInt]
    refine ⟨Int32.ofNat n, rest, ?_, ?_⟩
    · rw [(toNat_of_nonneg hSign).2, hInt, Int.toNat_natCast]
    · rw [if_neg hSign]
      exact run_pure_ok.mpr ⟨by rw [hInt, Int.toNat_natCast], rfl⟩

theorem run_count_negative {n : Int32} (h : n < 0) (rest : Bytes) :
    run count (Layout.i32 n ++ rest) = (.error (.malformed (.negativeCount n)), rest) := by
  rw [count, run_bind, run_i32_ok.mpr rfl]
  simp only [if_pos h]
  rfl

/-- Items are read one after the other, each as the layout of what it was before `normal`. -/
theorem run_times_ok {item : ι → Bytes} {proper : ι → Prop} {normal : ι → α}
    (hItem : ∀ bytes a rest, run r bytes = (.ok a, rest) ↔ ∃ i, proper i ∧ normal i = a ∧ bytes = item i ++ rest)
    {n : Nat} {items : List α} :
    run (times r n) bytes = (.ok items, rest) ↔ ∃ is : List ι, is.length = n ∧ (∀ i ∈ is, proper i) ∧
      is.map normal = items ∧ bytes = is.flatMap item ++ rest := by
  induction n generalizing bytes rest items with
  | zero =>
    rw [times, run_pure_ok]
    constructor
    · rintro ⟨rfl, rfl⟩
      exact ⟨[], rfl, nofun, rfl, rfl⟩
    · rintro ⟨is, hNone, -, rfl, rfl⟩
      obtain rfl := List.length_eq_zero_iff.mp hNone
      exact ⟨rfl, rfl⟩
  | succ n ih =>
    simp only [times, run_bind_ok, run_pure_ok, hItem, ih]
    constructor
    · rintro ⟨_, _, ⟨i, hProper, rfl, rfl⟩, _, _, ⟨is, rfl, hAll, rfl, rfl⟩, rfl, rfl⟩
      exact ⟨i :: is, rfl, List.forall_mem_cons.mpr ⟨hProper, hAll⟩, rfl, by simp⟩
    · rintro ⟨_ | ⟨i, is⟩, hLength, hAll, rfl, rfl⟩
      · cases hLength
      · obtain ⟨hProper, hAll⟩ := List.forall_mem_cons.mp hAll
        exact ⟨_, _, ⟨i, hProper, rfl, by simp⟩, _, _, ⟨is, Nat.succ.inj hLength, hAll, rfl, rfl⟩, rfl, rfl⟩

/-- The first item that cannot be read ends the list, whatever stands before it and however many are to come. -/
theorem run_times_error {k n : Nat} {items : List α} {left left' : Bytes} {e : Error} (hLess : k < n)
    (hBefore : run (times r k) bytes = (.ok items, left)) (hError : run r left = (.error e, left')) :
    run (times r n) bytes = (.error e, left') := by
  induction k generalizing bytes items n with
  | zero =>
    obtain ⟨-, rfl⟩ := run_pure_ok.mp hBefore
    obtain ⟨n, rfl⟩ := Nat.exists_eq_add_of_lt hLess
    rw [Nat.zero_add, times, run_bind, hError]
  | succ k ih =>
    obtain ⟨n, rfl⟩ := Nat.exists_eq_add_of_lt hLess
    obtain ⟨a, middle, hItem, hOthers⟩ := run_bind_ok.mp hBefore
    obtain ⟨others, _, hTimes, hEq⟩ := run_bind_ok.mp hOthers
    obtain ⟨-, rfl⟩ := run_pure_ok.mp hEq
    have hFails : run (times r (k + 1 + n)) middle = (.error e, left') := ih (by omega) hTimes
    rw [times, run_bind, hItem]
    simp only [run_bind, hFails]

theorem run_list_ok {item : ι → Bytes} {proper : ι → Prop} {normal : ι → α}
    (hItem : ∀ bytes a rest, run r bytes = (.ok a, rest) ↔ ∃ i, proper i ∧ normal i = a ∧ bytes = item i ++ rest)
    {items : List α} :
    run (list r) bytes = (.ok items, rest) ↔ ∃ is : List ι, is.length < 2 ^ 31 ∧ (∀ i ∈ is, proper i) ∧
      is.map normal = items ∧ bytes = Layout.list item is ++ rest := by
  simp only [list, run_bind_ok, run_count_ok, run_times_ok hItem, Layout.list]
  constructor
  · rintro ⟨_, _, ⟨hLength, rfl⟩, is, rfl, hAll, hItems, rfl⟩
    exact ⟨is, hLength, hAll, hItems, by simp⟩
  · rintro ⟨is, hLength, hAll, hItems, rfl⟩
    exact ⟨_, _, ⟨hLength, by simp⟩, is, rfl, hAll, hItems, rfl⟩

/-- As many items as the bytes cannot hold are read in vain, so it does not matter how many they are. -/
theorem run_times_of_long {width : Nat}
    (hWidth : ∀ bytes a rest, run r bytes = (.ok a, rest) → rest.length + width ≤ bytes.length) {n m : Nat}
    (hn : bytes.length < width * n) (hm : bytes.length < width * m) : run (times r n) bytes = run (times r m) bytes := by
  induction n generalizing bytes m with
  | zero => cases hn
  | succ n ih =>
    cases m with
    | zero => cases hm
    | succ m =>
      simp only [times, run_bind]
      cases hRun : run r bytes with
      | mk outcome left =>
        cases outcome with
        | error e => rfl
        | ok a =>
          have hLeft := hWidth bytes a left hRun
          rw [Nat.mul_succ] at hn hm
          have hSame := @ih left m (by omega) (by omega)
          simp only [hSame]

/-! ## What is refused -/

/-- The reader fails only because bytes are malformed. -/
def Plain (r : Reader α) : Prop := ∀ bytes e, r.value bytes = .error e → ∃ why, e = .malformed why

theorem plain_pure (a : α) : Plain (pure a) := nofun

theorem plain_fail (why : Malformed) : Plain (fail why : Reader α) := fun _ e h => by
  cases h
  exact ⟨why, rfl⟩

theorem plain_bind {r : Reader α} {k : α → Reader β} (h : Plain r) (hNext : ∀ a, Plain (k a)) : Plain (r >>= k) := by
  intro bytes e hFails
  change (StateT.run (ExceptT.run (r >>= k)) bytes).1 = _ at hFails
  rw [ExceptT.run_bind, StateT.run_bind] at hFails
  cases hRun : StateT.run (ExceptT.run r) bytes with
  | mk outcome rest =>
    rw [hRun] at hFails
    cases outcome with
    | ok a => exact hNext a rest e hFails
    | error e' =>
      obtain rfl : e' = e := Except.error.inj hFails
      exact h bytes e' (congrArg Prod.fst hRun)

theorem plain_take (what : String) (n : Nat) : Plain (take what n) := by
  intro bytes e h
  simp only [value, run, take, ExceptT.run_mk, StateT.run] at h
  split at h
  · cases h
  · cases h
    exact ⟨_, rfl⟩

theorem plain_times {r : Reader α} (h : Plain r) (n : Nat) : Plain (times r n) := by
  induction n with
  | zero => exact plain_pure []
  | succ n ih => exact plain_bind h fun a => plain_bind ih fun rest => plain_pure (a :: rest)

/-! ## What is read back -/

variable {layout : α → Bytes} {proper : α → Prop} {items : List α}

/-- The reader makes the same of bytes whatever follows them, and what it does not read is malformed. -/
structure Regular (r : Reader α) : Prop where
  plain : r.Plain
  steady : ∀ {bytes a rest}, run r bytes = (.ok a, rest) → ∀ more, run r (bytes ++ more) = (.ok a, rest ++ more)

theorem regular_pure (a : α) : Regular (pure a) where
  plain := plain_pure a
  steady h more := by
    obtain ⟨rfl, rfl⟩ := run_pure_ok.mp h
    rfl

theorem regular_fail (why : Malformed) : Regular (fail why : Reader α) where
  plain := plain_fail why
  steady h := (run_fail_ok h).elim

theorem regular_bind {k : α → Reader β} (h : Regular r) (hNext : ∀ a, Regular (k a)) : Regular (r >>= k) where
  plain := plain_bind h.plain fun a => (hNext a).plain
  steady hRun more := by
    obtain ⟨a, left, hFirst, hSecond⟩ := run_bind_ok.mp hRun
    exact run_bind_ok.mpr ⟨a, left ++ more, h.steady hFirst more, (hNext a).steady hSecond more⟩

theorem regular_take (what : String) (n : Nat) : Regular (take what n) where
  plain := plain_take what n
  steady h more := by
    obtain ⟨rfl, hLength⟩ := run_take_ok.mp h
    exact run_take_ok.mpr ⟨List.append_assoc .., hLength⟩

/-- A number of some width. -/
theorem regular_number (what : String) (width : Nat) (parse : Bytes → α) :
    Regular (take what width >>= fun first => pure (parse first)) :=
  regular_bind (regular_take what width) fun first => regular_pure (parse first)

theorem regular_string : Regular string := by
  refine regular_bind (regular_take _ _) fun length => regular_bind (regular_take _ _) fun text => ?_
  split
  · exact regular_pure _
  · exact regular_fail _

theorem regular_count : Regular count := by
  refine regular_bind (regular_number _ _ _) fun n => ?_
  split
  · exact regular_fail _
  · exact regular_pure _

theorem regular_untagged (tag : Tag) : Regular (untagged tag) := by
  cases tag with
  | void => exact regular_pure _
  | _ => exact regular_bind (regular_number _ _ _) fun _ => regular_pure _

theorem regular_tagged : Regular tagged := by
  refine regular_bind (regular_number _ _ _) fun b => ?_
  unfold untaggedByte
  split
  · exact regular_untagged _
  · exact regular_fail _

theorem regular_taggedObject : Regular taggedObject :=
  regular_bind (regular_number _ _ _) fun _ => regular_bind (regular_number _ _ _) fun _ => regular_pure _

theorem regular_location : Regular location :=
  regular_bind (regular_number _ _ _) fun _ => regular_bind (regular_number _ _ _) fun _ =>
    regular_bind (regular_number _ _ _) fun _ => regular_bind (regular_number _ _ _) fun _ => regular_pure _

theorem regular_times (h : Regular r) (n : Nat) : Regular (times r n) := by
  induction n with
  | zero => exact regular_pure []
  | succ n ih => exact regular_bind h fun a => regular_bind ih fun others => regular_pure (a :: others)

theorem regular_list (h : Regular r) : Regular (list r) := regular_bind regular_count fun n => regular_times h n

/-- What is read in full is not read of a part of it, as that would leave the rest over. -/
theorem Regular.cut {front whole : Bytes} {a : α} (h : Regular r) (hWhole : run r whole = (.ok a, []))
    (hPrefix : front <+: whole) (hNe : front ≠ whole) : ∃ why, r.value front = .error (.malformed why) := by
  obtain ⟨others, rfl⟩ := hPrefix
  cases hValue : value r front with
  | error e =>
    obtain ⟨why, rfl⟩ := h.plain front e hValue
    exact ⟨why, rfl⟩
  | ok b =>
    have hFront : run r front = (.ok b, (run r front).2) := Prod.ext hValue rfl
    have hLeft := congrArg Prod.snd ((h.steady hFront others).symm.trans hWhole)
    obtain ⟨-, rfl⟩ := List.append_eq_nil_iff.mp hLeft
    exact (hNe (List.append_nil front).symm).elim

/-- The reader reads back what is proper from its layout, whatever follows. -/
def ReadsBack (r : Reader α) (layout : α → Bytes) (proper : α → Prop) : Prop :=
  ∀ a rest, proper a → run r (layout a ++ rest) = (.ok a, rest)

theorem ReadsBack.times (h : ReadsBack r layout proper) (hItems : ∀ a ∈ items, proper a) (rest : Bytes) :
    run (times r items.length) (items.flatMap layout ++ rest) = (.ok items, rest) := by
  induction items with
  | nil => rfl
  | cons a items ih =>
    obtain ⟨hFirst, hOthers⟩ := List.forall_mem_cons.mp hItems
    rw [List.length_cons, Reader.times, List.flatMap_cons, List.append_assoc]
    exact run_bind_ok.mpr ⟨a, _, h a _ hFirst, run_bind_ok.mpr ⟨items, rest, ih hOthers, rfl⟩⟩

theorem ReadsBack.list (h : ReadsBack r layout proper) :
    ReadsBack (list r) (Layout.list layout) fun items => items.length < 2 ^ 31 ∧ ∀ a ∈ items, proper a := by
  rintro items rest ⟨hCount, hItems⟩
  rw [Layout.list, List.append_assoc]
  exact run_bind_ok.mpr ⟨_, _, run_count_ok.mpr ⟨hCount, rfl⟩, h.times hItems rest⟩

/-- What is read back is told apart from all else by its layout. -/
theorem ReadsBack.injective (h : ReadsBack r layout proper) {a b : α} (ha : proper a) (hb : proper b)
    (hSame : layout a = layout b) : a = b := by
  have hRun : ((.ok a, []) : Except Error α × Bytes) = (.ok b, []) := by
    rw [← h a [] ha, hSame, h b [] hb]
  cases hRun
  rfl

/-- A layout that is read back, and of which no part is read. -/
structure Decodes (r : Reader α) (layout : α → Bytes) (proper : α → Prop) : Prop extends Regular r where
  back : ReadsBack r layout proper

theorem Decodes.list (h : Decodes r layout proper) :
    Decodes (list r) (Layout.list layout) fun items => items.length < 2 ^ 31 ∧ ∀ a ∈ items, proper a where
  toRegular := regular_list h.toRegular
  back := h.back.list

theorem Decodes.refuses (h : Decodes r layout proper) {a : α} (hProper : proper a) {front : Bytes}
    (hPrefix : front <+: layout a) (hNe : front ≠ layout a) : ∃ why, r.value front = .error (.malformed why) := by
  have hWhole := h.back a [] hProper
  rw [List.append_nil] at hWhole
  exact h.cut hWhole hPrefix hNe

/-- Items that are always refused make a list of any number of them be refused. -/
theorem value_list_fail {why : Malformed} {n : Nat} (hPositive : 0 < n) (hCount : n < 2 ^ 31) (rest : Bytes) :
    value (list (fail why : Reader α)) (Layout.count n ++ rest) = .error (.malformed why) := by
  obtain ⟨m, rfl⟩ := Nat.exists_eq_add_of_lt hPositive
  rw [value, list, run_bind, run_count_ok.mpr ⟨hCount, rfl⟩, Nat.zero_add]
  rfl

theorem value_list_negative (r : Reader α) {n : Int32} (hSign : n < 0) (rest : Bytes) :
    value (list r) (Layout.i32 n ++ rest) = .error (.malformed (.negativeCount n)) := by
  rw [value, list, run_bind, run_count_negative hSign]

end Reader
end JvmDebug.Jdwp
