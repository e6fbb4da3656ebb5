import JvmDebug.Proofs.Session.Scene
import JvmDebug.Proofs.Text.Lines
import Mathlib.Data.List.Nodup

/-!
# Streams of debuggees

What debuggees write to their streams, and how much of it has been read. A forwarder takes line by line off a stream,
until nothing will follow or a line is no text; what debuggees write meanwhile leaves alone what was taken.
-/

namespace JvmDebug.Session
set_option autoImplicit false

/-! ## Streams -/

/-- A stream as its debuggee sees it: what was written to it, and whether that is all. -/
structure Pipe where
  debuggee : DebuggeeId
  category : String
  bytes : Bytes := []
  ended : Bool := false

abbrev Ledger := List (Nat × Pipe)

def Pipe.write (d : DebuggeeId) (category : String) (bytes : Bytes) (p : Pipe) : Pipe :=
  if p.debuggee = d ∧ p.category = category then { p with bytes := p.bytes ++ bytes } else p

def Pipe.close (which : DebuggeeId → String → Bool) (p : Pipe) : Pipe :=
  if which p.debuggee p.category then { p with ended := true } else p

def unread (s : Session) : Ledger :=
  s.streams.map fun x => (x.1, ⟨x.2.debuggee, x.2.category, x.2.incoming, x.2.ended⟩)

/-- Some streams end: all those of a debuggee that has ended, or one that a debuggee closes. -/
def closeStreams (which : DebuggeeId → String → Bool) (s : Session) : Session :=
  { s with
    streams := s.streams.map fun (n, o) =>
      if which o.debuggee o.category then (n, { o with ended := true }) else (n, o) }

theorem closeStreams_of_debuggee (d : DebuggeeId) (s : Session) : s.closeStreams (fun e _ => e = d) = s.endStreams d := by
  simp [closeStreams, endStreams]

theorem unread_addStream (d : DebuggeeId) (category : String) (s : Session) :
    (s.addStream { debuggee := d, category }).unread = s.unread ++ [(s.nextStream, { debuggee := d, category })] := by
  simp [unread, addStream]

theorem unread_writeStream (d : DebuggeeId) (category : String) (bytes : Bytes) (s : Session) :
    (s.writeStream d category bytes).unread = s.unread.map (Prod.map id (Pipe.write d category bytes)) := by
  simp only [unread, writeStream, List.map_map]
  apply List.map_congr_left
  rintro ⟨n, o⟩ -
  by_cases h : o.debuggee = d ∧ o.category = category <;> simp [Pipe.write, h]

theorem unread_closeStreams (which : DebuggeeId → String → Bool) (s : Session) :
    (s.closeStreams which).unread = s.unread.map (Prod.map id (Pipe.close which)) := by
  simp only [unread, closeStreams, List.map_map]
  apply List.map_congr_left
  rintro ⟨n, o⟩ -
  by_cases h : which o.debuggee o.category <;> simp [Pipe.close, h]

theorem unread_forwardStreams (d : DebuggeeId) (s : Session) : (forwardStreams d s).unread = s.unread := by
  simp only [unread, forwardStreams, List.map_map]
  apply List.map_congr_left
  rintro ⟨n, o⟩ -
  by_cases h : o.debuggee = d <;> simp [h]

theorem unread_setIncoming (n : Nat) (rest : Bytes) (s : Session) :
    (s.setIncoming n rest).unread =
      s.unread.map fun x => if x.1 = n then (x.1, { x.2 with bytes := rest }) else x := by
  simp only [unread, setIncoming, List.map_map]
  apply List.map_congr_left
  rintro ⟨k, o⟩ -
  by_cases h : k = n <;> simp [h]

theorem unread_dropStream (n : Nat) (s : Session) : (s.dropStream n).unread = s.unread.filter (·.1 ≠ n) := by
  simp only [unread, dropStream, List.filter_map]
  rfl

/-- What debuggees do to their streams beside all else that comes of itself. A stream to which something is written has
not ended. -/
inductive Pours (s : Session) (m : Ledger) : Session → Ledger → Prop where
  | apart {s' : Session} : Outside s s' → s'.streams = s.streams → s'.nextStream = s.nextStream → Pours s m s' m
  | opens (d : DebuggeeId) {category : String} : category ∈ ["stdout", "stderr"] →
      Pours s m (s.addStream { debuggee := d, category }) (m ++ [(s.nextStream, { debuggee := d, category })])
  | writes (d : DebuggeeId) (category : String) (bytes : Bytes) :
      (∀ x ∈ m, x.2.debuggee = d → x.2.category = category → x.2.ended = false) →
      Pours s m (s.writeStream d category bytes) (m.map (Prod.map id (Pipe.write d category bytes)))
  | closes (which : DebuggeeId → String → Bool) :
      Pours s m (s.closeStreams which) (m.map (Prod.map id (Pipe.close which)))

/-! ## What is read of a stream -/

/-- Some lines were taken from a stream, and the rest is left of it. -/
structure ReadTo (p : Pipe) (taken : List Bytes) (rest : Bytes) : Prop where
  lines : Line.lines p.bytes = taken ++ Line.lines rest
  /-- As long as more may be written, nothing but whole lines has been taken. -/
  whole : p.ended = false → p.bytes = taken.flatten ++ rest ∧ ∀ line ∈ taken, Line.IsWhole line

variable {p : Pipe} {taken : List Bytes} {rest : Bytes}

theorem ReadTo.beginning (p : Pipe) : ReadTo p [] p.bytes := ⟨rfl, fun _ => ⟨rfl, by simp⟩⟩

theorem ReadTo.cut {line more : Bytes} (h : ReadTo p taken rest) (hCut : Line.Cut p.ended rest line more) :
    ReadTo p (taken ++ [line]) more where
  lines := by rw [h.lines, hCut.lines_eq, List.append_assoc, List.singleton_append]
  whole hOpen := by
    obtain ⟨hBytes, hWhole⟩ := h.whole hOpen
    constructor
    · rw [hBytes, hCut.bytes_eq]
      simp
    · simpa [or_imp, forall_and] using ⟨hWhole, hCut.whole hOpen⟩

theorem ReadTo.write (h : ReadTo p taken rest) (hOpen : p.ended = false) (more : Bytes) :
    ReadTo { p with bytes := p.bytes ++ more } taken (rest ++ more) := by
  obtain ⟨hBytes, hWhole⟩ := h.whole hOpen
  constructor
  · dsimp only
    rw [hBytes, List.append_assoc, Line.lines_append hWhole]
  · intro _
    exact ⟨by rw [hBytes, List.append_assoc], hWhole⟩

theorem ReadTo.close (h : ReadTo p taken rest) : ReadTo { p with ended := true } taken rest := ⟨h.lines, nofun⟩

/-- How far a forwarder has come with a stream, and in how many jobs. -/
inductive Stands (n : Nat) (p : Pipe) (u : Ledger) (taken : List Bytes) : Nat → Prop where
  | going {rest : Bytes} : (n, { p with bytes := rest }) ∈ u → ReadTo p taken rest → Stands n p u taken taken.length
  /-- Nothing was left, or a line was no text. -/
  | atEnd : n ∉ u.map (·.1) →
      (p.ended = true ∧ ReadTo p taken []) ∨ (∃ line more, ReadTo p (taken ++ [line]) more ∧ Line.text? line = none) →
      Stands n p u taken (taken.length + 1)

variable {n : Nat} {u u' m : Ledger} {next jobs : Nat}

theorem Stands.of_same (h : Stands n p u taken jobs) (hMem : ∀ q, (n, q) ∈ u → (n, q) ∈ u')
    (hKeys : n ∉ u.map (·.1) → n ∉ u'.map (·.1)) : Stands n p u' taken jobs := by
  cases h with
  | going hRest hRead => exact .going (hMem _ hRest) hRead
  | atEnd hGone hEnd => exact .atEnd (hKeys hGone) hEnd

def notification (category text : String) : Dap.Outgoing := .output category (text ++ "\n")

/-- What was taken of a stream for the client are the texts of lines. -/
def StreamAccount (u : Ledger) (n : Nat) (p : Pipe) (out : List Dap.Outgoing) (jobs : Nat) : Prop :=
  ∃ taken texts, taken.mapM Line.text? = some texts ∧ Stands n p u taken jobs ∧ out = texts.map (notification p.category)

/-- What was taken of all streams, and in how many jobs of each forwarder. -/
structure Accounted (u : Ledger) (next : Nat) (m : Ledger) (out : Nat → List Dap.Outgoing) (jobs : Nat → Nat) : Prop where
  below : ∀ x ∈ m, x.1 < next
  once : (m.map (·.1)).Nodup
  unreadOnce : (u.map (·.1)).Nodup
  known : ∀ x ∈ u, x.1 ∈ m.map (·.1)
  categories : ∀ x ∈ m, x.2.category ≠ "console"
  streams : ∀ n p, (n, p) ∈ m → StreamAccount u n p (out n) (jobs n)
  unused : ∀ n, n ∉ m.map (·.1) → out n = [] ∧ jobs n = 0

theorem eq_of_key {q : Pipe} (hOnce : (u.map (·.1)).Nodup) (hp : (n, p) ∈ u) (hq : (n, q) ∈ u) : p = q :=
  congrArg Prod.snd (List.inj_on_of_nodup_map hOnce hp hq rfl)

namespace Accounted

variable {out : Nat → List Dap.Outgoing} {jobs : Nat → Nat}

theorem nothing : Accounted [] 0 [] (fun _ => []) (fun _ => 0) :=
  ⟨by simp, by simp, by simp, by simp, by simp, by simp, by simp⟩

/-- Where a stream is still read, it stands as its debuggee has it, but for what was taken. -/
theorem going {q : Pipe} (h : Accounted u next m out jobs) (hUnread : (n, q) ∈ u) : ∃ p taken texts,
    (n, p) ∈ m ∧ taken.mapM Line.text? = some texts ∧ q = { p with bytes := q.bytes } ∧ ReadTo p taken q.bytes ∧
      jobs n = taken.length ∧ out n = texts.map (notification p.category) := by
  obtain ⟨⟨k, p⟩, hp, rfl⟩ := List.mem_map.mp (h.known _ hUnread)
  obtain ⟨taken, texts, hTexts, hStands, hOut⟩ := h.streams k p hp
  generalize jobs k = count at hStands ⊢
  cases hStands with
  | going hRest hRead =>
    obtain rfl := eq_of_key h.unreadOnce hRest hUnread
    exact ⟨p, taken, texts, hp, hTexts, rfl, hRead, rfl, hOut⟩
  | atEnd hGone _ => exact absurd (List.mem_map_of_mem hUnread) hGone

theorem line {q : Pipe} {line rest : Bytes} {text : String} (h : Accounted u next m out jobs) (hUnread : (n, q) ∈ u)
    (hCut : Line.Cut q.ended q.bytes line rest) (hText : Line.text? line = some text) :
    Accounted (u.map fun x => if x.1 = n then (x.1, { x.2 with bytes := rest }) else x) next m
      (Function.update out n (out n ++ [notification q.category text])) (Function.update jobs n (jobs n + 1)) := by
  have hKeys : (u.map fun x => if x.1 = n then (x.1, { x.2 with bytes := rest }) else x).map (·.1) = u.map (·.1) := by
    rw [List.map_map]
    apply List.map_congr_left
    intro x _
    by_cases hx : x.1 = n <;> simp [hx]
  refine ⟨h.below, h.once, hKeys ▸ h.unreadOnce, ?_, h.categories, ?_, ?_⟩
  · intro x hx
    obtain ⟨y, hy, hEq⟩ := List.mem_map.mp (hKeys ▸ List.mem_map_of_mem hx : x.1 ∈ u.map (·.1))
    exact hEq ▸ h.known y hy
  · intro k p hp
    by_cases hk : k = n
    · subst hk
      obtain ⟨p', taken, texts, hp', hTexts, hq, hRead, hJobs, hOut⟩ := h.going hUnread
      obtain rfl := eq_of_key h.once hp' hp
      rw [Function.update_self, Function.update_self, hJobs, hOut]
      refine ⟨taken ++ [line], texts ++ [text], by simp [List.mapM_append, hTexts, hText], ?_, ?_⟩
      · rw [← List.length_singleton (a := line), ← List.length_append]
        rw [hq] at hCut
        refine .going ?_ (hRead.cut hCut)
        exact List.mem_map.mpr ⟨_, hUnread, by rw [if_pos rfl, hq]⟩
      · rw [hq, List.map_append, List.map_singleton]
    · rw [Function.update_of_ne hk, Function.update_of_ne hk]
      obtain ⟨taken, texts, hTexts, hStands, hOut⟩ := h.streams k p hp
      refine ⟨taken, texts, hTexts, hStands.of_same ?_ (hKeys ▸ id), hOut⟩
      exact fun q' hq' => List.mem_map.mpr ⟨_, hq', if_neg hk⟩
  · intro k hk
    have hOther : k ≠ n := by
      rintro rfl
      exact hk (h.known _ hUnread)
    rw [Function.update_of_ne hOther, Function.update_of_ne hOther]
    exact h.unused k hk

/-- The forwarder of a stream is done with it. -/
theorem atEnd {q : Pipe} (h : Accounted u next m out jobs) (hUnread : (n, q) ∈ u)
    (hEnd : (q.bytes = [] ∧ q.ended = true) ∨ ∃ line rest, Line.Cut q.ended q.bytes line rest ∧ Line.text? line = none) :
    Accounted (u.filter (·.1 ≠ n)) next m out (Function.update jobs n (jobs n + 1)) := by
  have hSub : ∀ x, x ∈ u.filter (·.1 ≠ n) ↔ x ∈ u ∧ x.1 ≠ n := by simp
  refine ⟨h.below, h.once, ?_, fun x hx => h.known x ((hSub x).mp hx).1, h.categories, ?_, ?_⟩
  · exact h.unreadOnce.sublist (List.filter_sublist.map _)
  · intro k p hp
    by_cases hk : k = n
    · subst hk
      obtain ⟨p', taken, texts, hp', hTexts, hq, hRead, hJobs, hOut⟩ := h.going hUnread
      obtain rfl := eq_of_key h.once hp' hp
      rw [Function.update_self, hJobs]
      refine ⟨taken, texts, hTexts, .atEnd (by simp) ?_, hOut⟩
      rcases hEnd with ⟨hEmpty, hEnded⟩ | ⟨line, rest, hCut, hNone⟩
      · rw [hq] at hEnded
        exact .inl ⟨hEnded, hEmpty ▸ hRead⟩
      · rw [hq] at hCut
        exact .inr ⟨line, rest, hRead.cut hCut, hNone⟩
    · rw [Function.update_of_ne hk]
      obtain ⟨taken, texts, hTexts, hStands, hOut⟩ := h.streams k p hp
      refine ⟨taken, texts, hTexts, hStands.of_same (fun q' hq' => (hSub _).mpr ⟨hq', hk⟩) ?_, hOut⟩
      exact mt fun hHere => (List.filter_sublist.map _).subset hHere
  · intro k hk
    have hOther : k ≠ n := by
      rintro rfl
      exact hk (h.known _ hUnread)
    rw [Function.update_of_ne hOther]
    exact h.unused k hk

theorem opens (h : Accounted u next m out jobs) {p : Pipe} (hCategory : p.category ≠ "console") (hBytes : p.bytes = []) :
    Accounted (u ++ [(next, p)]) (next + 1) (m ++ [(next, p)]) out jobs := by
  have hFresh : ∀ {l : Ledger}, (∀ x ∈ l, x.1 ∈ m.map (·.1)) → next ∉ l.map (·.1) := by
    intro l hl hNext
    obtain ⟨x, hx, hEq⟩ := List.mem_map.mp hNext
    obtain ⟨y, hy, hxy⟩ := List.mem_map.mp (hl x hx)
    have hBelow := h.below y hy
    omega
  have hNextM : next ∉ m.map (·.1) := hFresh fun x hx => List.mem_map_of_mem hx
  have hOnce : ∀ {l : Ledger}, (l.map (·.1)).Nodup → next ∉ l.map (·.1) → ((l ++ [(next, p)]).map (·.1)).Nodup := by
    intro l hl hNext
    rw [List.map_append, List.nodup_append]
    refine ⟨hl, by simp, ?_⟩
    rintro a ha b hb rfl
    obtain rfl : a = next := by simpa using hb
    exact hNext ha
  refine ⟨?_, hOnce h.once hNextM, hOnce h.unreadOnce (hFresh h.known), ?_, ?_, ?_, ?_⟩
  · rw [List.forall_mem_append]
    exact ⟨fun x hx => Nat.lt_succ_of_lt (h.below x hx), by simp⟩
  · rw [List.forall_mem_append]
    exact ⟨fun x hx => by simpa using .inl (by simpa using h.known x hx), by simp⟩
  · rw [List.forall_mem_append]
    exact ⟨h.categories, by simpa using hCategory⟩
  · intro k q hq
    rcases List.mem_append.mp hq with hq | hq
    · obtain ⟨taken, texts, hTexts, hStands, hOut⟩ := h.streams k q hq
      have hOther : k ≠ next := fun hEq => hNextM (hEq ▸ List.mem_map_of_mem hq)
      refine ⟨taken, texts, hTexts, hStands.of_same (fun _ => List.mem_append_left _) ?_, hOut⟩
      intro hGone
      simpa [hOther] using hGone
    · obtain ⟨rfl, rfl⟩ : k = next ∧ q = p := by simpa using hq
      obtain ⟨hOut, hJobs⟩ := h.unused k hNextM
      rw [hOut, hJobs]
      have hBegins : ReadTo q [] [] := hBytes ▸ ReadTo.beginning q
      refine ⟨[], [], rfl, .going ?_ hBegins, rfl⟩
      rw [← hBytes]
      simp
  · intro k hk
    apply h.unused
    intro hHere
    rw [List.map_append] at hk
    exact hk (List.mem_append_left _ hHere)

end Accounted

/-- What a debuggee does to a stream leaves alone what was read of it. -/
structure Pipe.Leaves (f : Pipe → Pipe) (p : Pipe) (more : Bytes) : Prop where
  category : (f p).category = p.category
  bytes : ∀ rest, f { p with bytes := rest } = { f p with bytes := rest ++ more }
  read : ∀ {taken rest}, ReadTo p taken rest → ReadTo (f p) taken (rest ++ more)
  ended : p.ended = true → (f p).ended = true ∧ more = []

theorem Pipe.leaves_write {d : DebuggeeId} {category : String} {bytes : Bytes}
    (hOpen : p.debuggee = d → p.category = category → p.ended = false) : ∃ more, Leaves (write d category bytes) p more := by
  by_cases hHere : p.debuggee = d ∧ p.category = category
  · have hNot := hOpen hHere.1 hHere.2
    refine ⟨bytes, ?_, ?_, ?_, ?_⟩
    · simp [write, hHere]
    · simp [write, hHere]
    · intro taken rest hRead
      rw [write, if_pos hHere]
      exact hRead.write hNot bytes
    · simp [hNot]
  · refine ⟨[], ?_, ?_, ?_, ?_⟩ <;> simp [write, hHere]

theorem Pipe.leaves_close (which : DebuggeeId → String → Bool) : Leaves (close which) p [] := by
  by_cases hHere : which p.debuggee p.category = true
  · refine ⟨?_, ?_, ?_, ?_⟩
    · simp [close, hHere]
    · simp [close, hHere]
    · intro taken rest hRead
      rw [close, if_pos hHere, List.append_nil]
      exact hRead.close
    · simp [close, hHere]
  · refine ⟨?_, ?_, ?_, ?_⟩ <;> simp [close, hHere]

theorem Accounted.map {out : Nat → List Dap.Outgoing} {jobs : Nat → Nat} {f : Pipe → Pipe} (h : Accounted u next m out jobs)
    (hLeaves : ∀ x ∈ m, ∃ more, Pipe.Leaves f x.2 more) :
    Accounted (u.map (Prod.map id f)) next (m.map (Prod.map id f)) out jobs := by
  have hKeys : ∀ l : Ledger, (l.map (Prod.map id f)).map (·.1) = l.map (·.1) := by simp
  refine ⟨?_, by rw [hKeys]; exact h.once, by rw [hKeys]; exact h.unreadOnce, ?_, ?_, ?_, by rw [hKeys]; exact h.unused⟩
  · exact List.forall_mem_map.mpr h.below
  · rw [hKeys]
    exact List.forall_mem_map.mpr h.known
  · rw [List.forall_mem_map]
    intro x hx
    obtain ⟨more, hMore⟩ := hLeaves x hx
    exact hMore.category ▸ h.categories x hx
  · intro k q hq
    obtain ⟨⟨k, p⟩, hp, hEq⟩ := List.mem_map.mp hq
    cases hEq
    obtain ⟨more, hMore⟩ := hLeaves _ hp
    obtain ⟨taken, texts, hTexts, hStands, hOut⟩ := h.streams k p hp
    refine ⟨taken, texts, hTexts, ?_, hMore.category ▸ hOut⟩
    change Stands k (f p) _ taken (jobs k)
    generalize jobs k = count at hStands
    cases hStands with
    | @going rest hRest hRead =>
      refine .going ?_ (hMore.read hRead)
      exact List.mem_map.mpr ⟨_, hRest, congrArg (k, ·) (hMore.bytes rest)⟩
    | atEnd hGone hEnd =>
      apply Stands.atEnd
      · rwa [hKeys]
      · rcases hEnd with ⟨hEnded, hRead⟩ | ⟨line, others, hRead, hNone⟩
        · obtain ⟨hStill, rfl⟩ := hMore.ended hEnded
          exact .inl ⟨hStill, hMore.read hRead⟩
        · exact .inr ⟨line, _, hMore.read hRead, hNone⟩

/-- The texts that were taken stand in front of all that can be read. -/
theorem Stands.readable {taken : List Bytes} {texts : List String} (h : Stands n p u taken jobs)
    (hTexts : taken.mapM Line.text? = some texts) :
    ∃ more, Line.readable (Line.lines p.bytes) = texts ++ more ∧ (n ∉ u.map (·.1) → more = []) ∧
      jobs ≤ (Line.lines p.bytes).length + 1 := by
  cases h with
  | @going rest hRest hRead =>
    refine ⟨Line.readable (Line.lines rest), ?_, ?_, ?_⟩
    · rw [hRead.lines, Line.readable_append hTexts]
    · exact fun hGone => absurd (List.mem_map_of_mem hRest) hGone
    · rw [hRead.lines, List.length_append]
      omega
  | atEnd _ hEnd =>
    refine ⟨[], ?_, fun _ => rfl, ?_⟩
    · rcases hEnd with ⟨-, hRead⟩ | ⟨line, rest, hRead, hNone⟩
      · rw [hRead.lines, Line.readable_append hTexts]
        rfl
      · rw [hRead.lines, List.append_assoc, Line.readable_append hTexts, List.singleton_append, Line.readable_cons_none hNone]
    · rcases hEnd with ⟨-, hRead⟩ | ⟨line, rest, hRead, -⟩ <;> simp only [hRead.lines, List.length_append] <;> omega

/-! ## What comes of itself -/

variable {s s' : Session}

theorem Pours.outbox {m' : Ledger} (h : Pours s m s' m') : s'.outbox = s.outbox := by
  cases h with
  | apart hOutside _ _ =>
    cases hOutside with
    | dispatch q =>
      rw [dispatch_eq]
      cases route q.command <;> rfl
    | book _ => rfl
    | streams _ _ => rfl
  | opens _ _ => rfl
  | writes _ _ _ _ => rfl
  | closes _ => rfl

theorem Accounted.pours {m' : Ledger} {out : Nat → List Dap.Outgoing} {jobs : Nat → Nat}
    (h : Accounted s.unread s.nextStream m out jobs) (hPours : Pours s m s' m') :
    Accounted s'.unread s'.nextStream m' out jobs := by
  cases hPours with
  | apart _ hStreams hNext =>
    rw [unread, hStreams, hNext]
    exact h
  | opens d hCategory =>
    rw [unread_addStream]
    apply h.opens _ rfl
    rintro rfl
    exact absurd hCategory (by decide)
  | writes d category bytes hOpen =>
    rw [unread_writeStream]
    exact h.map fun x hx => Pipe.leaves_write (hOpen x hx)
  | closes which =>
    rw [unread_closeStreams]
    exact h.map fun _ _ => ⟨[], Pipe.leaves_close which⟩

end JvmDebug.Session
