import JvmDebug.Log

/-!
# Routines

A routine is a program that shares a state `S` with other routines. It goes on in steps, between which others may come
in: it changes the state in one go, waits until the state is as it needs it, calls on the world outside and goes on
with the answer, or notes a log record. Calls and their answers are given by an interface.
-/

namespace JvmDebug
set_option autoImplicit false

/-- The calls that a program may make, and what each is answered with. -/
structure Interface where
  Call : Type
  Answer : Call → Type

inductive Routine (S : Type) (I : Interface) (α : Type) where
  | done (a : α)
  /-- Changes the state, and goes on from what it was. -/
  | atomic (change : S → S) (next : S → Routine S I α)
  /-- Once the state is ready, changes it and goes on with `true`; when so many milliseconds have passed, goes on with
  `false`. -/
  | wait (ready : S → Bool) (change : S → S) (limit : Option Nat) (next : Bool → Routine S I α)
  | call (c : I.Call) (next : I.Answer c → Routine S I α)
  | note (r : Log.Record) (next : Routine S I α)

namespace Routine

variable {S T : Type} {I J : Interface} {α β γ : Type}

def bind : Routine S I α → (α → Routine S I β) → Routine S I β
  | .done a, k => k a
  | .atomic change next, k => .atomic change fun s => (next s).bind k
  | .wait ready change limit next, k => .wait ready change limit fun b => (next b).bind k
  | .call c next, k => .call c fun a => (next a).bind k
  | .note r next, k => .note r (next.bind k)

instance : Monad (Routine S I) where
  pure := .done
  bind := bind

theorem bind_done (r : Routine S I α) : r.bind .done = r := by
  induction r with
  | done => rfl
  | atomic _ _ ih => simp [bind, ih]
  | wait _ _ _ _ ih => simp [bind, ih]
  | call _ _ ih => simp [bind, ih]
  | note _ _ ih => simp [bind, ih]

theorem bind_assoc (r : Routine S I α) (k : α → Routine S I β) (l : β → Routine S I γ) :
    (r.bind k).bind l = r.bind fun a => (k a).bind l := by
  induction r with
  | done => rfl
  | atomic _ _ ih => simp [bind, ih]
  | wait _ _ _ _ ih => simp [bind, ih]
  | call _ _ ih => simp [bind, ih]
  | note _ _ ih => simp [bind, ih]

instance : LawfulMonad (Routine S I) :=
  LawfulMonad.mk' _ (fun r => bind_done r) (fun _ _ => rfl) (fun r k l => bind_assoc r k l)

def get : Routine S I S := .atomic id .done
def gets (f : S → α) : Routine S I α := .atomic id fun s => .done (f s)
def modify (change : S → S) : Routine S I Unit := .atomic change fun _ => .done ()

/-- Changes the state and yields a value in one step. -/
def modifyGet (f : S → α × S) : Routine S I α := .atomic (fun s => (f s).2) fun s => .done (f s).1

def waitFor (ready : S → Bool) : Routine S I Unit := .wait ready id none fun _ => .done ()

/-- Waits until the state is ready, and changes it before anyone else can. -/
def waitAndChange (ready : S → Bool) (change : S → S) : Routine S I Unit := .wait ready change none fun _ => .done ()

/-- Waits for a while at most; says whether the state was ready in time. -/
def waitUpTo (limit : Nat) (ready : S → Bool) : Routine S I Bool := .wait ready id (some limit) .done

def sleep (milliseconds : Nat) : Routine S I Unit := .wait (fun _ => false) id (some milliseconds) fun _ => .done ()

def ask (c : I.Call) : Routine S I (I.Answer c) := .call c .done

def log (level : Log.Level) (part : Log.Part) (text : String) : Routine S I Unit := .note ⟨level, part, text⟩ (.done ())

def error (part : Log.Part) (text : String) : Routine S I Unit := log .error part text
def warn (part : Log.Part) (text : String) : Routine S I Unit := log .warn part text
def info (part : Log.Part) (text : String) : Routine S I Unit := log .info part text
def debug (part : Log.Part) (text : String) : Routine S I Unit := log .debug part text
def trace (part : Log.Part) (text : String) : Routine S I Unit := log .trace part text

/-- Runs a routine on a part of a larger state. -/
def zoom (view : S → T) (put : T → S → S) : Routine T I α → Routine S I α
  | .done a => .done a
  | .atomic change next => .atomic (fun s => put (change (view s)) s) fun s => zoom view put (next (view s))
  | .wait ready change limit next =>
    .wait (fun s => ready (view s)) (fun s => put (change (view s)) s) limit fun b => zoom view put (next b)
  | .call c next => .call c fun a => zoom view put (next a)
  | .note r next => .note r (zoom view put next)

/-- Has the calls of a routine answered by other routines. -/
def interpret (answer : (c : I.Call) → Routine S J (I.Answer c)) : Routine S I α → Routine S J α
  | .done a => .done a
  | .atomic change next => .atomic change fun s => interpret answer (next s)
  | .wait ready change limit next => .wait ready change limit fun b => interpret answer (next b)
  | .call c next => (answer c).bind fun a => interpret answer (next a)
  | .note r next => .note r (interpret answer next)

/-- Goes on only for as long as the state is as it should be; otherwise ends where it waits. -/
def whilst (alive : S → Bool) : Routine S I Unit → Routine S I Unit
  | .done a => .done a
  | .atomic change next => .atomic change fun s => whilst alive (next s)
  | .wait ready change limit next =>
    .wait (fun s => ready s || !alive s) (fun s => if alive s then change s else s) limit fun b =>
      .atomic id fun s => if alive s then whilst alive (next b) else .done ()
  | .call c next => .call c fun a => whilst alive (next a)
  | .note r next => .note r (whilst alive next)

/-- Waits no longer than to a moment on the clock of the state; yields nothing if the time was too short. -/
def before (clock : S → Nat) (moment : Nat) : Routine S I α → Routine S I (Option α)
  | .done a => .done (some a)
  | .atomic change next => .atomic change fun s => before clock moment (next s)
  | .wait ready change limit next =>
    .atomic id fun s =>
      let left := moment - clock s
      .wait ready change (some (min left (limit.getD left))) fun b =>
        if b || limit.any (· ≤ left) then before clock moment (next b) else .done none
  | .call c next => .call c fun a => before clock moment (next a)
  | .note r next => .note r (before clock moment next)

/-- Does something for each item of a list, the first one first. -/
def each (items : List α) (body : α → Routine S I Unit) : Routine S I Unit :=
  match items with
  | [] => .done ()
  | a :: rest => (body a).bind fun _ => each rest body

/-- Goes on for as long as it neither ends nor has to wait. Calls are answered in a monad; `keep` files records away. -/
def advance {m : Type → Type} [Monad m] (answer : (c : I.Call) → m (I.Answer c)) (keep : Log.Record → S → S) :
    Routine S I α → S → m (Routine S I α × S)
  | .done a, s => pure (.done a, s)
  | .atomic change next, s => advance answer keep (next s) (change s)
  | .wait ready change limit next, s =>
    if ready s then advance answer keep (next true) (change s) else pure (.wait ready change limit next, s)
  | .call c next, s => do advance answer keep (next (← answer c)) s
  | .note r next, s => advance answer keep next (keep r s)

def result? : Routine S I α → Option α
  | .done a => some a
  | _ => none

/-- Whether it need not wait in a state. -/
def canGoOn (s : S) : Routine S I α → Bool
  | .wait ready _ _ _ => ready s
  | _ => true

/-- How long it would wait where it stands. -/
def limit? : Routine S I α → Option Nat
  | .wait _ _ limit _ => limit
  | _ => none

/-- What it does when it has waited long enough. -/
def giveUp : Routine S I α → Routine S I α
  | .wait _ _ _ next => next false
  | r => r

end Routine

/-- A routine that may fail. -/
abbrev Attempt (ε : Type) (S : Type) (I : Interface) (α : Type) := ExceptT ε (Routine S I) α

namespace Attempt

variable {ε δ S : Type} {I : Interface} {α : Type}

/-- What came of it, failure or not. -/
def outcome (a : Attempt ε S I α) : Routine S I (Except ε α) := a.run

def ofRoutine (r : Routine S I (Except ε α)) : Attempt ε S I α := ExceptT.mk r

def mapError (f : ε → δ) (a : Attempt ε S I α) : Attempt δ S I α := ExceptT.mk ((Except.mapError f) <$> a.run)

end Attempt
end JvmDebug
