import JvmDebug.Routine.Basic

/-!
# Crews

Workers that share one state. A worker that is free takes up what there is for it to do, and then goes on with it until
it is done. Which workers there are, and what each of them can take up, depends on the state. Time is virtual: it passes
only when no worker can go on, and then up to the moment at which the first of them has waited long enough.
-/

namespace JvmDebug
set_option autoImplicit false

/-- A worker in the middle of something, and how long it still waits at most. -/
structure Running (S : Type) (I : Interface) where
  routine : Routine S I Unit
  left : Option Nat

namespace Running

variable {S : Type} {I : Interface}

def start (r : Routine S I Unit) : Running S I := ⟨r, r.limit?⟩

/-- Lets time pass; a worker whose time is up goes on without what it waited for. -/
def elapse (time : Nat) (r : Running S I) : Running S I :=
  match r.left with
  | none => r
  | some left => if left ≤ time then .start r.routine.giveUp else { r with left := some (left - time) }

end Running

/-- Who works on a state, and at what; `K` names the workers. -/
structure Plan (K : Type) (S : Type) (I : Interface) where
  /-- The workers, in the order in which they go on if several of them can. -/
  workers : S → List K
  /-- What a free worker takes up, if there is something for it to do. -/
  take : K → S → Option (Routine S I Unit × S)
  /-- Files a log record away. -/
  keep : Log.Record → S → S
  /-- Lets the clock of the state go on. -/
  tick : Nat → S → S

/-- The workers that are busy. -/
structure Crew (K : Type) (S : Type) (I : Interface) where
  busy : List (K × Running S I) := []

namespace Crew

variable {K S : Type} {I : Interface} [DecidableEq K]

def find? (c : Crew K S I) (k : K) : Option (Running S I) := (c.busy.find? (·.1 = k)).map (·.2)

/-- Notes what a worker is at; none, if it is free. -/
def put (c : Crew K S I) (k : K) (r : Routine S I Unit) : Crew K S I :=
  let others := c.busy.filter (·.1 ≠ k)
  match r with
  | .done _ => ⟨others⟩
  | r => ⟨others ++ [(k, .start r)]⟩

/-- What a worker does next, if it can do something: it goes on, or takes up something new. -/
def next? (p : Plan K S I) (c : Crew K S I) (k : K) (s : S) : Option (Routine S I Unit × S) :=
  match c.find? k with
  | some r => if r.routine.canGoOn s then some (r.routine, s) else none
  | none => p.take k s

variable {m : Type → Type} [Monad m]

/-- Lets the first worker of a list go on that can, until it is done or has to wait. -/
def moveFirst (p : Plan K S I) (answer : (c : I.Call) → m (I.Answer c)) (c : Crew K S I) (s : S) :
    List K → m (Option (Crew K S I × S))
  | [] => return none
  | k :: rest =>
    match c.next? p k s with
    | some (r, s) => do
      let (r, s) ← r.advance answer p.keep s
      return some (c.put k r, s)
    | none => moveFirst p answer c s rest

/-- Lets one worker go on, if one can. -/
def move (p : Plan K S I) (answer : (c : I.Call) → m (I.Answer c)) (c : Crew K S I) (s : S) :
    m (Option (Crew K S I × S)) :=
  let workers := p.workers s
  moveFirst p answer c s (workers ++ (c.busy.map (·.1)).filter (· ∉ workers))

/-- Lets the workers go on until none of them can. -/
def settle (p : Plan K S I) (answer : (c : I.Call) → m (I.Answer c)) :
    (fuel : Nat) → Crew K S I → S → m (Crew K S I × S)
  | 0, c, s => return (c, s)
  | fuel + 1, c, s => do
    match ← move p answer c s with
    | some (c, s) => settle p answer fuel c s
    | none => return (c, s)

/-- The least time that a worker still waits. -/
def nextLimit? (c : Crew K S I) : Option Nat := (c.busy.filterMap (·.2.left)).min?

/-- Lets time pass for every worker and for the state. -/
def elapse (p : Plan K S I) (time : Nat) (c : Crew K S I) (s : S) : Crew K S I × S :=
  (⟨c.busy.map fun (k, r) => (k, r.elapse time)⟩, p.tick time s)

/-- Lets the workers go on, and time pass, until nothing more can happen or the time is up; says how much of it is left.
Time goes in at most `waits` steps. -/
def finish (p : Plan K S I) (answer : (c : I.Call) → m (I.Answer c)) (fuel : Nat) :
    (waits : Nat) → (time : Nat) → Crew K S I → S → m (Nat × Crew K S I × S)
  | 0, time, c, s => return (time, ← settle p answer fuel c s)
  | waits + 1, time, c, s => do
    let (c, s) ← settle p answer fuel c s
    match c.nextLimit? with
    | none => return (time, c, s)
    | some least =>
      if least < time then
        let (c, s) := c.elapse p least s
        finish p answer fuel waits (time - least) c s
      else return (0, c, s)

end Crew
end JvmDebug
