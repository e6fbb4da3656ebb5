import JvmDebug.Routine.Basic

/-!
# The configuration rendezvous

The client says when it has finished configuring. It gets no answer until a debuggee is about to run, and no debuggee
runs before the client has said so. Whoever waits looks at the phase itself, so nobody misses a change.
-/

namespace JvmDebug
set_option autoImplicit false

/-- `waiting` says that the client has finished and waits for its answer. -/
inductive Phase where
  | idle
  | waiting
  | released
  deriving DecidableEq, Repr

namespace Phase

def rank : Phase → Nat
  | idle => 0
  | waiting => 1
  | released => 2

def arrive : Phase → Phase
  | idle => waiting
  | p => p

def release (_ : Phase) : Phase := released

theorem rank_arrive (p : Phase) : p.rank ≤ p.arrive.rank := by cases p <;> decide

theorem rank_release (p : Phase) : p.rank ≤ p.release.rank := by cases p <;> decide

end Phase

namespace Rendezvous

variable {I : Interface}

/-- The client has finished: announces it, and waits for the release. -/
def arriveAndWait : Routine Phase I Unit := do
  Routine.modify Phase.arrive
  Routine.waitFor (· = .released)

/-- A debuggee is about to run: waits until the client has finished, and releases it. -/
def releaseWhenWaiting : Routine Phase I Unit := do
  Routine.waitFor (· ≠ .idle)
  Routine.modify Phase.release

end Rendezvous
end JvmDebug
