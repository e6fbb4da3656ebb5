import JvmDebug.Session.Requests

/-!
# Lanes

How requests reach the workers that serve them. A request is put on its lane, and taken from it when those before it are
done; so the answers on a lane come in the order of the requests. A request that ends the configuration has a worker of
its own, since it is answered late.
-/

namespace JvmDebug.Session
set_option autoImplicit false

/-- Puts a request on its lane. -/
def dispatch (r : Dap.Request) (s : Session) : Session :=
  match r.command with
  | "launch" | "attach" => { s with launcherLane := s.launcherLane ++ [.request r] }
  | "configurationDone" =>
    { s with arrivals := s.arrivals ++ [(s.nextArrival, r)], nextArrival := s.nextArrival + 1 }
  | _ => { s with defaultLane := s.defaultLane ++ [r] }

inductive Worker where
  | defaultLane
  | launcherLane
  /-- Forwards one stream of output. -/
  | forwarder (stream : Nat)
  /-- Serves one request that ends the configuration. -/
  | arrival (n : Nat)
  deriving DecidableEq, Repr

namespace Worker

def all (s : Session) : List Worker :=
  [defaultLane, launcherLane] ++ s.streams.map (forwarder ·.1) ++ s.arrivals.map (arrival ·.1)

def onLane (name : String) (job : Activity Unit) : Activity Unit := do
  Routine.trace .lanes s!"Lane {name} running job"
  job

def launcherJob : LauncherJob → Activity Unit
  | .request r => serve r
  | .run d announceThreads => runDebuggee d announceThreads

/-- What a free worker takes up. -/
def take (s : Session) : Worker → Option (Activity Unit × Session)
  | defaultLane =>
    match s.defaultLane with
    | [] => none
    | r :: rest => some (onLane "default" (serve r), { s with defaultLane := rest })
  | launcherLane =>
    match s.launcherLane with
    | [] => none
    | job :: rest => some (onLane "launcher" (launcherJob job), { s with launcherLane := rest })
  | forwarder n => takeOutput n s
  | arrival n =>
    match s.arrivals.find? (·.1 = n) with
    | some (_, r) => some (serve r, { s with arrivals := s.arrivals.filter (·.1 ≠ n) })
    | none => none

end Worker
end JvmDebug.Session
