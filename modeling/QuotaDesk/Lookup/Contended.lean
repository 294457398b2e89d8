import Mathlib.Logic.Function.Basic
import QuotaDesk.Controller.World
import QuotaDesk.Lookup.Controller

/-! Lookups that contend for the lock on their state. A task takes the lock anew for each of its
accesses, and any others may come in between: after a page request has been admitted and before it
is sent, and after a task has been dropped and before its marker is taken down. -/

namespace QuotaDesk.Lookup

inductive Stage
  | called (x : Waiting)
  | admitted (r : PageRequest)
  | dropped (x : Waiting)
  deriving DecidableEq, Repr

structure Contended where
  state : State := {}
  stages : Nat → Option Stage := fun _ => none
  started : Nat := 0

/-- One access to the state. A cancellation is none yet, for a dropped task releases its marker
when it gets the lock. -/
inductive Hold
  | request (r : Request)
  | reply (task : Nat) (r : Reply)
  | send (task : Nat)
  | cancel (task : Nat)
  | release (task : Nat)

def staged {ω : Type} (stage : ω → Stage) :
    State × Progress ω Outcome → State × Progress Stage Outcome
  | (s, .waiting w) => (s, .waiting (stage w))
  | (s, .finished o) => (s, .finished o)

def startHold : Request → State → State × Progress Stage Outcome
  | .load page, s => staged .admitted (admitLoad page s)
  | r, s => staged .called (start r s)

def replyHold : (x : Waiting) → Answer (call x) → State → State × Progress Stage Outcome
  | .summary _ generation, a, s => staged .admitted (settleSummary generation a s)
  | .page _ page _ generation fetch chained, a, s =>
    staged .called (resumePage page generation fetch chained a s)

namespace Contended

def without (task : Nat) (c : Contended) : Contended :=
  { c with stages := Function.update c.stages task none }

def place (task : Nat) (c : Contended) :
    State × Progress Stage Outcome → Contended × List (Nat × Outcome)
  | (s, .waiting x) =>
    ({ c with state := s, stages := Function.update c.stages task (some x) }, [])
  | (s, .finished o) => ({ c.without task with state := s }, [(task, o)])

def step (c : Contended) : Hold → Contended × List (Nat × Outcome)
  | .request r => { c with started := c.started + 1 }.place c.started (startHold r c.state)
  | .reply task r =>
    match c.stages task with
    | some (.called x) => c.place task (replyHold x (r (call x)) c.state)
    | _ => (c, [])
  | .send task =>
    match c.stages task with
    | some (.admitted r) => c.place task (staged .called (fetchPage r c.state))
    | _ => (c, [])
  | .cancel task =>
    match c.stages task with
    | some (.called x) => c.place task (c.state, .waiting (.dropped x))
    | some (.admitted _) => (c.without task, [])
    | _ => (c, [])
  | .release task =>
    match c.stages task with
    | some (.dropped x) => ({ c.without task with state := release x c.state }, [])
    | _ => (c, [])

def run (c : Contended) : List Hold → Contended × List (Nat × Outcome)
  | [] => (c, [])
  | h :: rest =>
    let (c, ended) := c.step h
    let (c, later) := run c rest
    (c, ended ++ later)

end Contended
end QuotaDesk.Lookup
