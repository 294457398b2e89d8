import QuotaDesk.Call

/-! Concurrent requests over one shared state. A request becomes a task, and a
task runs in one go from one call of the service to the next, so the state is
never seen halfway through a step. This takes the lock on the state to be free
whenever a task asks for it: nothing comes between two holds of the lock without
a call in between, and a task that is dropped releases its marker at once. -/

namespace QuotaDesk

inductive Progress (ω ρ : Type)
  | waiting (w : ω)
  | finished (r : ρ)
  deriving DecidableEq, Repr

/-- The rules of a kind of task. `release` is what happens when a task is
dropped at an open call. The rank bounds the calls that a task still makes. -/
structure Controller where
  State : Type
  Request : Type
  Waiting : Type
  Outcome : Type
  call : Waiting → Call
  start : Request → State → State × Progress Waiting Outcome
  resume : (w : Waiting) → Answer (call w) → State → State × Progress Waiting Outcome
  release : Waiting → State → State
  rank : Waiting → Nat
  rank_lt : ∀ w a s w', (resume w a s).2 = .waiting w' → rank w' < rank w

namespace Controller

variable {m : Type → Type} [Monad m] (C : Controller)

def proceed (ask : (c : Call) → m (Answer c)) (w : C.Waiting) (s : C.State) :
    m (C.State × C.Outcome) :=
  ask (C.call w) >>= fun a =>
    match h : C.resume w a s with
    | (s, .finished r) => pure (s, r)
    | (s, .waiting w') =>
      have : C.rank w' < C.rank w := C.rank_lt w a _ w' (by rw [h])
      proceed ask w' s
termination_by C.rank w

def perform (ask : (c : Call) → m (Answer c)) (r : C.Request) (s : C.State) :
    m (C.State × C.Outcome) :=
  match C.start r s with
  | (s, .finished r) => pure (s, r)
  | (s, .waiting w) => C.proceed ask w s

end Controller
end QuotaDesk
