import QuotaDesk.Controller.Basic

/-! Runs of many tasks. Tasks and calls are numbered in the order in which they
begin. Requests, replies and cancellations may come in any order. -/

namespace QuotaDesk

structure Task (C : Controller) where
  number : Nat
  callNumber : Nat
  waiting : C.Waiting

structure World (C : Controller) where
  state : C.State
  tasks : List (Task C) := []
  started : Nat := 0
  issued : Nat := 0

/-- What a step did: the calls it issued, the task it left at a new call, and
the tasks that ended with their outcomes. -/
structure Trace (C : Controller) where
  calls : List Call := []
  opened : Option (Task C) := none
  finished : List (Nat × C.Outcome) := []

abbrev Reply : Type :=
  (c : Call) → Answer c

inductive Event (C : Controller)
  | request (r : C.Request)
  | reply (callNumber : Nat) (r : Reply)
  | cancel (task : Nat)

namespace World

variable {C : Controller}

def task? (p : Task C → Bool) (w : World C) : Option (Task C) :=
  w.tasks.find? p

def withoutTask (number : Nat) (w : World C) : World C :=
  { w with tasks := w.tasks.filter fun t => t.number != number }

def insertTask (t : Task C) : List (Task C) → List (Task C)
  | [] => [t]
  | u :: rest => if u.number = t.number then t :: rest else u :: insertTask t rest

def place (number : Nat) (w : World C) :
    C.State × Progress C.Waiting C.Outcome → World C × Trace C
  | (s, .finished r) =>
    ({ w.withoutTask number with state := s }, { finished := [(number, r)] })
  | (s, .waiting waiting) =>
    let t : Task C := ⟨number, w.issued, waiting⟩
    ({ w with state := s, tasks := insertTask t w.tasks, issued := w.issued + 1 },
      { calls := [C.call waiting], opened := some t })

def resumeTask (t : Task C) (a : Answer (C.call t.waiting)) (w : World C) :
    World C × Trace C :=
  w.place t.number (C.resume t.waiting a w.state)

/-- Replies to calls that are not open and cancellations of tasks that are not
live do nothing. -/
def step (w : World C) : Event C → World C × Trace C
  | .request r => { w with started := w.started + 1 }.place w.started (C.start r w.state)
  | .reply callNumber r =>
    match w.task? fun t => t.callNumber == callNumber with
    | some t => w.resumeTask t (r (C.call t.waiting))
    | none => (w, {})
  | .cancel number =>
    match w.task? fun t => t.number == number with
    | some t =>
      ({ w.withoutTask number with state := C.release t.waiting w.state }, {})
    | none => (w, {})

def run (w : World C) : List (Event C) → World C × List (Trace C)
  | [] => (w, [])
  | e :: rest =>
    let (w, trace) := w.step e
    let (w, traces) := run w rest
    (w, trace :: traces)

theorem rank_opened_lt {t u : Task C} {a : Answer (C.call t.waiting)} {w : World C}
    (h : (w.resumeTask t a).2.opened = some u) : C.rank u.waiting < C.rank t.waiting := by
  unfold resumeTask at h
  match hr : C.resume t.waiting a w.state, h with
  | (s, .finished r), h => simp [place] at h
  | (s, .waiting w'), h =>
    simp only [place, Option.some.injEq] at h
    subst h
    exact C.rank_lt t.waiting a w.state w' (by rw [hr])

def Trace.append (a b : Trace C) : Trace C :=
  ⟨a.calls ++ b.calls, b.opened, a.finished ++ b.finished⟩

/-- Gives a task that has just opened a call what the service answers at once. -/
def attend {σ : Type} (service : Service σ) (t : Task C) (w : World C) (store : σ) :
    World C × Trace C × σ :=
  match service.answer (C.call t.waiting) store with
  | (none, store) => (w, {}, store)
  | (some a, store) =>
    match h : w.resumeTask t a with
    | (w, trace) =>
      match hopen : trace.opened with
      | none => (w, trace, store)
      | some u =>
        have : C.rank u.waiting < C.rank t.waiting := rank_opened_lt (by rw [h]; exact hopen)
        let (w, rest, store) := attend service u w store
        (w, Trace.append trace rest, store)
termination_by C.rank t.waiting

def stepWith {σ : Type} (service : Service σ) (w : World C) (store : σ) (e : Event C) :
    World C × Trace C × σ :=
  let (w, trace) := w.step e
  match trace.opened with
  | none => (w, trace, store)
  | some t =>
    let (w, rest, store) := w.attend service t store
    (w, Trace.append trace rest, store)

end World
end QuotaDesk
