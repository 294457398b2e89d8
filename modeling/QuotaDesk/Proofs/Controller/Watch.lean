import QuotaDesk.Proofs.Controller.Run

/-! A run as a strand of it sees it. The strand has requests of its own. What they begin and how it
ends is kept under numbers of the strand, and with it the events that concern the strand, as a run
of the strand alone would be given them. -/

namespace QuotaDesk

variable {C : Controller}

inductive Sight (C : Controller)
  | called (task : Nat) (c : Call)
  | ended (task : Nat) (o : C.Outcome)

namespace Sight

def task : Sight C → Nat
  | called n _ | ended n _ => n

def renumbered (f : Nat → Nat) : Sight C → Sight C
  | called n c => called (f n) c
  | ended n o => ended (f n) o

end Sight

def Trace.sights (trace : Trace C) : List (Sight C) :=
  (trace.opened.toList.flatMap fun t => trace.calls.map (.called t.number)) ++
    trace.finished.map fun p => .ended p.1 p.2

def Trace.sightsOf (tasks : List Nat) (trace : Trace C) : List (Sight C) :=
  (trace.sights.filter fun s => s.task ∈ tasks).map (.renumbered fun n => tasks.idxOf n)

def Trace.callsOf (tasks : List Nat) (trace : Trace C) : List Nat :=
  (trace.opened.toList.filter fun t => t.number ∈ tasks).map Task.callNumber

def World.sights (w : World C) (es : List (Event C)) : List (Sight C) :=
  (w.run es).2.flatMap Trace.sights

theorem World.sights_append (w : World C) (es fs : List (Event C)) :
    w.sights (es ++ fs) = w.sights es ++ (w.after es).sights fs := by
  induction es generalizing w with
  | nil => rfl
  | cons e es ih =>
    have hcons : ∀ gs, w.sights (e :: gs) = (w.step e).2.sights ++ (w.step e).1.sights gs :=
      fun gs => List.flatMap_cons
    rw [List.cons_append, hcons, hcons, ih, List.append_assoc, after_cons]

theorem World.sights_singleton (w : World C) (e : Event C) : w.sights [e] = (w.step e).2.sights :=
  List.append_nil _

/-- A run as seen by the strand whose requests are `mine`. Its tasks and their calls are kept in
their order, so that the script can name them as a run of the strand alone would. -/
structure Watch (C : Controller) where
  world : World C
  tasks : List Nat := []
  calls : List Nat := []
  script : List (Event C) := []
  sights : List (Sight C) := []

namespace Watch

def event? (mine : C.Request → C.State → Bool) (q : Watch C) : Event C → Option (Event C)
  | .request r => if mine r q.world.state then some (.request r) else none
  | .reply n r => if n ∈ q.calls then some (.reply (q.calls.idxOf n) r) else none
  | .cancel n => if n ∈ q.tasks then some (.cancel (q.tasks.idxOf n)) else none

def tasksAfter (mine : C.Request → C.State → Bool) (q : Watch C) : Event C → List Nat
  | .request r => if mine r q.world.state then q.tasks ++ [q.world.started] else q.tasks
  | _ => q.tasks

def step (mine : C.Request → C.State → Bool) (q : Watch C) (e : Event C) : Watch C :=
  let tasks := q.tasksAfter mine e
  let trace := (q.world.step e).2
  { world := (q.world.step e).1
    tasks
    calls := q.calls ++ trace.callsOf tasks
    script := q.script ++ (q.event? mine e).toList
    sights := q.sights ++ trace.sightsOf tasks }

end Watch

def World.watch (mine : C.Request → C.State → Bool) (w : World C) (es : List (Event C)) : Watch C :=
  es.foldl (Watch.step mine) { world := w }

theorem World.watch_concat (mine : C.Request → C.State → Bool) (w : World C)
    (es : List (Event C)) (e : Event C) :
    w.watch mine (es ++ [e]) = (w.watch mine es).step mine e := by
  rw [World.watch, List.foldl_append]
  rfl

end QuotaDesk
