import QuotaDesk.Proofs.Controller.Latch
import QuotaDesk.Proofs.Controller.Watch

/-! A strand of a run that goes on as by itself. If no other task touches what the tasks of the
strand look at, they issue the same calls and end alike in a run in which no request is made
but those of the strand. -/

namespace QuotaDesk

variable {C : Controller}

/-- A strand of the requests, with what relates the shared state to that of the strand alone, and the
waits of its own tasks and of others. -/
structure Strand (C : Controller) where
  mine : C.Request → C.State → Bool
  Fine : C.Request → C.State → Prop
  Alike : C.State → C.State → Prop
  Own : C.State → C.Waiting → Prop
  Other : C.State → C.Waiting → Prop
  moved : C.Waiting → C.Waiting

namespace Strand

variable {P : Strand C}

structure Keeps (P : Strand C) (s s' : C.State) : Prop where
  own : ∀ x, P.Own s x → P.Own s' x
  other : ∀ x, P.Other s x → P.Other s' x

inductive Together (P : Strand C) (s : C.State) :
    C.State × Progress C.Waiting C.Outcome → C.State × Progress C.Waiting C.Outcome → Prop
  | ends {s' u' : C.State} {o : C.Outcome} (halike : P.Alike s' u') (hkeeps : P.Keeps s s') :
      Together P s (s', .finished o) (u', .finished o)
  | waits {s' u' : C.State} {x : C.Waiting} (halike : P.Alike s' u') (hkeeps : P.Keeps s s')
      (hown : P.Own s' x) : Together P s (s', .waiting x) (u', .waiting (P.moved x))

inductive Apart (P : Strand C) (s u : C.State) : C.State × Progress C.Waiting C.Outcome → Prop
  | ends {s' : C.State} {o : C.Outcome} (halike : P.Alike s' u) (hkeeps : P.Keeps s s') :
      Apart P s u (s', .finished o)
  | waits {s' : C.State} {x : C.Waiting} (halike : P.Alike s' u) (hkeeps : P.Keeps s s')
      (hother : P.Other s' x) : Apart P s u (s', .waiting x)

theorem Keeps.trans {s₁ s₂ s₃ : C.State} (h : P.Keeps s₁ s₂) (h' : P.Keeps s₂ s₃) :
    P.Keeps s₁ s₃ :=
  ⟨fun x hx => h'.own x (h.own x hx), fun x hx => h'.other x (h.other x hx)⟩

theorem Together.after {s s₁ : C.State} {p p' : C.State × Progress C.Waiting C.Outcome}
    (hkeeps : P.Keeps s s₁) (h : P.Together s₁ p p') : P.Together s p p' := by
  cases h with
  | ends halike h => exact .ends halike (hkeeps.trans h)
  | waits halike h hown => exact .waits halike (hkeeps.trans h) hown

theorem Apart.after {s s₁ u : C.State} {p : C.State × Progress C.Waiting C.Outcome}
    (hkeeps : P.Keeps s s₁) (h : P.Apart s₁ u p) : P.Apart s u p := by
  cases h with
  | ends halike h => exact .ends halike (hkeeps.trans h)
  | waits halike h hother => exact .waits halike (hkeeps.trans h) hother

structure Lawful (P : Strand C) : Prop where
  call_moved : ∀ s x, P.Own s x → C.call (P.moved x) = C.call x
  mine_alone : ∀ r s u, P.Alike s u → P.mine r s = true → P.mine r u = true
  start_mine : ∀ r s u, P.Alike s u → P.Fine r s → P.mine r s = true →
    P.Together s (C.start r s) (C.start r u)
  start_other : ∀ r s u, P.Alike s u → P.Fine r s → P.mine r s = false → P.Apart s u (C.start r s)
  resume_own : ∀ x s u (r : Reply), P.Alike s u → P.Own s x →
    P.Together s (C.resume x (r (C.call x)) s) (C.resume (P.moved x) (r (C.call (P.moved x))) u)
  resume_other : ∀ x s u a, P.Alike s u → P.Other s x → P.Apart s u (C.resume x a s)
  release_own : ∀ x s u, P.Alike s u → P.Own s x →
    P.Alike (C.release x s) (C.release (P.moved x) u) ∧ P.Keeps s (C.release x s)
  release_other : ∀ x s u, P.Alike s u → P.Other s x →
    P.Alike (C.release x s) u ∧ P.Keeps s (C.release x s)

def movedTask (P : Strand C) (tasks calls : List Nat) (t : Task C) : Task C :=
  ⟨tasks.idxOf t.number, calls.idxOf t.callNumber, P.moved t.waiting⟩

/-- The world `u` of the strand alone stands where the strand stands in `w`. -/
structure Follows (P : Strand C) (tasks calls : List Nat) (w u : World C) : Prop where
  numbered : w.Numbered
  alone : u.Numbered
  alike : P.Alike w.state u.state
  started : u.started = tasks.length
  issued : u.issued = calls.length
  task_lt : ∀ n ∈ tasks, n < w.started
  call_lt : ∀ n ∈ calls, n < w.issued
  mem_iff : ∀ u', u' ∈ u.tasks ↔
    ∃ t ∈ w.tasks, t.number ∈ tasks ∧ u' = P.movedTask tasks calls t
  own : ∀ t ∈ w.tasks, t.number ∈ tasks → t.callNumber ∈ calls ∧ P.Own w.state t.waiting
  other : ∀ t ∈ w.tasks, t.number ∉ tasks → t.callNumber ∉ calls ∧ P.Other w.state t.waiting

namespace Follows

variable {tasks calls : List Nat} {w u : World C} {n : Nat}

theorem remove_own (h : P.Follows tasks calls w u) {s s' : C.State}
    (halike : P.Alike s s') (hkeeps : P.Keeps w.state s) :
    P.Follows tasks calls { w.withoutTask n with state := s }
      { u.withoutTask (tasks.idxOf n) with state := s' } where
  numbered := h.numbered.withoutTask n s
  alone := h.alone.withoutTask _ s'
  alike := halike
  started := h.started
  issued := h.issued
  task_lt := h.task_lt
  call_lt := h.call_lt
  mem_iff := by
    intro u'
    -- Tasks of the strand have different places in its list, so the same one goes on both sides.
    have hidx : ∀ t : Task C, t.number ∈ tasks →
        (tasks.idxOf t.number ≠ tasks.idxOf n ↔ t.number ≠ n) :=
      fun t ht => not_congr (List.idxOf_inj ht)
    simp only [World.mem_withoutTask, h.mem_iff]
    constructor
    · rintro ⟨⟨t, ht, hmine, rfl⟩, hne⟩
      exact ⟨t, ⟨ht, (hidx t hmine).mp hne⟩, hmine, rfl⟩
    · rintro ⟨t, ⟨ht, hne⟩, hmine, rfl⟩
      exact ⟨⟨t, ht, hmine, rfl⟩, (hidx t hmine).mpr hne⟩
  own := by
    intro t ht hmine
    obtain ⟨hcall, hown⟩ := h.own t (World.mem_withoutTask.mp ht).1 hmine
    exact ⟨hcall, hkeeps.own _ hown⟩
  other := by
    intro t ht hother
    obtain ⟨hcall, hwait⟩ := h.other t (World.mem_withoutTask.mp ht).1 hother
    exact ⟨hcall, hkeeps.other _ hwait⟩

theorem remove_other (h : P.Follows tasks calls w u) (hn : n ∉ tasks) {s : C.State}
    (halike : P.Alike s u.state) (hkeeps : P.Keeps w.state s) :
    P.Follows tasks calls { w.withoutTask n with state := s } u where
  numbered := h.numbered.withoutTask n s
  alone := h.alone
  alike := halike
  started := h.started
  issued := h.issued
  task_lt := h.task_lt
  call_lt := h.call_lt
  mem_iff := by
    intro u'
    rw [h.mem_iff]
    refine exists_congr fun t => ⟨?_, ?_⟩
    · rintro ⟨ht, hmine, rfl⟩
      exact ⟨World.mem_withoutTask.mpr ⟨ht, fun heq => hn (heq ▸ hmine)⟩, hmine, rfl⟩
    · rintro ⟨ht, hmine, rfl⟩
      exact ⟨(World.mem_withoutTask.mp ht).1, hmine, rfl⟩
  own := by
    intro t ht hmine
    obtain ⟨hcall, hown⟩ := h.own t (World.mem_withoutTask.mp ht).1 hmine
    exact ⟨hcall, hkeeps.own _ hown⟩
  other := by
    intro t ht hother
    obtain ⟨hcall, hwait⟩ := h.other t (World.mem_withoutTask.mp ht).1 hother
    exact ⟨hcall, hkeeps.other _ hwait⟩

theorem insert_own (h : P.Follows tasks calls w u) (hn : n ∈ tasks) {x : C.Waiting}
    (hx : P.Own w.state x) {l l' : List (Task C)}
    (hv : ({ w with tasks := l, issued := w.issued + 1 } : World C).Numbered)
    (hv' : ({ u with tasks := l', issued := u.issued + 1 } : World C).Numbered)
    (hmem : ∀ t, t ∈ l ↔ t ∈ w.tasks ∨ t = ⟨n, w.issued, x⟩)
    (hmem' : ∀ t, t ∈ l' ↔ t ∈ u.tasks ∨ t = ⟨tasks.idxOf n, u.issued, P.moved x⟩) :
    P.Follows tasks (calls ++ [w.issued]) { w with tasks := l, issued := w.issued + 1 }
      { u with tasks := l', issued := u.issued + 1 } where
  numbered := hv
  alone := hv'
  alike := h.alike
  started := h.started
  issued := by rw [h.issued, List.length_append, List.length_singleton]
  task_lt := h.task_lt
  call_lt := by
    intro m hm
    rcases List.mem_append.mp hm with hm | hm
    · exact Nat.lt_succ_of_lt (h.call_lt m hm)
    · exact List.mem_singleton.mp hm ▸ Nat.lt_succ_self _
  mem_iff := by
    intro u'
    have hnew : w.issued ∉ calls := fun hm => Nat.lt_irrefl _ (h.call_lt _ hm)
    -- Calls that were open before keep their places; the new one takes the next.
    have hold : ∀ t ∈ w.tasks, t.number ∈ tasks →
        P.movedTask tasks (calls ++ [w.issued]) t = P.movedTask tasks calls t := by
      intro t ht hmine
      rw [movedTask, List.idxOf_append_of_mem (h.own t ht hmine).1]
      rfl
    have hlast : P.movedTask tasks (calls ++ [w.issued]) ⟨n, w.issued, x⟩ =
        ⟨tasks.idxOf n, u.issued, P.moved x⟩ := by
      rw [movedTask, List.idxOf_append_of_notMem hnew, List.idxOf_cons_self, h.issued]
      rfl
    rw [hmem', h.mem_iff]
    constructor
    · rintro (⟨t, ht, hmine, rfl⟩ | rfl)
      · exact ⟨t, (hmem t).mpr (.inl ht), hmine, (hold t ht hmine).symm⟩
      · exact ⟨⟨n, w.issued, x⟩, (hmem _).mpr (.inr rfl), hn, hlast.symm⟩
    · rintro ⟨t, ht, hmine, rfl⟩
      rcases (hmem t).mp ht with ht | rfl
      · exact .inl ⟨t, ht, hmine, hold t ht hmine⟩
      · exact .inr hlast
  own := by
    intro t ht hmine
    rcases (hmem t).mp ht with ht | rfl
    · exact ⟨List.mem_append_left _ (h.own t ht hmine).1, (h.own t ht hmine).2⟩
    · exact ⟨List.mem_append_right _ (List.mem_singleton_self _), hx⟩
  other := by
    intro t ht hother
    rcases (hmem t).mp ht with ht | rfl
    · refine ⟨fun hcall => ?_, (h.other t ht hother).2⟩
      rcases List.mem_append.mp hcall with hcall | hcall
      · exact (h.other t ht hother).1 hcall
      · exact Nat.ne_of_lt (h.numbered.callNumber_lt t ht) (List.mem_singleton.mp hcall)
    · exact absurd hn hother

theorem insert_other (h : P.Follows tasks calls w u) (hn : n ∉ tasks) {x : C.Waiting}
    (hx : P.Other w.state x) {l : List (Task C)}
    (hv : ({ w with tasks := l, issued := w.issued + 1 } : World C).Numbered)
    (hmem : ∀ t, t ∈ l ↔ t ∈ w.tasks ∨ t = ⟨n, w.issued, x⟩) :
    P.Follows tasks calls { w with tasks := l, issued := w.issued + 1 } u where
  numbered := hv
  alone := h.alone
  alike := h.alike
  started := h.started
  issued := h.issued
  task_lt := h.task_lt
  call_lt := fun m hm => Nat.lt_succ_of_lt (h.call_lt m hm)
  mem_iff := by
    intro u'
    rw [h.mem_iff]
    refine exists_congr fun t => and_congr_left fun hmine => ?_
    refine ((hmem t).trans (or_iff_left ?_)).symm
    rintro rfl
    exact hn hmine.1
  own := by
    intro t ht hmine
    rcases (hmem t).mp ht with ht | rfl
    · exact h.own t ht hmine
    · exact absurd hmine hn
  other := by
    intro t ht hother
    rcases (hmem t).mp ht with ht | rfl
    · exact h.other t ht hother
    · exact ⟨fun hcall => Nat.lt_irrefl _ (h.call_lt _ hcall), hx⟩

theorem mem_insertTask_iff (hw : w.Numbered) {m : Nat} {x : C.Waiting} {s : C.State} (t : Task C) :
    t ∈ World.insertTask ⟨n, m, x⟩ w.tasks ↔
      t ∈ ({ w.withoutTask n with state := s } : World C).tasks ∨ t = ⟨n, m, x⟩ := by
  rw [World.mem_insertTask hw.sorted, or_comm]
  exact or_congr_left World.mem_withoutTask.symm

theorem mem_tasks_concat (h : P.Follows tasks calls w u) {t : Task C} (ht : t ∈ w.tasks) :
    t.number ∈ tasks ++ [w.started] ↔ t.number ∈ tasks := by
  rw [List.mem_append, List.mem_singleton]
  exact or_iff_left (h.numbered.ne_started t ht)

theorem place_own (hP : P.Lawful) (h : P.Follows tasks calls w u) (hn : n ∈ tasks)
    {p p' : C.State × Progress C.Waiting C.Outcome} (hp : P.Together w.state p p')
    (hv : (w.place n p).1.Numbered) (hv' : (u.place (tasks.idxOf n) p').1.Numbered) :
    P.Follows tasks (calls ++ (w.place n p).2.callsOf tasks) (w.place n p).1
        (u.place (tasks.idxOf n) p').1 ∧
      (w.place n p).2.sightsOf tasks = (u.place (tasks.idxOf n) p').2.sights := by
  cases hp with
  | @ends s s' o halike hkeeps =>
    have hcalls : (w.place n (s, .finished o)).2.callsOf tasks = [] := rfl
    refine ⟨?_, ?_⟩
    · rw [hcalls, List.append_nil]
      exact h.remove_own halike hkeeps
    · simp [World.place, Trace.sightsOf, Trace.sights, Sight.task, Sight.renumbered, hn]
  | @waits s s' x halike hkeeps hown =>
    have hcalls : (w.place n (s, .waiting x)).2.callsOf tasks = [w.issued] := by
      simp [World.place, Trace.callsOf, hn]
    refine ⟨?_, ?_⟩
    · rw [hcalls]
      exact (h.remove_own halike hkeeps).insert_own hn hown hv hv'
        (mem_insertTask_iff h.numbered) (mem_insertTask_iff h.alone)
    · simp [World.place, Trace.sightsOf, Trace.sights, Sight.task, Sight.renumbered, hn,
        hP.call_moved s x hown]

theorem place_other (h : P.Follows tasks calls w u) (hn : n ∉ tasks)
    {p : C.State × Progress C.Waiting C.Outcome} (hp : P.Apart w.state u.state p)
    (hv : (w.place n p).1.Numbered) :
    P.Follows tasks calls (w.place n p).1 u ∧ (w.place n p).2.callsOf tasks = [] ∧
      (w.place n p).2.sightsOf tasks = [] := by
  cases hp with
  | ends halike hkeeps =>
    refine ⟨h.remove_other hn halike hkeeps, rfl, ?_⟩
    simp [World.place, Trace.sightsOf, Trace.sights, Sight.task, hn]
  | waits halike hkeeps hother =>
    refine ⟨(h.remove_other hn halike hkeeps).insert_other hn hother hv
      (mem_insertTask_iff h.numbered), ?_, ?_⟩
    · simp [World.place, Trace.callsOf, hn]
    · simp [World.place, Trace.sightsOf, Trace.sights, Sight.task, hn]

theorem begin_own (h : P.Follows tasks calls w u) :
    P.Follows (tasks ++ [w.started]) calls { w with started := w.started + 1 }
      { u with started := u.started + 1 } where
  numbered := h.numbered.begin
  alone := h.alone.begin
  alike := h.alike
  started := by rw [h.started, List.length_append, List.length_singleton]
  issued := h.issued
  task_lt := by
    intro n hn
    rcases List.mem_append.mp hn with hn | hn
    · exact Nat.lt_succ_of_lt (h.task_lt n hn)
    · exact List.mem_singleton.mp hn ▸ Nat.lt_succ_self _
  call_lt := h.call_lt
  mem_iff := by
    intro u'
    rw [h.mem_iff]
    refine exists_congr fun t => and_congr_right fun ht => ?_
    rw [mem_tasks_concat h ht]
    refine and_congr_right fun hmine => ?_
    rw [movedTask, movedTask, List.idxOf_append_of_mem hmine]
  own := fun t ht hmine => h.own t ht ((mem_tasks_concat h ht).mp hmine)
  other := fun t ht hother => h.other t ht fun hmine => hother ((mem_tasks_concat h ht).mpr hmine)

theorem begin_other (h : P.Follows tasks calls w u) :
    P.Follows tasks calls { w with started := w.started + 1 } u where
  numbered := h.numbered.begin
  alone := h.alone
  alike := h.alike
  started := h.started
  issued := h.issued
  task_lt := fun n hn => Nat.lt_succ_of_lt (h.task_lt n hn)
  call_lt := h.call_lt
  mem_iff := h.mem_iff
  own := h.own
  other := h.other

end Follows

structure Advances (P : Strand C) (q : Watch C) (u : World C) (e : Event C) : Prop where
  follows : P.Follows (q.step P.mine e).tasks (q.step P.mine e).calls (q.step P.mine e).world
    (u.after (q.event? P.mine e).toList)
  sights : (q.step P.mine e).sights = q.sights ++ u.sights (q.event? P.mine e).toList

section Events

variable {q : Watch C} {u : World C}

theorem advances_of_own (hP : P.Lawful) {e e' : Event C} {n : Nat}
    {p p' : C.State × Progress C.Waiting C.Outcome} {v v' : World C}
    (hevent : q.event? P.mine e = some e')
    (hv : P.Follows (q.tasksAfter P.mine e) q.calls v v') (hn : n ∈ q.tasksAfter P.mine e)
    (hp : P.Together v.state p p') (hstep : q.world.step e = v.place n p)
    (hstep' : u.step e' = v'.place ((q.tasksAfter P.mine e).idxOf n) p')
    (hw : q.world.Numbered) (hu : u.Numbered) : P.Advances q u e := by
  obtain ⟨hfollows, hsights⟩ := hv.place_own hP hn hp (hstep ▸ hw.step e) (hstep' ▸ hu.step e')
  rw [← hstep, ← hstep'] at hfollows hsights
  refine ⟨?_, ?_⟩
  · rw [hevent]
    exact hfollows
  · rw [hevent, Option.toList_some, World.sights_singleton, ← hsights]
    rfl

theorem advances_of_other {e : Event C} {n : Nat} {p : C.State × Progress C.Waiting C.Outcome}
    {v : World C} (hevent : q.event? P.mine e = none) (htasks : q.tasksAfter P.mine e = q.tasks)
    (hv : P.Follows q.tasks q.calls v u) (hn : n ∉ q.tasks) (hp : P.Apart v.state u.state p)
    (hstep : q.world.step e = v.place n p) (hw : q.world.Numbered) : P.Advances q u e := by
  obtain ⟨hfollows, hcalls, hsights⟩ := hv.place_other hn hp (hstep ▸ hw.step e)
  rw [← hstep] at hfollows hcalls hsights
  refine ⟨?_, ?_⟩
  · simp only [Watch.step, htasks, hcalls, List.append_nil, hevent]
    exact hfollows
  · simp only [Watch.step, htasks, hsights, hevent]
    rfl

theorem advances_of_silent {e : Event C} {v v' : World C} (hv : P.Follows q.tasks q.calls v v')
    (htasks : q.tasksAfter P.mine e = q.tasks) (hstep : q.world.step e = (v, {}))
    (hsome : ∀ e', q.event? P.mine e = some e' → u.step e' = (v', {}))
    (hnone : q.event? P.mine e = none → v' = u) : P.Advances q u e := by
  have hcalls : Trace.callsOf q.tasks (C := C) {} = [] := rfl
  have hsights : Trace.sightsOf q.tasks (C := C) {} = [] := rfl
  cases hevent : q.event? P.mine e with
  | none =>
    obtain rfl := hnone hevent
    refine ⟨?_, ?_⟩
    · simp only [Watch.step, htasks, hstep, hcalls, List.append_nil, hevent]
      exact hv
    · simp only [Watch.step, htasks, hstep, hsights, hevent]
      rfl
  | some e' =>
    have hu := hsome e' hevent
    refine ⟨?_, ?_⟩
    · simp only [Watch.step, htasks, hstep, hcalls, List.append_nil, hevent, Option.toList_some,
        World.after_cons, World.after_nil, hu]
      exact hv
    · simp only [Watch.step, htasks, hstep, hsights, hevent, Option.toList_some, World.sights_singleton,
        hu]
      rfl

theorem advances_request (hP : P.Lawful) (h : P.Follows q.tasks q.calls q.world u) {r : C.Request}
    (hfine : P.Fine r q.world.state) : P.Advances q u (.request r) := by
  cases hmine : P.mine r q.world.state with
  | true =>
    have htasks : q.tasksAfter P.mine (.request r) = q.tasks ++ [q.world.started] := by
      simp [Watch.tasksAfter, hmine]
    have hnew : q.world.started ∉ q.tasks := fun hn => Nat.lt_irrefl _ (h.task_lt _ hn)
    have hplace : (q.tasks ++ [q.world.started]).idxOf q.world.started = u.started := by
      rw [List.idxOf_append_of_notMem hnew, List.idxOf_cons_self, h.started]
      rfl
    have hbegun : P.Follows (q.tasksAfter P.mine (.request r)) q.calls
        { q.world with started := q.world.started + 1 } { u with started := u.started + 1 } :=
      htasks ▸ h.begin_own
    have hevent : q.event? P.mine (.request r) = some (.request r) := if_pos hmine
    refine advances_of_own hP (n := q.world.started) hevent hbegun ?_
      (hP.start_mine r _ _ h.alike hfine hmine) rfl ?_ h.numbered h.alone
    · simp [htasks]
    · rw [htasks, hplace]
      rfl
  | false =>
    have hbegun : P.Follows q.tasks q.calls { q.world with started := q.world.started + 1 } u :=
      h.begin_other
    refine advances_of_other (n := q.world.started) ?_ ?_ hbegun
      (fun hn => Nat.lt_irrefl _ (h.task_lt _ hn)) (hP.start_other r _ _ h.alike hfine hmine) rfl
      h.numbered
    · simp [Watch.event?, hmine]
    · simp [Watch.tasksAfter, hmine]

theorem advances_reply (hP : P.Lawful) (h : P.Follows q.tasks q.calls q.world u) (n : Nat)
    (r : Reply) : P.Advances q u (.reply n r) := by
  by_cases hopen : ∃ t ∈ q.world.tasks, t.callNumber = n
  · obtain ⟨t, ht, rfl⟩ := hopen
    have hstep := h.numbered.step_reply ht r
    by_cases hmine : t.number ∈ q.tasks
    · obtain ⟨hcall, hown⟩ := h.own t ht hmine
      have hmoved := (h.mem_iff _).mpr ⟨t, ht, hmine, rfl⟩
      exact advances_of_own hP (if_pos hcall) h hmine (hP.resume_own _ _ _ r h.alike hown) hstep
        (h.alone.step_reply hmoved r) h.numbered h.alone
    · obtain ⟨hcall, hother⟩ := h.other t ht hmine
      exact advances_of_other (if_neg hcall) rfl h hmine (hP.resume_other _ _ _ _ h.alike hother)
        hstep h.numbered
  -- A call that is not open in the run is not open in that of the strand alone either.
  · have hclosed : ∀ t ∈ q.world.tasks, t.callNumber ≠ n := fun t ht heq => hopen ⟨t, ht, heq⟩
    refine advances_of_silent h rfl (World.step_reply_closed hclosed r) (fun e' he' => ?_) fun _ => rfl
    simp only [Watch.event?] at he'
    split at he'
    · next hcall =>
      obtain rfl := Option.some.inj he'
      refine World.step_reply_closed (fun u' hu' heq => ?_) r
      obtain ⟨t, ht, hmine, rfl⟩ := (h.mem_iff u').mp hu'
      exact hclosed t ht ((List.idxOf_inj (h.own t ht hmine).1).mp heq)
    · cases he'

theorem advances_cancel (hP : P.Lawful) (h : P.Follows q.tasks q.calls q.world u) (n : Nat) :
    P.Advances q u (.cancel n) := by
  by_cases hlive : ∃ t ∈ q.world.tasks, t.number = n
  · obtain ⟨t, ht, rfl⟩ := hlive
    have hstep := h.numbered.step_cancel ht
    by_cases hmine : t.number ∈ q.tasks
    · have hevent : q.event? P.mine (.cancel t.number) =
          some (.cancel (q.tasks.idxOf t.number)) := if_pos hmine
      obtain ⟨halike, hkeeps⟩ := hP.release_own _ _ _ h.alike (h.own t ht hmine).2
      refine advances_of_silent (h.remove_own halike hkeeps) rfl hstep (fun e' he' => ?_)
        fun hnone => ?_
      · obtain rfl := Option.some.inj (hevent.symm.trans he')
        exact h.alone.step_cancel ((h.mem_iff _).mpr ⟨t, ht, hmine, rfl⟩)
      · exact absurd (hevent.symm.trans hnone) nofun
    · have hevent : q.event? P.mine (.cancel t.number) = none := if_neg hmine
      obtain ⟨halike, hkeeps⟩ := hP.release_other _ _ _ h.alike (h.other t ht hmine).2
      exact advances_of_silent (h.remove_other hmine halike hkeeps) rfl hstep
        (fun e' he' => absurd (hevent.symm.trans he') nofun) fun _ => rfl
  · have hgone : ∀ t ∈ q.world.tasks, t.number ≠ n := fun t ht heq => hlive ⟨t, ht, heq⟩
    refine advances_of_silent h rfl (World.step_cancel_gone hgone) (fun e' he' => ?_) fun _ => rfl
    simp only [Watch.event?] at he'
    split at he'
    · next hmem =>
      obtain rfl := Option.some.inj he'
      refine World.step_cancel_gone fun u' hu' heq => ?_
      obtain ⟨t, ht, hmine, rfl⟩ := (h.mem_iff u').mp hu'
      exact hgone t ht ((List.idxOf_inj hmine).mp heq)
    · cases he'

theorem Follows.advances (hP : P.Lawful) (h : P.Follows q.tasks q.calls q.world u) (e : Event C)
    (hfine : ∀ r, e = .request r → P.Fine r q.world.state) : P.Advances q u e := by
  cases e with
  | request r => exact advances_request hP h (hfine r rfl)
  | reply n r => exact advances_reply hP h n r
  | cancel n => exact advances_cancel hP h n

end Events

theorem Follows.mine_of_event (hP : P.Lawful) {q : Watch C} {u : World C}
    (h : P.Follows q.tasks q.calls q.world u) {e : Event C} {r : C.Request}
    (he : q.event? P.mine e = some (.request r)) : P.mine r u.state = true := by
  cases e with
  | request r' =>
    simp only [Watch.event?] at he
    split at he
    · next hmine =>
      obtain rfl : r' = r := by simpa using he
      exact hP.mine_alone r' _ _ h.alike hmine
    · cases he
  | reply n r' =>
    simp only [Watch.event?] at he
    split at he <;> simp at he
  | cancel n =>
    simp only [Watch.event?] at he
    split at he <;> simp at he

theorem Lawful.watch (hP : P.Lawful) {w u : World C} (htasks : w.tasks = [])
    (htasks' : u.tasks = []) (hstarted : u.started = 0) (hissued : u.issued = 0)
    (halike : P.Alike w.state u.state) (es : List (Event C))
    (hfine : ∀ k v r, w.Happens es k v (.request r) → P.Fine r v.state) :
    (w.watch P.mine es).world = w.after es ∧
      P.Follows (w.watch P.mine es).tasks (w.watch P.mine es).calls (w.watch P.mine es).world
        (u.after (w.watch P.mine es).script) ∧
      u.sights (w.watch P.mine es).script = (w.watch P.mine es).sights ∧
      ∀ k v r, u.Happens (w.watch P.mine es).script k v (.request r) → P.mine r v.state = true := by
  -- What carries the induction is that the strand's own world follows the watched one.
  induction es using List.reverseRecOn with
  | nil =>
    refine ⟨rfl, ?_, rfl, fun k v r h => absurd h.lt (Nat.not_lt_zero k)⟩
    constructor <;> simp_all [World.watch, World.numbered_of_tasks_nil]
  | append_singleton es e ih =>
    obtain ⟨hworld, hfollows, hsights, hmine⟩ := ih fun k v r h =>
      hfine k v r (World.happens_concat.mpr (.inl h))
    have hadvances := hfollows.advances hP e fun r he =>
      hfine _ _ r (World.happens_concat.mpr (.inr ⟨rfl, hworld.symm, he⟩))
    have hscript : ((w.watch P.mine es).step P.mine e).script =
        (w.watch P.mine es).script ++ ((w.watch P.mine es).event? P.mine e).toList := rfl
    rw [World.watch_concat]
    refine ⟨?_, ?_, ?_, ?_⟩
    · rw [World.after_concat, ← hworld]
      rfl
    · have hafter := hadvances.follows
      rw [← World.after_append] at hafter
      exact hafter
    · rw [hadvances.sights, ← hsights, ← World.sights_append]
      rfl
    · intro k v r h
      rw [hscript] at h
      cases hevent : (w.watch P.mine es).event? P.mine e with
      | none =>
        rw [hevent, Option.toList_none, List.append_nil] at h
        exact hmine k v r h
      | some e' =>
        rw [hevent, Option.toList_some] at h
        rcases World.happens_concat.mp h with h | ⟨_, rfl, rfl⟩
        · exact hmine k v r h
        · exact hfollows.mine_of_event hP hevent

end Strand
end QuotaDesk
