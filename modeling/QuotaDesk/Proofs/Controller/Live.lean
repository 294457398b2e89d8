import Mathlib.Data.List.Nodup
import QuotaDesk.Proofs.Controller.Run

/-! The live tasks of a world. Numbers of tasks and of calls are never used twice, so
that a reply or a cancellation finds the task it is meant for, and every live task
stands where some event of the run has left it. -/

namespace QuotaDesk.World

variable {C : Controller}

theorem map_number_insertTask {t : Task C} {l : List (Task C)}
    (h : t.number ∈ l.map Task.number) :
    (insertTask t l).map Task.number = l.map Task.number := by
  induction l with
  | nil => simp at h
  | cons u l ih =>
    unfold insertTask
    split
    · next heq => simp [heq]
    · next hne =>
      have htail : t.number ∈ l.map Task.number := by
        simpa [Ne.symm hne] using h
      simp [ih htail]

theorem insertTask_of_forall_ne {t : Task C} {l : List (Task C)}
    (h : ∀ u ∈ l, u.number ≠ t.number) : insertTask t l = l ++ [t] := by
  induction l with
  | nil => rfl
  | cons u l ih =>
    rw [insertTask, if_neg (h u List.mem_cons_self), ih fun v hv => h v (List.mem_cons_of_mem u hv),
      List.cons_append]

theorem mem_insertTask {t u : Task C} {l : List (Task C)}
    (hl : l.Pairwise fun a b => a.number < b.number) :
    u ∈ insertTask t l ↔ u = t ∨ u ∈ l ∧ u.number ≠ t.number := by
  induction l with
  | nil => simp [insertTask]
  | cons v l ih =>
    obtain ⟨hv, hl⟩ := List.pairwise_cons.mp hl
    unfold insertTask
    split
    · next heq =>
      have hne : ∀ x ∈ l, x.number ≠ t.number := fun x hx => by have := hv x hx; omega
      grind
    · next hne =>
      rw [List.mem_cons, ih hl]
      grind

/-- Tasks stand in the order of their start, and no number is used twice. -/
structure Numbered (w : World C) : Prop where
  sorted : w.tasks.Pairwise fun t u => t.number < u.number
  number_lt : ∀ t ∈ w.tasks, t.number < w.started
  callNumber_lt : ∀ t ∈ w.tasks, t.callNumber < w.issued
  callNumber_inj : ∀ t ∈ w.tasks, ∀ u ∈ w.tasks, t.callNumber = u.callNumber → t = u

theorem numbered_of_tasks_nil {w : World C} (h : w.tasks = []) : w.Numbered := by
  constructor <;> simp [h]

namespace Numbered

variable {w : World C} {t u : Task C}

theorem number_inj (hw : w.Numbered) (ht : t ∈ w.tasks) (hu : u ∈ w.tasks)
    (h : t.number = u.number) : t = u := by
  have hnodup : (w.tasks.map Task.number).Nodup :=
    List.pairwise_map.mpr (hw.sorted.imp Nat.ne_of_lt)
  exact List.inj_on_of_nodup_map hnodup ht hu h

theorem find_eq_some {p : Task C → Bool} (ht : t ∈ w.tasks) (hp : p t = true)
    (h : ∀ u ∈ w.tasks, p u = true → u = t) : w.task? p = some t := by
  unfold task?
  cases hf : w.tasks.find? p with
  | none => exact absurd hp (List.find?_eq_none.mp hf t ht)
  | some u => rw [h u (List.mem_of_find?_eq_some hf) (List.find?_some hf)]

theorem task?_callNumber (hw : w.Numbered) (ht : t ∈ w.tasks) :
    w.task? (fun u => u.callNumber == t.callNumber) = some t :=
  find_eq_some ht (beq_self_eq_true _) fun u hu h => hw.callNumber_inj u hu t ht (beq_iff_eq.mp h)

theorem step_reply (hw : w.Numbered) (ht : t ∈ w.tasks) (r : Reply) :
    w.step (.reply t.callNumber r) = w.resumeTask t (r (C.call t.waiting)) := by
  simp only [step, hw.task?_callNumber ht]

theorem step_cancel (hw : w.Numbered) (ht : t ∈ w.tasks) :
    w.step (.cancel t.number) =
      ({ w.withoutTask t.number with state := C.release t.waiting w.state }, {}) := by
  have hfind : w.task? (fun u => u.number == t.number) = some t :=
    find_eq_some ht (beq_self_eq_true _) fun u hu h => hw.number_inj hu ht (beq_iff_eq.mp h)
  simp only [World.step, hfind]

end Numbered

theorem step_reply_closed {w : World C} {n : Nat} (h : ∀ t ∈ w.tasks, t.callNumber ≠ n)
    (r : Reply) : w.step (.reply n r) = (w, {}) := by
  have hnone : w.task? (fun t => t.callNumber == n) = none :=
    List.find?_eq_none.mpr fun t ht => by simpa using h t ht
  simp only [step, hnone]

theorem step_cancel_gone {w : World C} {n : Nat} (h : ∀ t ∈ w.tasks, t.number ≠ n) :
    w.step (.cancel n) = (w, {}) := by
  have hnone : w.task? (fun t => t.number == n) = none :=
    List.find?_eq_none.mpr fun t ht => by simpa using h t ht
  simp only [step, hnone]

@[simp] theorem mem_withoutTask {w : World C} {n : Nat} {u : Task C} :
    u ∈ (w.withoutTask n).tasks ↔ u ∈ w.tasks ∧ u.number ≠ n := by
  simp [withoutTask]

/-- Everything that one event can do to a world. -/
inductive Move (w : World C) : Event C → World C × Trace C → Prop
  | idle (e : Event C) : Move w e (w, {})
  | answered {r : C.Request} {s : C.State} {o : C.Outcome}
      (h : C.start r w.state = (s, .finished o)) :
      Move w (.request r)
        ({ w with state := s, started := w.started + 1 }, { finished := [(w.started, o)] })
  | began {r : C.Request} {s : C.State} {x : C.Waiting}
      (h : C.start r w.state = (s, .waiting x)) :
      Move w (.request r)
        ({ state := s, tasks := w.tasks ++ [⟨w.started, w.issued, x⟩],
            started := w.started + 1, issued := w.issued + 1 },
          { calls := [C.call x], opened := some ⟨w.started, w.issued, x⟩ })
  | ended {t : Task C} {r : Reply} {s : C.State} {o : C.Outcome} (ht : t ∈ w.tasks)
      (h : C.resume t.waiting (r (C.call t.waiting)) w.state = (s, .finished o)) :
      Move w (.reply t.callNumber r)
        ({ w.withoutTask t.number with state := s }, { finished := [(t.number, o)] })
  | continued {t : Task C} {r : Reply} {s : C.State} {x : C.Waiting} (ht : t ∈ w.tasks)
      (h : C.resume t.waiting (r (C.call t.waiting)) w.state = (s, .waiting x)) :
      Move w (.reply t.callNumber r)
        ({ w with
            state := s, tasks := insertTask ⟨t.number, w.issued, x⟩ w.tasks,
            issued := w.issued + 1 },
          { calls := [C.call x], opened := some ⟨t.number, w.issued, x⟩ })
  | dropped {t : Task C} (ht : t ∈ w.tasks) :
      Move w (.cancel t.number)
        ({ w.withoutTask t.number with state := C.release t.waiting w.state }, {})

namespace Numbered

variable {w : World C}

theorem ne_started (hw : w.Numbered) : ∀ u ∈ w.tasks, u.number ≠ w.started :=
  fun u hu => Nat.ne_of_lt (hw.number_lt u hu)

theorem step_answered (hw : w.Numbered) {r : C.Request} {s : C.State} {o : C.Outcome}
    (h : C.start r w.state = (s, .finished o)) :
    w.step (.request r) =
      ({ w with state := s, started := w.started + 1 }, { finished := [(w.started, o)] }) := by
  simp only [step, h, place, withoutTask]
  rw [List.filter_eq_self.mpr fun u hu => by simp [hw.ne_started u hu]]

theorem move (hw : w.Numbered) (e : Event C) : w.Move e (w.step e) := by
  cases e with
  | request r =>
    match h : C.start r w.state with
    | (s, .finished o) => exact hw.step_answered h ▸ .answered h
    | (s, .waiting x) =>
      have hstep : w.step (.request r) =
          ({ state := s, tasks := w.tasks ++ [⟨w.started, w.issued, x⟩],
              started := w.started + 1, issued := w.issued + 1 },
            { calls := [C.call x], opened := some ⟨w.started, w.issued, x⟩ }) := by
        simp only [step, h, place]
        rw [insertTask_of_forall_ne hw.ne_started]
      exact hstep ▸ .began h
  | reply n r =>
    simp only [step]
    split
    · next t hf =>
      have ht : t ∈ w.tasks := List.mem_of_find?_eq_some hf
      obtain rfl : t.callNumber = n := by simpa using List.find?_some hf
      unfold resumeTask
      match h : C.resume t.waiting (r (C.call t.waiting)) w.state with
      | (s, .finished o) => exact .ended ht h
      | (s, .waiting x) => exact .continued ht h
    · exact .idle _
  | cancel n =>
    simp only [step]
    split
    · next t hf =>
      have ht : t ∈ w.tasks := List.mem_of_find?_eq_some hf
      obtain rfl : t.number = n := by simpa using List.find?_some hf
      exact .dropped ht
    · exact .idle _

theorem withoutTask (hw : w.Numbered) (n : Nat) (s : C.State) :
    ({ w.withoutTask n with state := s } : World C).Numbered where
  sorted := hw.sorted.filter _
  number_lt t ht := hw.number_lt t (mem_withoutTask.mp ht).1
  callNumber_lt t ht := hw.callNumber_lt t (mem_withoutTask.mp ht).1
  callNumber_inj t ht u hu := hw.callNumber_inj t (mem_withoutTask.mp ht).1 u
    (mem_withoutTask.mp hu).1

theorem begin (hw : w.Numbered) :
    ({ w with started := w.started + 1 } : World C).Numbered :=
  ⟨hw.sorted, fun t ht => Nat.lt_succ_of_lt (hw.number_lt t ht), hw.callNumber_lt,
    hw.callNumber_inj⟩

theorem step (hw : w.Numbered) (e : Event C) : (w.step e).1.Numbered := by
  have hm := hw.move e
  generalize w.step e = p at hm ⊢
  cases hm with
  | idle => exact hw
  | answered h => exact ⟨hw.sorted, fun t ht => Nat.lt_succ_of_lt (hw.number_lt t ht),
      hw.callNumber_lt, hw.callNumber_inj⟩
  | @began r s x h =>
    refine ⟨?_, ?_, ?_, ?_⟩
    · exact List.pairwise_append.mpr ⟨hw.sorted, List.pairwise_singleton _ _,
        fun a ha b hb => by simpa [List.mem_singleton.mp hb] using hw.number_lt a ha⟩
    · intro t ht
      rcases List.mem_append.mp ht with ht | ht
      · exact Nat.lt_succ_of_lt (hw.number_lt t ht)
      · simp [List.mem_singleton.mp ht]
    · intro t ht
      rcases List.mem_append.mp ht with ht | ht
      · exact Nat.lt_succ_of_lt (hw.callNumber_lt t ht)
      · simp [List.mem_singleton.mp ht]
    · have hlt := hw.callNumber_lt
      have hinj := hw.callNumber_inj
      grind
  | ended ht h => exact hw.withoutTask _ _
  | dropped ht => exact hw.withoutTask _ _
  | @continued t r s x ht h =>
    have hmem : ∀ u, u ∈ insertTask ⟨t.number, w.issued, x⟩ w.tasks ↔
        u = ⟨t.number, w.issued, x⟩ ∨ u ∈ w.tasks ∧ u.number ≠ t.number :=
      fun u => mem_insertTask hw.sorted
    refine ⟨?_, ?_, ?_, ?_⟩
    -- The task keeps its number and its place; only its call is new.
    · have hnum := map_number_insertTask (t := ⟨t.number, w.issued, x⟩)
        (List.mem_map.mpr ⟨t, ht, rfl⟩)
      have hs : (w.tasks.map Task.number).Pairwise (· < ·) := List.pairwise_map.mpr hw.sorted
      exact List.pairwise_map.mp (hnum ▸ hs)
    · intro u hu
      rcases (hmem u).mp hu with rfl | hu
      · exact hw.number_lt t ht
      · exact hw.number_lt u hu.1
    · intro u hu
      rcases (hmem u).mp hu with rfl | hu
      · exact Nat.lt_succ_self _
      · exact Nat.lt_succ_of_lt (hw.callNumber_lt u hu.1)
    · have hlt := hw.callNumber_lt
      have hinj := hw.callNumber_inj
      intro a ha b hb
      rw [hmem] at ha hb
      grind

theorem after (hw : w.Numbered) (es : List (Event C)) : (w.after es).Numbered :=
  run_induction (P := fun _ v => v.Numbered) w hw (fun _ e h => h.step e) es

end Numbered

@[simp] theorem place_state (n : Nat) (w : World C) (p : C.State × Progress C.Waiting C.Outcome) :
    (w.place n p).1.state = p.1 := by
  rcases p with ⟨s, x | o⟩ <;> rfl

theorem state_step {I : C.State → Prop} {w : World C} (hw : w.Numbered) (e : Event C)
    (h : I w.state) (hstart : ∀ r, e = .request r → I (C.start r w.state).1)
    (hresume : ∀ x a, I (C.resume x a w.state).1) (hrelease : ∀ x, I (C.release x w.state)) :
    I (w.step e).1.state := by
  have hm := hw.move e
  generalize w.step e = p at hm ⊢
  cases hm with
  | idle => exact h
  | answered heq | began heq => exact (congrArg (fun p => I p.1) heq).mp (hstart _ rfl)
  | ended ht heq | continued ht heq => exact (congrArg (fun p => I p.1) heq).mp (hresume _ _)
  | dropped ht => exact hrelease _

theorem finished_request_iff {w : World C} {r : C.Request} {o : C.Outcome} :
    (w.step (.request r)).2.finished = [(w.started, o)] ↔ (C.start r w.state).2 = .finished o := by
  rcases h : C.start r w.state with ⟨s, x | o'⟩ <;> simp [step, place, h]

theorem opened_request_iff {w : World C} {r : C.Request} {t : Task C} :
    (w.step (.request r)).2.opened = some t ↔
      ∃ x, (C.start r w.state).2 = .waiting x ∧ t = ⟨w.started, w.issued, x⟩ := by
  rcases h : C.start r w.state with ⟨s, x | o⟩ <;> simp [step, place, h, eq_comm]

theorem finished_cases {w : World C} (hw : w.Numbered) {e : Event C} {n : Nat} {o : C.Outcome}
    (h : (n, o) ∈ (w.step e).2.finished) :
    (∃ r s, e = .request r ∧ n = w.started ∧ C.start r w.state = (s, .finished o) ∧
        (w.step e).1 = { w with state := s, started := w.started + 1 }) ∨
      ∃ t r s, t ∈ w.tasks ∧ e = .reply t.callNumber r ∧ n = t.number ∧
        C.resume t.waiting (r (C.call t.waiting)) w.state = (s, .finished o) ∧
        (w.step e).1 = { w.withoutTask t.number with state := s } := by
  have hm := hw.move e
  generalize w.step e = p at hm h ⊢
  cases hm with
  | answered hstart =>
    obtain ⟨rfl, rfl⟩ := Prod.mk.inj (List.mem_singleton.mp h)
    exact .inl ⟨_, _, rfl, rfl, hstart, rfl⟩
  | ended ht hresume =>
    obtain ⟨rfl, rfl⟩ := Prod.mk.inj (List.mem_singleton.mp h)
    exact .inr ⟨_, _, _, ht, rfl, rfl, hresume, rfl⟩
  | _ => exact absurd h List.not_mem_nil

theorem mem_tasks_step {w : World C} (hw : w.Numbered) {e : Event C} {t : Task C}
    (ht : t ∈ (w.step e).1.tasks) : t ∈ w.tasks ∨ (w.step e).2.opened = some t := by
  have hm := hw.move e
  generalize w.step e = p at hm ht ⊢
  cases hm with
  | idle => exact .inl ht
  | answered h => exact .inl ht
  | began h => simpa [eq_comm] using ht
  | ended hu h => exact .inl (mem_withoutTask.mp ht).1
  | dropped hu => exact .inl (mem_withoutTask.mp ht).1
  | continued hu h =>
    rcases (mem_insertTask hw.sorted).mp ht with rfl | ht
    · exact .inr rfl
    · exact .inl ht.1

theorem exists_opens {w : World C} (hw : w.tasks = []) (es : List (Event C)) :
    ∀ t ∈ (w.after es).tasks, ∃ k, w.Opens es k t := by
  have hn := numbered_of_tasks_nil hw
  refine run_induction (P := fun es v => ∀ t ∈ v.tasks, ∃ k, w.Opens es k t) w ?_ ?_ es
  · simp [hw]
  · intro es e ih t ht
    rcases mem_tasks_step (hn.after es) ht with ht | ht
    · obtain ⟨k, hk⟩ := ih t ht
      exact ⟨k, opens_concat.mpr (.inl hk)⟩
    · exact ⟨es.length, opens_concat.mpr (.inr ⟨rfl, ht⟩)⟩

theorem callNumber_of_opened {w : World C} (hw : w.Numbered) {e : Event C} {t : Task C}
    (h : (w.step e).2.opened = some t) : t.callNumber = w.issued := by
  have hm := hw.move e
  generalize w.step e = p at hm h ⊢
  cases hm with
  | began | continued => exact Option.some.inj h ▸ rfl
  | _ => cases h

theorem issued_le_step {w : World C} (hw : w.Numbered) (e : Event C) :
    w.issued ≤ (w.step e).1.issued := by
  have hm := hw.move e
  generalize w.step e = p at hm ⊢
  cases hm with
  | began | continued => exact Nat.le_succ _
  | _ => exact Nat.le_refl _

theorem Opens.lt_of_mem {w : World C} (hw : w.Numbered) {es : List (Event C)} {k l : Nat}
    {t : Task C} (h : w.Opens es k t) (ht : t ∈ (w.after (es.take l)).tasks) : k < l := by
  obtain ⟨v, e, hv, hopened⟩ := h
  obtain rfl := hv.world
  -- Otherwise the call would have a number that is given only later.
  refine Nat.lt_of_not_le fun hle => ?_
  have hmono := measure_mono (f := World.issued) (fun es e => issued_le_step (hw.after es) e)
    (es.take l) ((es.take k).drop l)
  have htake : es.take l = (es.take k).take l := by rw [List.take_take, Nat.min_eq_left hle]
  rw [htake, List.take_append_drop, ← htake] at hmono
  have hlt := (hw.after (es.take l)).callNumber_lt t ht
  rw [callNumber_of_opened (hw.after _) hopened] at hlt
  omega

theorem not_mem_after {w : World C} (hw : w.Numbered) {t : Task C} (hlt : t.callNumber < w.issued)
    (ht : t ∉ w.tasks) (es : List (Event C)) : t ∉ (w.after es).tasks := by
  refine (run_induction (P := fun _ v => t.callNumber < v.issued ∧ t ∉ v.tasks) w ⟨hlt, ht⟩ ?_ es).2
  intro es e ⟨hlt, ht⟩
  refine ⟨Nat.lt_of_lt_of_le hlt (issued_le_step (hw.after es) e), fun hmem => ?_⟩
  rcases mem_tasks_step (hw.after es) hmem with hmem | hopened
  · exact ht hmem
  · exact Nat.ne_of_lt hlt (callNumber_of_opened (hw.after es) hopened)

end QuotaDesk.World
