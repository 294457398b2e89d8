import QuotaDesk.Proofs.Controller.Live

/-! A run on top of an older one. Where the rules of a controller do not look at the size
of the numbers in its states and calls, and the tasks of the older run have no say any
more, the newer run goes on as it would have done by itself. -/

namespace QuotaDesk

def renamed {σ ω ρ : Type} (state : σ → σ) (waiting : ω → ω) : σ × Progress ω ρ → σ × Progress ω ρ
  | (s, .finished o) => (state s, .finished o)
  | (s, .waiting x) => (state s, .waiting (waiting x))

/-- A change of states and calls that the rules of the controller do not notice. -/
structure Renaming (C : Controller) where
  state : C.State → C.State
  waiting : C.Waiting → C.Waiting
  start_eq : ∀ r s, C.start r (state s) = renamed state waiting (C.start r s)
  resume_eq : ∀ x (r : Reply) s, C.resume (waiting x) (r (C.call (waiting x))) (state s) =
    renamed state waiting (C.resume x (r (C.call x)) s)
  release_eq : ∀ x s, C.release (waiting x) (state s) = state (C.release x s)

namespace World

variable {C : Controller}

def moved (ρ : Renaming C) (b : World C) (t : Task C) : Task C :=
  ⟨b.started + t.number, b.issued + t.callNumber, ρ.waiting t.waiting⟩

/-- The world `c` of a run that begins in `b`, with `olds` left of the older tasks. -/
def overlay (ρ : Renaming C) (b : World C) (olds : List (Task C)) (c : World C) : World C where
  state := ρ.state c.state
  tasks := olds ++ c.tasks.map (moved ρ b)
  started := b.started + c.started
  issued := b.issued + c.issued

def later (b : World C) : Event C → Option (Event C)
  | .request r => some (.request r)
  | .reply callNumber r =>
    if b.issued ≤ callNumber then some (.reply (callNumber - b.issued) r) else none
  | .cancel number => if b.started ≤ number then some (.cancel (number - b.started)) else none

def laterOutcome (b : World C) (p : Nat × C.Outcome) : Option (Nat × C.Outcome) :=
  if b.started ≤ p.1 then some (p.1 - b.started, p.2) else none

def Older (b : World C) (olds : List (Task C)) : Prop :=
  ∀ t ∈ olds, t.number < b.started ∧ t.callNumber < b.issued

variable {ρ : Renaming C} {b c : World C} {olds : List (Task C)}

theorem filterMap_laterOutcome (l : List (Nat × C.Outcome)) :
    (l.map fun q => (b.started + q.1, q.2)).filterMap b.laterOutcome = l := by
  have hseen : b.laterOutcome ∘ (fun q => (b.started + q.1, q.2)) = some := by
    funext q
    simp [laterOutcome]
  rw [List.filterMap_map, hseen, List.filterMap_some]

theorem filterMap_laterOutcome_older {l : List (Nat × C.Outcome)}
    (h : ∀ q ∈ l, q.1 < b.started) : l.filterMap b.laterOutcome = [] :=
  List.filterMap_eq_nil_iff.mpr fun q hq => if_neg (Nat.not_le_of_lt (h q hq))

theorem Numbered.older (hb : b.Numbered) : b.Older b.tasks :=
  fun t ht => ⟨hb.number_lt t ht, hb.callNumber_lt t ht⟩

theorem task?_overlay {p q : Task C → Bool} (hold : ∀ t ∈ olds, p t = false)
    (hnew : ∀ t, p (moved ρ b t) = q t) :
    (overlay ρ b olds c).task? p = (c.task? q).map (moved ρ b) := by
  have hnone : olds.find? p = none :=
    List.find?_eq_none.mpr fun t ht => Bool.eq_false_iff.mp (hold t ht)
  have hfun : p ∘ moved ρ b = q := funext hnew
  simp only [task?, overlay, List.find?_append, hnone, Option.none_or, List.find?_map, hfun]

theorem withoutTask_overlay (h : b.Older olds) (n : Nat) :
    (overlay ρ b olds c).withoutTask (b.started + n) = overlay ρ b olds (c.withoutTask n) := by
  have holds : olds.filter (fun t => t.number != b.started + n) = olds := by
    refine List.filter_eq_self.mpr fun t ht => ?_
    have := (h t ht).1
    simp only [bne_iff_ne, ne_eq]
    omega
  have hfun : (fun t => t.number != b.started + n) ∘ moved ρ b = fun t => t.number != n := by
    funext t
    simp [moved, bne]
  simp only [withoutTask, overlay, List.filter_append, holds, List.filter_map, hfun]

theorem insertTask_overlay (h : b.Older olds) (t : Task C) (l : List (Task C)) :
    insertTask (moved ρ b t) (olds ++ l.map (moved ρ b)) =
      olds ++ (insertTask t l).map (moved ρ b) := by
  -- The place is among the newer tasks, past all of `olds`.
  induction olds with
  | nil =>
    induction l with
    | nil => rfl
    | cons u l ih =>
      have hiff : (moved ρ b u).number = (moved ρ b t).number ↔ u.number = t.number :=
        Nat.add_left_cancel_iff
      simp only [List.nil_append] at ih ⊢
      simp only [List.map_cons, insertTask, hiff]
      split
      · rfl
      · rw [ih, List.map_cons]
  | cons u olds ih =>
    have hne : u.number ≠ (moved ρ b t).number := by
      have := (h u List.mem_cons_self).1
      simp only [moved]
      omega
    simp only [List.cons_append, insertTask, if_neg hne]
    rw [ih fun v hv => h v (List.mem_cons_of_mem u hv)]

theorem place_overlay (h : b.Older olds) (n : Nat) (p : C.State × Progress C.Waiting C.Outcome) :
    ((overlay ρ b olds c).place (b.started + n) (renamed ρ.state ρ.waiting p)).1 =
        overlay ρ b olds (c.place n p).1 ∧
      ((overlay ρ b olds c).place (b.started + n) (renamed ρ.state ρ.waiting p)).2.finished =
        (c.place n p).2.finished.map fun q => (b.started + q.1, q.2) := by
  rcases p with ⟨s, x | o⟩
  · have hinsert := insertTask_overlay (ρ := ρ) h ⟨n, c.issued, x⟩ c.tasks
    exact ⟨congrArg (fun tasks => World.mk (ρ.state s) tasks (b.started + c.started)
      (b.issued + (c.issued + 1))) hinsert, rfl⟩
  · refine ⟨?_, rfl⟩
    simp only [renamed, place]
    rw [withoutTask_overlay h]
    rfl

theorem step_overlay (h : b.Older olds) {e e' : Event C} (he : b.later e = some e') :
    ((overlay ρ b olds c).step e).1 = overlay ρ b olds (c.step e').1 ∧
      ((overlay ρ b olds c).step e).2.finished =
        (c.step e').2.finished.map fun q => (b.started + q.1, q.2) := by
  cases e with
  | request r =>
    obtain rfl : .request r = e' := Option.some.inj he
    have hplace := place_overlay (ρ := ρ) (c := { c with started := c.started + 1 }) h c.started
      (C.start r c.state)
    rw [← ρ.start_eq] at hplace
    exact hplace
  | reply n r =>
    simp only [later] at he
    split at he
    · next hle =>
      obtain ⟨n, rfl⟩ := Nat.exists_eq_add_of_le hle
      obtain rfl : .reply n r = e' := by simpa using he
      have htask := task?_overlay (ρ := ρ) (b := b) (c := c)
        (p := fun t => t.callNumber == b.issued + n) (q := fun t => t.callNumber == n)
        (fun t ht => beq_false_of_ne (Nat.ne_of_lt (Nat.lt_add_right n (h t ht).2)))
        (fun t => by simp [moved])
      simp only [step, htask]
      cases c.task? fun t => t.callNumber == n with
      | none => exact ⟨rfl, rfl⟩
      | some t =>
        have hplace := place_overlay (ρ := ρ) (c := c) h t.number
          (C.resume t.waiting (r (C.call t.waiting)) c.state)
        rw [← ρ.resume_eq] at hplace
        exact hplace
    · cases he
  | cancel n =>
    simp only [later] at he
    split at he
    · next hle =>
      obtain ⟨n, rfl⟩ := Nat.exists_eq_add_of_le hle
      obtain rfl : .cancel n = e' := by simpa using he
      have htask := task?_overlay (ρ := ρ) (b := b) (c := c)
        (p := fun t => t.number == b.started + n) (q := fun t => t.number == n)
        (fun t ht => beq_false_of_ne (Nat.ne_of_lt (Nat.lt_add_right n (h t ht).1)))
        (fun t => by simp [moved])
      simp only [step, htask]
      cases c.task? fun t => t.number == n with
      | none => exact ⟨rfl, rfl⟩
      | some t =>
        refine ⟨?_, rfl⟩
        simp only [Option.map_some, withoutTask_overlay h]
        exact congrArg (fun s => { overlay ρ b olds (c.withoutTask n) with state := s })
          (ρ.release_eq t.waiting c.state)
    · cases he

/-- A task that waits in `x` has no say in the state `s`: a reply only ends it, and dropping it
changes nothing. -/
structure Inert (late : C.Waiting → C.Outcome) (s : C.State) (x : C.Waiting) : Prop where
  resume_eq : ∀ a, C.resume x a s = (s, .finished (late x))
  release_eq : C.release x s = s

theorem mem_olds {t : Task C} (ht : t ∈ (overlay ρ b olds c).tasks)
    (hlt : t.number < b.started ∨ t.callNumber < b.issued) : t ∈ olds := by
  rcases List.mem_append.mp ht with ht | ht
  · exact ht
  · obtain ⟨u, _, rfl⟩ := List.mem_map.mp ht
    simp only [moved] at hlt
    omega

theorem withoutTask_overlay_older {n : Nat} (hn : n < b.started) :
    (overlay ρ b olds c).withoutTask n =
      overlay ρ b (olds.filter fun t => t.number != n) c := by
  have hkeep : (c.tasks.map (moved ρ b)).filter (fun t => t.number != n) =
      c.tasks.map (moved ρ b) := by
    refine List.filter_eq_self.mpr fun t ht => ?_
    obtain ⟨u, _, rfl⟩ := List.mem_map.mp ht
    simp only [moved, bne_iff_ne, ne_eq]
    omega
  simp only [withoutTask, overlay, List.filter_append, hkeep]

theorem step_overlay_older {late : C.Waiting → C.Outcome} (h : b.Older olds)
    (hinert : ∀ t ∈ olds, Inert late (ρ.state c.state) t.waiting) {e : Event C}
    (he : b.later e = none) :
    ∃ rest, rest ⊆ olds ∧ ((overlay ρ b olds c).step e).1 = overlay ρ b rest c ∧
      ∀ q ∈ ((overlay ρ b olds c).step e).2.finished,
        ∃ t ∈ olds, q = (t.number, late t.waiting) := by
  have hidle : ∃ rest, rest ⊆ olds ∧ overlay ρ b olds c = overlay ρ b rest c ∧
      ∀ q ∈ ([] : List (Nat × C.Outcome)), ∃ t ∈ olds, q = (t.number, late t.waiting) :=
    ⟨olds, List.Subset.refl olds, rfl, fun _ hq => absurd hq List.not_mem_nil⟩
  cases e with
  | request r => cases he
  | reply n r =>
    have hn : n < b.issued := by
      simp only [later] at he
      split at he
      · cases he
      · omega
    simp only [step]
    split
    · next t hf =>
      obtain rfl : t.callNumber = n := by simpa using List.find?_some hf
      have ht : t ∈ olds := mem_olds (List.mem_of_find?_eq_some hf) (.inr hn)
      have hresume := (hinert t ht).resume_eq (r (C.call t.waiting))
      have hstep : (overlay ρ b olds c).resumeTask t (r (C.call t.waiting)) =
          (overlay ρ b (olds.filter fun u => u.number != t.number) c,
            { finished := [(t.number, late t.waiting)] }) := by
        rw [← withoutTask_overlay_older (h t ht).1]
        exact congrArg (place t.number (overlay ρ b olds c)) hresume
      rw [hstep]
      exact ⟨_, List.filter_subset_self _, rfl, fun q hq => ⟨t, ht, List.mem_singleton.mp hq⟩⟩
    · exact hidle
  | cancel n =>
    have hn : n < b.started := by
      simp only [later] at he
      split at he
      · cases he
      · omega
    simp only [step]
    split
    · next t hf =>
      obtain rfl : t.number = n := by simpa using List.find?_some hf
      have ht : t ∈ olds := mem_olds (List.mem_of_find?_eq_some hf) (.inl hn)
      refine ⟨olds.filter fun u => u.number != t.number, List.filter_subset_self _, ?_,
        fun _ hq => absurd hq List.not_mem_nil⟩
      rw [withoutTask_overlay_older hn]
      exact congrArg (fun s => { overlay ρ b (olds.filter fun u => u.number != t.number) c with
        state := s }) (hinert t ht).release_eq
    · exact hidle

theorem after_overlay {late : C.Waiting → C.Outcome} (xs : List (Event C)) (c : World C)
    (olds : List (Task C)) (h : b.Older olds)
    (hinert : ∀ es, ∀ t ∈ olds, Inert late (ρ.state (c.after es).state) t.waiting) :
    (∃ rest, rest ⊆ olds ∧
        (overlay ρ b olds c).after xs = overlay ρ b rest (c.after (xs.filterMap b.later))) ∧
      ((overlay ρ b olds c).outcomes xs).filterMap b.laterOutcome =
        c.outcomes (xs.filterMap b.later) ∧
      ∀ q ∈ (overlay ρ b olds c).outcomes xs, q.1 < b.started →
        ∃ t ∈ olds, q = (t.number, late t.waiting) := by
  induction xs generalizing c olds with
  | nil => exact ⟨⟨olds, List.Subset.refl olds, rfl⟩, rfl, nofun⟩
  | cons e xs ih =>
    rw [after_cons, outcomes_cons, List.filterMap_append]
    cases he : b.later e with
    -- An older event: `c` stands still, and an older task may be gone.
    | none =>
      rw [List.filterMap_cons_none he]
      obtain ⟨rest, hsub, hstep, hended⟩ := step_overlay_older (c := c) h (hinert []) he
      obtain ⟨⟨rest', hsub', hafter⟩, hlater, hold⟩ :=
        ih c rest (fun t ht => h t (hsub ht)) fun es t ht => hinert es t (hsub ht)
      rw [hstep, hlater]
      refine ⟨⟨rest', List.Subset.trans hsub' hsub, hafter⟩, ?_, fun q hq hlt => ?_⟩
      · have holder : ∀ q ∈ ((overlay ρ b olds c).step e).2.finished, q.1 < b.started := by
          intro q hq
          obtain ⟨t, ht, rfl⟩ := hended q hq
          exact (h t ht).1
        rw [filterMap_laterOutcome_older holder, List.nil_append]
      · rcases List.mem_append.mp hq with hq | hq
        · exact hended q hq
        · obtain ⟨t, ht, heq⟩ := hold q hq hlt
          exact ⟨t, hsub ht, heq⟩
    -- A newer event: `c` takes the step, and the older tasks stay.
    | some e' =>
      rw [List.filterMap_cons_some he, after_cons, outcomes_cons]
      obtain ⟨hstep, hfinished⟩ := step_overlay (ρ := ρ) (c := c) h he
      obtain ⟨hafter, hlater, hold⟩ := ih (c.step e').1 olds h fun es => hinert (e' :: es)
      rw [hstep, hlater, hfinished]
      refine ⟨hafter, by rw [filterMap_laterOutcome], fun q hq hlt => ?_⟩
      · rcases List.mem_append.mp hq with hq | hq
        · obtain ⟨p, _, rfl⟩ := List.mem_map.mp hq
          exact absurd hlt (Nat.not_lt_of_le (Nat.le_add_right _ _))
        · exact hold q hq hlt

end World
end QuotaDesk
