import QuotaDesk.Lookup.Contended
import QuotaDesk.Proofs.Lookup.Turn

/-! Lookups that contend for the lock. When a task ends in one of its accesses, the access is the
start of a request, a reply or the sending of a page request, and it obeys the rules of the
controller. Every run of the controller is one in which no access comes between two others of the
same step. -/

namespace QuotaDesk.Lookup

variable {s s' : State} {x : Waiting} {o : Outcome}

theorem staged_finished {ω : Type} {f : ω → Stage} {p : State × Progress ω Outcome}
    (h : staged f p = (s, .finished o)) : p = (s, .finished o) := by
  obtain ⟨s, w | o⟩ := p
  · cases h
  · cases h
    rfl

theorem startHold_atOnce {r : Request} (h : startHold r s = (s', .finished o)) :
    AtOnce s r s' o := by
  cases r with
  | load page => exact start_atOnce (congrArg thenFetch (staged_finished h))
  | lookup | take | snapshot => exact start_atOnce (staged_finished (f := .called) h)

theorem resume_of_replyHold {a : Answer (call x)} (h : replyHold x a s = (s', .finished o)) :
    resume x a s = (s', .finished o) := by
  cases x with
  | summary key generation => exact congrArg thenFetch (staged_finished h)
  | page key page size generation fetch chained => exact staged_finished h

theorem fetchPage_finished {r : PageRequest} (h : fetchPage r s = (s', .finished o)) :
    s' = s ∧ o = historyOutcome r.chained .superseded := by
  obtain ⟨page, generation, chained⟩ := r
  by_cases hlate : s.generation = generation
  · subst hlate
    rw [fetchPage_current] at h
    cases h
  · rw [fetchPage_late hlate] at h
    cases h
    exact ⟨rfl, rfl⟩

namespace Contended

variable {c : Contended} {h : Hold} {n m : Nat}

def after (c : Contended) (hs : List Hold) : Contended :=
  (c.run hs).1

theorem run_cons (c : Contended) (h : Hold) (hs : List Hold) :
    c.run (h :: hs) = (((c.step h).1.run hs).1, (c.step h).2 ++ ((c.step h).1.run hs).2) := rfl

theorem run_append (c : Contended) (hs ks : List Hold) :
    c.run (hs ++ ks) = (((c.after hs).run ks).1, (c.run hs).2 ++ ((c.after hs).run ks).2) := by
  induction hs generalizing c with
  | nil => rfl
  | cons h hs ih =>
    rw [List.cons_append, run_cons, ih (c.step h).1, run_cons, List.append_assoc]
    rfl

theorem mem_place {p : State × Progress Stage Outcome} {k : Nat} (h : (n, o) ∈ (c.place k p).2) :
    n = k ∧ p = (p.1, .finished o) ∧ (c.place k p).1 = { c.without n with state := p.1 } := by
  obtain ⟨s, x | o'⟩ := p
  · cases h
  · obtain ⟨rfl, rfl⟩ := Prod.mk.inj (List.mem_singleton.mp h)
    exact ⟨rfl, rfl, rfl⟩

/-- The access in which task `n` ends with outcome `o`, and what it leaves. -/
inductive Ends (c : Contended) (n : Nat) (o : Outcome) : Hold → Contended → Prop
  | request {r : Request} {s : State} (hn : n = c.started) (h : AtOnce c.state r s o) :
      Ends c n o (.request r) { c.without n with state := s, started := c.started + 1 }
  | reply {x : Waiting} {r : Reply} {s : State}
      (h : resume x (r (call x)) c.state = (s, .finished o)) :
      Ends c n o (.reply n r) { c.without n with state := s }
  | send {chained : Bool} (ho : o = historyOutcome chained .superseded) :
      Ends c n o (.send n) (c.without n)

theorem ends_of_mem (hend : (n, o) ∈ (c.step h).2) : Ends c n o h (c.step h).1 := by
  cases h with
  | request r =>
    obtain ⟨rfl, hp, hstep⟩ := mem_place hend
    exact hstep ▸ .request rfl (startHold_atOnce hp)
  | reply task r =>
    simp only [step] at hend ⊢
    split at hend
    · obtain ⟨rfl, hp, hstep⟩ := mem_place hend
      exact hstep ▸ .reply (resume_of_replyHold hp)
    · cases hend
  | send task =>
    simp only [step] at hend ⊢
    split at hend
    · obtain ⟨rfl, hp, hstep⟩ := mem_place hend
      obtain ⟨hs, rfl⟩ := fetchPage_finished (staged_finished hp)
      rw [hstep, hs]
      exact .send rfl
    · cases hend
  | cancel task =>
    simp only [step] at hend
    split at hend <;> cases hend
  | release task =>
    simp only [step] at hend
    split at hend <;> cases hend

def Fresh (c : Contended) : Prop :=
  ∀ n, c.started ≤ n → c.stages n = none

theorem stages_place (c : Contended) (p : State × Progress Stage Outcome) (h : m ≠ n) :
    (c.place n p).1.stages m = c.stages m := by
  obtain ⟨s, y | o⟩ := p <;> exact Function.update_of_ne h _ _

theorem started_place (c : Contended) (p : State × Progress Stage Outcome) :
    (c.place n p).1.started = c.started := by
  obtain ⟨s, y | o⟩ := p <;> rfl

theorem Fresh.place (hc : c.Fresh) {y : Stage} (hy : c.stages n = some y)
    (p : State × Progress Stage Outcome) : (c.place n p).1.Fresh := by
  intro m hm
  rw [started_place] at hm
  have hne : m ≠ n := by
    rintro rfl
    rw [hc m hm] at hy
    cases hy
  rw [stages_place c p hne, hc m hm]

theorem Fresh.without (hc : c.Fresh) (n : Nat) (s : State) :
    ({ c.without n with state := s } : Contended).Fresh := by
  intro m hm
  by_cases hne : m = n
  · exact hne ▸ Function.update_self ..
  · exact (Function.update_of_ne hne _ _).trans (hc m hm)

theorem Fresh.without_started (hc : c.Fresh) : c.without c.started = c := by
  have hstages : Function.update c.stages c.started none = c.stages := by
    rw [← hc c.started (Nat.le_refl _), Function.update_eq_self]
  rw [Contended.without, hstages]

theorem Fresh.step (hc : c.Fresh) (h : Hold) : (c.step h).1.Fresh := by
  cases h with
  | request r =>
    intro m hm
    have hlt : c.started < m := by rwa [Contended.step, started_place] at hm
    exact (stages_place _ _ (Nat.ne_of_gt hlt)).trans (hc m (Nat.le_of_lt hlt))
  | reply task r =>
    simp only [Contended.step]
    split
    · next hx => exact hc.place hx _
    · exact hc
  | send task =>
    simp only [Contended.step]
    split
    · next hr => exact hc.place hr _
    · exact hc
  | cancel task =>
    simp only [Contended.step]
    split
    · next hx => exact hc.place hx _
    · exact hc.without task c.state
    · exact hc
  | release task =>
    simp only [Contended.step]
    split
    · exact hc.without task _
    · exact hc

theorem Fresh.after (hc : c.Fresh) (hs : List Hold) : (c.after hs).Fresh := by
  induction hs generalizing c with
  | nil => exact hc
  | cons h hs ih => exact ih (hc.step h)

/-- The tasks of a world of the controller, each of them at its open call. -/
structure Follows (c : Contended) (w : World controller) : Prop where
  state : c.state = w.state
  started : c.started = w.started
  called : ∀ t ∈ w.tasks, c.stages t.number = some (.called t.waiting)
  idle : ∀ n, (∀ t ∈ w.tasks, t.number ≠ n) → c.stages n = none

variable {w : World controller}

theorem Follows.without (hf : Follows c w) (n : Nat) (s : State) :
    Follows { c.without n with state := s } { w.withoutTask n with state := s } where
  state := rfl
  started := hf.started
  called t ht := by
    obtain ⟨ht, hne⟩ := World.mem_withoutTask.mp ht
    exact (Function.update_of_ne hne _ _).trans (hf.called t ht)
  idle m hm := by
    by_cases hne : m = n
    · exact hne ▸ Function.update_self ..
    · refine (Function.update_of_ne hne _ _).trans (hf.idle m fun t ht heq => hm t ?_ heq)
      exact World.mem_withoutTask.mpr ⟨ht, heq ▸ hne⟩

theorem Follows.place (hf : Follows c w)
    (hsorted : w.tasks.Pairwise fun t u => t.number < u.number) (n : Nat)
    (p : State × Progress Waiting Outcome) :
    Follows (c.place n (staged .called p)).1 (w.place n p).1 ∧
      (c.place n (staged .called p)).2 = (w.place n p).2.finished := by
  obtain ⟨s, y | o⟩ := p
  · refine ⟨⟨rfl, hf.started, fun u hu => ?_, fun m hm => ?_⟩, rfl⟩
    · rcases (World.mem_insertTask hsorted).mp hu with rfl | ⟨hu, hne⟩
      · exact Function.update_self ..
      · exact (Function.update_of_ne hne _ _).trans (hf.called u hu)
    · have hne : m ≠ n := (hm _ ((World.mem_insertTask hsorted).mpr (.inl rfl))).symm
      refine (Function.update_of_ne hne _ _).trans (hf.idle m fun u hu heq => hm u ?_ heq)
      exact (World.mem_insertTask hsorted).mpr (.inr ⟨hu, heq ▸ hne⟩)
  · exact ⟨hf.without n s, rfl⟩

theorem run_singleton (c : Contended) (h : Hold) : c.run [h] = c.step h :=
  Prod.ext rfl (List.append_nil _)

theorem place_place (c : Contended) (s : State) (y : Stage) (p : State × Progress Stage Outcome) :
    (c.place n (s, .waiting y)).1.place n p = c.place n p := by
  obtain ⟨s', y' | o⟩ := p <;> simp only [place, without, Function.update_idem]

theorem run_thenFetch {c' : Contended} {p : State × Progress PageRequest Outcome}
    (hstep : c.step h = c'.place n (staged .admitted p)) :
    ∃ hs, c.run hs = c'.place n (staged .called (thenFetch p)) := by
  obtain ⟨s, r | o⟩ := p
  -- The page request is sent in the very next access, which overwrites the stage in between.
  · refine ⟨[h, .send n], ?_⟩
    have hstage : (c'.place n (s, .waiting (.admitted r))).1.stages n = some (.admitted r) :=
      Function.update_self ..
    have hsend : (c'.place n (s, .waiting (.admitted r))).1.step (.send n) =
        c'.place n (staged .called (fetchPage r s)) := by
      simp only [step, hstage]
      exact place_place c' s _ _
    rw [run_cons, hstep, run_singleton]
    exact Prod.ext (congrArg Prod.fst hsend) (congrArg Prod.snd hsend)
  · exact ⟨[h], (run_singleton c h).trans hstep⟩

theorem exists_run_start (c : Contended) (r : Request) :
    ∃ hs, c.run hs =
      { c with started := c.started + 1 }.place c.started (staged .called (start r c.state)) := by
  cases r with
  | load page => exact run_thenFetch (h := .request (.load page)) rfl
  | lookup raw => exact ⟨[.request (.lookup raw)], run_singleton c _⟩
  | take => exact ⟨[.request .take], run_singleton c _⟩
  | snapshot => exact ⟨[.request .snapshot], run_singleton c _⟩

theorem exists_run_resume (hx : c.stages n = some (.called x)) (r : Reply) :
    ∃ hs, c.run hs = c.place n (staged .called (resume x (r (call x)) c.state)) := by
  have hstep : c.step (.reply n r) = c.place n (replyHold x (r (call x)) c.state) := by
    simp only [step, hx]
  cases x with
  | summary key generation => exact run_thenFetch hstep
  | page key page size generation fetch chained =>
    exact ⟨[.reply n r], (run_singleton c _).trans hstep⟩

theorem exists_run_release (hx : c.stages n = some (.called x)) :
    ∃ hs, c.run hs = ({ c.without n with state := release x c.state }, []) := by
  refine ⟨[.cancel n, .release n], ?_⟩
  rw [run_cons, run_singleton]
  simp only [step, hx, place, without, Function.update_self, Function.update_idem, List.append_nil]

theorem Follows.step (hf : Follows c w) (hw : w.Numbered) (e : Event controller) :
    ∃ hs, Follows (c.after hs) (w.step e).1 ∧ (c.run hs).2 = (w.step e).2.finished := by
  cases e with
  | request r =>
    obtain ⟨hs, hrun⟩ := exists_run_start c r
    rw [hf.state, hf.started] at hrun
    have hbegun : Follows { state := w.state, stages := c.stages, started := w.started + 1 }
        { w with started := w.started + 1 } := ⟨rfl, rfl, hf.called, hf.idle⟩
    refine ⟨hs, ?_⟩
    rw [after, hrun]
    exact hbegun.place hw.sorted w.started (start r w.state)
  | reply k r =>
    simp only [World.step]
    split
    · next t ht =>
      obtain ⟨hs, hrun⟩ := exists_run_resume (hf.called t (List.mem_of_find?_eq_some ht)) r
      refine ⟨hs, ?_⟩
      rw [after, hrun, hf.state]
      exact hf.place hw.sorted t.number _
    · exact ⟨[], hf, rfl⟩
  | cancel k =>
    simp only [World.step]
    split
    · next t ht =>
      obtain rfl : t.number = k := by simpa using List.find?_some ht
      obtain ⟨hs, hrun⟩ := exists_run_release (hf.called t (List.mem_of_find?_eq_some ht))
      refine ⟨hs, ?_⟩
      rw [after, hrun, hf.state]
      exact ⟨hf.without t.number _, rfl⟩
    · exact ⟨[], hf, rfl⟩

/-- Whatever a run of the controller does, tasks that contend for the lock can do. -/
theorem Follows.run (hf : Follows c w) (hw : w.Numbered) (es : List (Event controller)) :
    ∃ hs, Follows (c.after hs) (w.after es) ∧ (c.run hs).2 = w.outcomes es := by
  induction es generalizing c w with
  | nil => exact ⟨[], hf, rfl⟩
  | cons e es ih =>
    obtain ⟨hs, hstep, hends⟩ := hf.step hw e
    obtain ⟨ks, hrun, hlater⟩ := ih hstep (hw.step e)
    refine ⟨hs ++ ks, ?_⟩
    rw [after, run_append, hends, hlater, World.after_cons, World.outcomes_cons]
    exact ⟨hrun, rfl⟩

end Contended
end QuotaDesk.Lookup
