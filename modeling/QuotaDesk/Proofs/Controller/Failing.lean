import QuotaDesk.Proofs.Controller.Issued

/-! Calls that fail. Where the rules do one thing for every failure, a failure can be put in the
place of another one without a trace of it: in a run of many tasks, and in a request that is taken
to its end over a service. -/

namespace QuotaDesk

def Fails {c : Call} (a : Answer c) : Prop :=
  ∃ f, a = .error f

def Controller.FailsAs (C : Controller)
    (failed : C.Waiting → C.State → C.State × Progress C.Waiting C.Outcome) : Prop :=
  ∀ x f s, C.resume x (.error f) s = failed x s

namespace World

variable {C : Controller} {w v : World C} {es : List (Event C)} {k : Nat} {t : Task C}
  {failed : C.Waiting → C.State → C.State × Progress C.Waiting C.Outcome} {r r' : Reply}

theorem run_set {e e' : Event C} (h : w.Happens es k v e) (he : v.step e' = v.step e) :
    w.run (es.set k e') = w.run es := by
  induction es generalizing w k with
  | nil => cases h.event
  | cons f rest ih =>
    cases k with
    | zero =>
      cases h.event
      obtain rfl : w = v := h.world
      rw [List.set_cons_zero, run, run, he]
    | succ k =>
      have hrest : World.Happens (w.step f).1 rest k v e := ⟨h.event, h.world⟩
      rw [List.set_cons_succ, run, run]
      simp only [ih hrest]

theorem step_failing (hC : C.FailsAs failed) (hv : v.Numbered) (ht : t ∈ v.tasks)
    (hr : Fails (r (C.call t.waiting))) :
    v.step (.reply t.callNumber r) = v.place t.number (failed t.waiting v.state) := by
  obtain ⟨f, hf⟩ := hr
  rw [hv.step_reply ht, hf, resumeTask, hC]

theorem replies_request (hw : w.Numbered) {q : C.Request} {s : C.State} {x : C.Waiting}
    (h : C.start q w.state = (s, .waiting x)) :
    w.Replies [.request q, .reply w.issued r] 1 (w.step (.request q)).1
      ⟨w.started, w.issued, x⟩ r :=
  ⟨⟨rfl, rfl⟩, mem_tasks_of_opened hw (opened_request_iff.mpr ⟨x, congrArg Prod.snd h, rfl⟩)⟩

theorem Replies.numbered (hw : w.Numbered) (h : w.Replies es k v t r) : v.Numbered :=
  h.happens.world ▸ hw.after _

/-- One failure in the place of another leaves the whole run as it is. -/
theorem Replies.run_set_failing (hC : C.FailsAs failed) (hw : w.Numbered)
    (h : w.Replies es k v t r) (hr : Fails (r (C.call t.waiting)))
    (hr' : Fails (r' (C.call t.waiting))) :
    w.run (es.set k (.reply t.callNumber r')) = w.run es := by
  have hv := h.numbered hw
  exact run_set h.happens
    ((step_failing hC hv h.live hr').trans (step_failing hC hv h.live hr).symm)

end World

variable {m : Type → Type} [Monad m] [LawfulMonad m] {ask ask' : (c : Call) → m (Answer c)}

def FailAlike (ask ask' : (c : Call) → m (Answer c)) : Prop :=
  ∀ c, Except.toOption <$> ask c = Except.toOption <$> ask' c

theorem FailAlike.bind_eq (h : FailAlike ask ask') {c : Call} {β : Type} {next : Answer c → m β}
    (hnext : ∀ f g, next (.error f) = next (.error g)) : ask c >>= next = ask' c >>= next := by
  -- What goes on tells no failure from another, so it can as well be given one of our own.
  let back : Option (Envelope c.Payload) → Answer c := fun o =>
    match o with
    | some e => .ok e
    | none => .error (.transport "")
  have hback : ∀ a, next (back a.toOption) = next a := by
    rintro (f | e)
    · exact hnext _ _
    · rfl
  have hmap : ∀ x : m (Answer c),
      x >>= next = Except.toOption <$> x >>= fun o => next (back o) := by
    intro x
    simp only [bind_map_left, hback]
  rw [hmap, hmap, h c]

namespace Controller

variable {C : Controller}
  {failed : C.Waiting → C.State → C.State × Progress C.Waiting C.Outcome}

def finish (C : Controller) (ask : (c : Call) → m (Answer c)) :
    C.State × Progress C.Waiting C.Outcome → m (C.State × C.Outcome)
  | (s, .finished r) => pure (s, r)
  | (s, .waiting x) => C.proceed ask x s

omit [LawfulMonad m] in
theorem proceed_eq (x : C.Waiting) (s : C.State) :
    C.proceed ask x s = ask (C.call x) >>= fun a => C.finish ask (C.resume x a s) := by
  rw [proceed]
  congr 1
  funext a
  split
  · next h => exact congrArg (C.finish ask) h.symm
  · next h => exact congrArg (C.finish ask) h.symm

omit [LawfulMonad m] in
theorem perform_eq (r : C.Request) (s : C.State) :
    C.perform ask r s = C.finish ask (C.start r s) := by
  rw [perform]
  split <;> next h => rw [h, finish]

omit [LawfulMonad m] in
theorem finish_waiting (x : C.Waiting) (s : C.State) :
    C.finish ask (s, .waiting x) =
      ask (C.call x) >>= fun a => C.finish ask (C.resume x a s) := by
  rw [finish, proceed_eq]

theorem proceed_failing (hC : C.FailsAs failed) {x : C.Waiting} {s : C.State} {f : Fault}
    (h : ask (C.call x) = pure (.error f)) :
    C.proceed ask x s = C.finish ask (failed x s) := by
  rw [proceed_eq, h, pure_bind, hC]

theorem proceed_failAlike (hC : C.FailsAs failed) (h : FailAlike ask ask') (x : C.Waiting)
    (s : C.State) : C.proceed ask x s = C.proceed ask' x s := by
  -- By the rank of the open call: each answer ends the request or leads to a call of lower rank.
  induction hn : C.rank x using Nat.strongRecOn generalizing x s with
  | ind n ih =>
    have hstep : ∀ a, C.finish ask (C.resume x a s) = C.finish ask' (C.resume x a s) := by
      intro a
      rcases hp : C.resume x a s with ⟨s', x' | o⟩
      · exact ih _ (hn ▸ C.rank_lt x a s x' (by rw [hp])) x' s' rfl
      · rfl
    rw [proceed_eq, proceed_eq, funext hstep]
    exact h.bind_eq fun f g => by rw [hC x f s, hC x g s]

theorem perform_failAlike (hC : C.FailsAs failed) (h : FailAlike ask ask') (r : C.Request)
    (s : C.State) : C.perform ask r s = C.perform ask' r s := by
  unfold perform
  split
  · rfl
  · exact proceed_failAlike hC h _ _

end Controller
end QuotaDesk
