import QuotaDesk.Backup.Panel
import QuotaDesk.Proofs.Controller.Latch

/-! One run at a time on the panel: the flag guards the call that starts a run. A request for
a run is turned away without a call while that call is open, and issues it otherwise. -/

namespace QuotaDesk.Backup.Panel

theorem guarded_startTrigger (c : Config) (s : State) :
    Guarded (C := controller) State.syncing .trigger s
      ((startTrigger c s).1, lift .trigger (startTrigger c s).2) := by
  unfold startTrigger
  split
  · exact .ends rfl
  · split
    · exact .ends rfl
    · next hfree => exact .raised rfl (Bool.eq_false_iff.mpr hfree) rfl

theorem saveRest_waits (s : State) (updates : List (String × String)) :
    Guarded (C := controller) State.syncing .trigger s (s, lift .save (saveRest updates)) := by
  cases updates with
  | nil => exact .ends rfl
  | cons u rest => exact .waits nofun rfl

theorem guarded_start (r : Request) (s : State) :
    Guarded (C := controller) State.syncing .trigger s (start r s) := by
  cases r with
  | load => exact .waits nofun rfl
  | save c =>
    simp only [start, startSave]
    split
    · exact .ends rfl
    · exact saveRest_waits s _
  | status => exact .waits nofun rfl
  | trigger c => exact guarded_startTrigger c s

theorem latch : Latch controller State.syncing .trigger where
  start_guarded := guarded_start
  resume_guarded := by
    rintro ⟨j, x⟩ a s hx
    cases x with
    | options => exact .ends rfl
    | update name value rest =>
      simp only [controller, resume, resumeSave]
      split
      · exact saveRest_waits s rest
      · exact .ends rfl
    | status => exact .ends rfl
    | trigger => exact absurd rfl hx
    | closing message => exact .ends rfl
  resume_lowers := by
    rintro ⟨j, x⟩ a s hx
    cases x with
    | trigger =>
      refine ⟨rfl, fun y hy => ?_⟩
      simp only [controller, resume, resumeTrigger] at hy
      split at hy
      · cases hy
        intro hcall
        cases hcall
      · cases hy
    | _ => cases hx
  release_keeps := by
    rintro ⟨j, x⟩ s hx
    cases x with
    | trigger => exact absurd rfl hx
    | _ => rfl
  release_lowers := by
    rintro ⟨j, x⟩ s hx
    cases x with
    | trigger => rfl
    | _ => cases hx

def untouched : World controller :=
  { state := {} }

theorem latched_after (es : List (Event controller)) :
    (untouched.after es).Latched State.syncing .trigger :=
  (World.latched_of_tasks_nil rfl rfl).after latch es

theorem startTrigger_running {c : Config} {s : State} (hc : c.isComplete = true)
    (hs : s.syncing = true) : startTrigger c s = (s, .finished (.ok .alreadyRunning)) := by
  simp [startTrigger, hc, hs]

theorem startTrigger_free {c : Config} {s : State} (hc : c.isComplete = true)
    (hs : s.syncing = false) : startTrigger c s = ({ s with syncing := true }, .waiting .trigger) := by
  simp [startTrigger, hc, hs]

theorem resumeTrigger_waiting {a : Except Fault (Envelope Json.Value)} {y : Waiting .trigger}
    (h : resumeTrigger a = .waiting y) : ∃ message, y = .closing message := by
  unfold resumeTrigger at h
  split at h
  · exact ⟨_, (Progress.waiting.inj h).symm⟩
  · cases h

theorem closing_status (message : String) :
    World.Closing (C := controller) ⟨.trigger, .closing message⟩ :=
  fun _ _ _ h => nomatch h

variable {es : List (Event controller)} {k : Nat} {w : World controller} {c : Config}

theorem latched_of_happens {e : Event controller} (h : untouched.Happens es k w e) :
    w.Latched State.syncing .trigger :=
  h.world ▸ latched_after (es.take k)

theorem issues_trigger_running (h : untouched.Happens es k w (.request (.trigger c)))
    (hc : c.isComplete = true) {t : Task controller} (ht : w.Pending .trigger t) :
    (w.step (.request (.trigger c))).2.finished =
        [(w.started, ⟨.trigger, .ok .alreadyRunning⟩)] ∧
      untouched.issues es w.started = [] := by
  have hstart : start (.trigger c) w.state =
      (w.state, .finished ⟨.trigger, .ok .alreadyRunning⟩) := by
    simp only [start, startTrigger_running hc ((latched_of_happens h).up_iff.mpr ⟨t, ht⟩)]
    rfl
  refine ⟨World.finished_request_iff.mpr (congrArg Prod.snd hstart),
    World.issues_of_finished (World.numbered_of_tasks_nil rfl) h ?_⟩
  refine Option.eq_none_iff_forall_not_mem.mpr fun u hu => ?_
  obtain ⟨x, hx, _⟩ := World.opened_request_iff.mp hu
  exact nomatch (congrArg Prod.snd hstart).symm.trans hx

theorem issues_trigger_free (h : untouched.Happens es k w (.request (.trigger c)))
    (hc : c.isComplete = true) (hfree : ∀ t, ¬w.Pending .trigger t) :
    ∃ rest, untouched.issues es w.started = (k, .trigger) :: rest ∧ ∀ p ∈ rest, p.2 = .status := by
  have hnum : untouched.Numbered := World.numbered_of_tasks_nil rfl
  have hdown : w.state.syncing = false := by
    rw [← Bool.not_eq_true, (latched_of_happens h).up_iff]
    exact fun ⟨t, ht⟩ => hfree t ht
  have hstart : (start (.trigger c) w.state).2 = .waiting ⟨.trigger, .trigger⟩ := by
    simp only [start, startTrigger_free hc hdown, lift]
  have hopened : (w.step (.request (.trigger c))).2.opened = some
      ⟨w.started, w.issued, ⟨.trigger, .trigger⟩⟩ :=
    World.opened_request_iff.mpr ⟨_, hstart, rfl⟩
  have hopens : untouched.Opens es k ⟨w.started, w.issued, ⟨.trigger, .trigger⟩⟩ :=
    ⟨w, _, h, hopened⟩
  -- From there the task comes at most to its status.
  have hnext : ∀ x a s y, x.1 = .trigger → (controller.resume x a s).2 = .waiting y →
      y.1 = .trigger ∧ controller.call y = .status := by
    rintro ⟨j, x⟩ a s y rfl hy
    cases x with
    | trigger =>
      simp only [controller, resume] at hy
      cases hp : resumeTrigger a with
      | waiting z =>
        obtain ⟨message, rfl⟩ := resumeTrigger_waiting hp
        rw [hp] at hy
        obtain rfl := Progress.waiting.inj hy
        exact ⟨rfl, rfl⟩
      | finished r =>
        rw [hp] at hy
        cases hy
    | closing message => exact absurd hy (closing_status message a s y)
  obtain ⟨rest, hissues, hrest⟩ := hopens.issues_eq hnum (Q := fun x => x.1 = .trigger)
    (fun x a s y hx hy => (hnext x a s y hx hy).1) rfl
  refine ⟨rest, ?_, fun p hp => ?_⟩
  · rw [hissues, h.issues_take hnum, List.nil_append]
    rfl
  · obtain ⟨x, a, s, y, hx, hy, hcall⟩ := hrest p hp
    exact hcall.trans (hnext x a s y hx hy).2

end QuotaDesk.Backup.Panel
