import QuotaDesk.Demo
import QuotaDesk.Proofs.Backup.KeptSettings
import QuotaDesk.Proofs.Controller.Failing

/-! The panel over the built-in service is a book with two lines: the settings that were saved last
and the time of the last run. Whether the backup is set up is decided in four places: by the panel
before it saves, by the settings before they start a run, by the service before it runs, and by
the default of the reader of the options. They agree because the options are at all times either
absent or those of settings in the form in which they are kept. -/

namespace QuotaDesk.Backup

open Panel (Job Report Request)

abbrev Outcome : Type :=
  Sigma Job.Result

section Machines

variable {σ τ : Type} {step : String → Request → σ → σ × Outcome}
  {step' : String → Request → τ → τ × Outcome} {R : σ → τ → Prop} {s : σ} {t : τ}

def carryOut (step : String → Request → σ → σ × Outcome) (s : σ) :
    List (String × Request) → σ × List (Request × Outcome)
  | [] => (s, [])
  | (now, r) :: ops =>
    let (s', o) := step now r s
    let (s'', rest) := carryOut step s' ops
    (s'', (r, o) :: rest)

/-- Related machines answer alike and stay related. -/
def Refines (step : String → Request → σ → σ × Outcome)
    (step' : String → Request → τ → τ × Outcome) (R : σ → τ → Prop) : Prop :=
  ∀ now r s t, R s t → R (step now r s).1 (step' now r t).1 ∧ (step now r s).2 = (step' now r t).2

theorem Refines.carryOut (h : Refines step step' R) (hst : R s t) (ops : List (String × Request)) :
    R (carryOut step s ops).1 (carryOut step' t ops).1 ∧
      (carryOut step s ops).2 = (carryOut step' t ops).2 := by
  induction ops generalizing s t with
  | nil => exact ⟨hst, rfl⟩
  | cons op ops ih =>
    obtain ⟨hnext, hout⟩ := h op.1 op.2 s t hst
    obtain ⟨hend, hrest⟩ := ih hnext
    exact ⟨hend, congrArg₂ List.cons (congrArg (Prod.mk op.2) hout) hrest⟩

theorem carryOut_concat (ops : List (String × Request)) (now : String) (r : Request) :
    carryOut step s (ops ++ [(now, r)]) =
      ((step now r (carryOut step s ops).1).1,
        (carryOut step s ops).2 ++ [(r, (step now r (carryOut step s ops).1).2)]) := by
  induction ops generalizing s with
  | nil => rfl
  | cons op ops ih => simp only [List.cons_append, carryOut, ih]

end Machines

structure Desk where
  panel : Panel.State := {}
  service : Demo.Store := {}

def askDemo (now : String) (c : Call) : StateM Demo.Store (Answer c) :=
  Demo.answer now c

def Desk.ofEnd : (Panel.State × Outcome) × Demo.Store → Desk × Outcome
  | ((panel, outcome), service) => (⟨panel, service⟩, outcome)

def Desk.perform (now : String) (r : Request) (d : Desk) : Desk × Outcome :=
  ofEnd ((Panel.controller.perform (askDemo now) r d.panel).run d.service)

structure Book where
  saved : Option Config := none
  lastRun : Option String := none

namespace Book

def shown (b : Book) : Config :=
  b.saved.getD {}

def perform (now : String) : Request → Book → Book × Outcome
  | .load, b => (b, ⟨.load, .ok b.shown⟩)
  | .save c, b =>
    if c.Acceptable then ({ b with saved := some c.kept }, ⟨.save, .ok ()⟩)
    else (b, ⟨.save, .error (.validation Panel.configRequired)⟩)
  | .status, b => (b, ⟨.status, some ⟨b.saved.isSome, b.lastRun⟩⟩)
  | .trigger c, b =>
    if c.isComplete then
      if b.saved.isSome then
        ({ b with lastRun := some now },
          ⟨.trigger, .ok (.completed "sync completed" (some ⟨true, some now⟩))⟩)
      else (b, ⟨.trigger, .error (.logical ("sync failed: " ++ Demo.notConfigured))⟩)
    else (b, ⟨.trigger, .error (.validation Panel.configRequired)⟩)

end Book

/-- The desk keeps what is in the book. -/
structure Keeps (d : Desk) (b : Book) : Prop where
  idle : d.panel.syncing = false
  options : d.service.options = (b.saved.map Config.updates).getD []
  lastRun : d.service.lastSyncTime = b.lastRun
  acceptable : ∀ c ∈ b.saved, c.Acceptable
  kept : ∀ c ∈ b.saved, c.kept = c

namespace Keeps

variable {d : Desk} {b : Book} {now : String}

theorem shown_eq (h : Keeps d b) : Config.ofOptions d.service.options = b.shown := by
  rw [h.options]
  cases hb : b.saved with
  | none => rw [Book.shown, hb]; rfl
  | some c =>
    have hinterval : Text.isBlankText c.interval = false :=
      h.kept c hb ▸ isBlankText_keptInterval _
    rw [Book.shown, hb]
    exact Config.ofOptions_updates hinterval

theorem isConfigured_eq (h : Keeps d b) : Demo.isConfigured d.service = b.saved.isSome := by
  rw [Demo.isConfigured, Demo.isSet, Demo.isSet, h.options]
  cases hb : b.saved with
  | none => rfl
  | some c => exact (h.acceptable c hb).isComplete

theorem write_updates (h : Keeps d b) (c : Config) :
    Options.write c.updates d.service.options = c.updates := by
  rw [h.options]
  cases b.saved with
  | none => exact Options.write_updates_nil c
  | some c' => exact Options.write_updates c c'

end Keeps

theorem run_proceed (C : Controller) (now : String) (x : C.Waiting) (s : C.State)
    (store : Demo.Store) :
    (C.proceed (askDemo now) x s).run store =
      (C.finish (askDemo now) (C.resume x (Demo.answer now (C.call x) store).1 s)).run
        (Demo.answer now (C.call x) store).2 := by
  rw [Controller.proceed_eq]
  rfl

theorem run_saveRest (now : String) (s : Panel.State) (us : List (String × String))
    (store : Demo.Store) :
    (Panel.controller.finish (askDemo now) (s, Panel.lift .save (Panel.saveRest us))).run store =
      ((s, ⟨.save, .ok ()⟩), { store with options := store.options.write us }) := by
  induction us generalizing store with
  | nil => rfl
  | cons u us ih =>
    exact (run_proceed Panel.controller now ⟨.save, .update u.1 u.2 us⟩ s store).trans (ih _)

theorem run_closing (now message : String) (s : Panel.State) (store : Demo.Store) :
    (Panel.controller.proceed (askDemo now) ⟨.trigger, .closing message⟩ s).run store =
      ((s, ⟨.trigger, .ok (.completed message
        (some ⟨Demo.isConfigured store, store.lastSyncTime⟩))⟩), store) :=
  run_proceed Panel.controller now ⟨.trigger, .closing message⟩ s store

theorem run_trigger (now : String) (store : Demo.Store) :
    (Panel.controller.proceed (askDemo now) ⟨.trigger, .trigger⟩ { syncing := true }).run store =
      if Demo.isConfigured store then
        (({}, ⟨.trigger, .ok (.completed "sync completed" (some ⟨true, some now⟩))⟩),
          { store with lastSyncTime := some now })
      else
        (({}, ⟨.trigger, .error (.logical ("sync failed: " ++ Demo.notConfigured))⟩), store) := by
  refine (run_proceed Panel.controller now ⟨.trigger, .trigger⟩ { syncing := true } store).trans ?_
  show (Panel.controller.finish (askDemo now) (Panel.controller.resume ⟨.trigger, .trigger⟩
    (Demo.answer now .trigger store).1 { syncing := true })).run (Demo.answer now .trigger store).2 = _
  cases h : Demo.isConfigured store with
  | false =>
    rw [Demo.answer, h]
    rfl
  | true =>
    have hstill : Demo.isConfigured { store with lastSyncTime := some now } = true := h
    rw [Demo.answer, h]
    refine (run_closing now "sync completed" {} { store with lastSyncTime := some now }).trans ?_
    rw [hstill]
    rfl

namespace Desk

variable (now : String) (c : Config) (d : Desk)

theorem perform_load :
    d.perform now .load = (d, ⟨.load, .ok (Config.ofOptions d.service.options)⟩) :=
  congrArg ofEnd (run_proceed Panel.controller now ⟨.load, .options⟩ d.panel d.service)

theorem perform_status :
    d.perform now .status =
      (d, ⟨.status, some ⟨Demo.isConfigured d.service, d.service.lastSyncTime⟩⟩) :=
  congrArg ofEnd (run_proceed Panel.controller now ⟨.status, .status⟩ d.panel d.service)

theorem perform_save :
    d.perform now (.save c) =
      if c.Acceptable then
        ({ d with service.options := d.service.options.write c.kept.updates }, ⟨.save, .ok ()⟩)
      else (d, ⟨.save, .error (.validation Panel.configRequired)⟩) := by
  have hend : d.perform now (.save c) = ofEnd ((Panel.controller.finish (askDemo now)
      (d.panel, Panel.lift .save (Panel.startSave c))).run d.service) := rfl
  rw [hend, Panel.startSave]
  by_cases h : c.Acceptable
  · rw [if_pos h, h.1, h.2, Config.savedForm_eq]
    exact congrArg ofEnd (run_saveRest now d.panel c.kept.updates d.service)
  · have hblank : (Text.isBlankText c.token || Text.isBlankText c.repo) = true := by
      rwa [← Bool.not_eq_false, Bool.or_eq_false_iff]
    rw [if_neg h, if_pos hblank]
    rfl

theorem perform_trigger (h : d.panel.syncing = false) :
    d.perform now (.trigger c) =
      if c.isComplete then
        if Demo.isConfigured d.service then
          ({ d with service.lastSyncTime := some now },
            ⟨.trigger, .ok (.completed "sync completed" (some ⟨true, some now⟩))⟩)
        else (d, ⟨.trigger, .error (.logical ("sync failed: " ++ Demo.notConfigured))⟩)
      else (d, ⟨.trigger, .error (.validation Panel.configRequired)⟩) := by
  obtain ⟨⟨syncing⟩, store⟩ := d
  obtain rfl : syncing = false := h
  have hend : perform now (.trigger c) ⟨{}, store⟩ = ofEnd ((Panel.controller.finish (askDemo now)
      ((Panel.startTrigger c {}).1, Panel.lift .trigger (Panel.startTrigger c {}).2)).run store) := rfl
  rw [hend, Panel.startTrigger]
  cases c.isComplete with
  | false => rfl
  | true =>
    refine (congrArg ofEnd (run_trigger now store)).trans ?_
    show _ = if Demo.isConfigured store then _ else _
    split <;> rfl

end Desk

theorem desk_refines_book : Refines Desk.perform Book.perform Keeps := by
  intro now r d b h
  cases r with
  | load =>
    rw [Desk.perform_load, h.shown_eq]
    exact ⟨h, rfl⟩
  | status =>
    rw [Desk.perform_status, h.isConfigured_eq, h.lastRun]
    exact ⟨h, rfl⟩
  | save c =>
    rw [Desk.perform_save, Book.perform, h.write_updates]
    by_cases hc : c.Acceptable
    · rw [if_pos hc, if_pos hc]
      refine ⟨⟨h.idle, rfl, h.lastRun, ?_, ?_⟩, rfl⟩
      · rintro _ ⟨⟩
        exact hc
      · rintro _ ⟨⟩
        exact c.kept_kept
    · rw [if_neg hc, if_neg hc]
      exact ⟨h, rfl⟩
  | trigger c =>
    rw [Desk.perform_trigger now c d h.idle, Book.perform, h.isConfigured_eq]
    split
    · split
      · exact ⟨⟨h.idle, h.options, rfl, h.acceptable, h.kept⟩, rfl⟩
      · exact ⟨h, rfl⟩
    · exact ⟨h, rfl⟩

theorem keeps_fresh : Keeps {} {} :=
  ⟨rfl, rfl, rfl, nofun, nofun⟩

def accepted? : Request × Outcome → Option Config
  | (.save c, ⟨.save, .ok ()⟩) => some c
  | _ => none

def lastAccepted (history : List (Request × Outcome)) : Option Config :=
  (history.filterMap accepted?).getLast?

theorem lastAccepted_concat (history : List (Request × Outcome)) (e : Request × Outcome) :
    lastAccepted (history ++ [e]) = (accepted? e).or (lastAccepted history) := by
  have hlast : (List.filterMap accepted? [e]).getLast? = accepted? e := by
    cases h : accepted? e <;> simp [h]
  rw [lastAccepted, List.filterMap_append, List.getLast?_append, hlast, lastAccepted]

def Completes (o : Outcome) : Prop :=
  ∃ message status, o = ⟨.trigger, .ok (.completed message status)⟩

namespace Book

variable (now : String) (r : Request) (b : Book) (ops : List (String × Request))

theorem saved_perform :
    (b.perform now r).1.saved =
      ((accepted? (r, (b.perform now r).2)).map Config.kept).or b.saved := by
  cases r with
  | load => rfl
  | status => rfl
  | save c =>
    rw [perform]
    split <;> rfl
  | trigger c =>
    rw [perform]
    split
    · split <;> rfl
    · rfl

theorem lastRun_perform :
    (b.perform now r).1.lastRun.isSome ↔ b.lastRun.isSome ∨ Completes (b.perform now r).2 := by
  have hidle : ∀ o, ¬ Completes o → (b.lastRun.isSome ↔ b.lastRun.isSome ∨ Completes o) :=
    fun o ho => (or_iff_left ho).symm
  cases r with
  | load => exact hidle _ nofun
  | status => exact hidle _ nofun
  | save c =>
    rw [perform]
    split <;> exact hidle _ nofun
  | trigger c =>
    rw [perform]
    split
    · split
      · exact iff_of_true rfl (.inr ⟨_, _, rfl⟩)
      · exact hidle _ nofun
    · exact hidle _ nofun

theorem saved_carryOut :
    (carryOut perform {} ops).1.saved =
      (lastAccepted (carryOut perform {} ops).2).map Config.kept := by
  induction ops using List.reverseRecOn with
  | nil => rfl
  | append_singleton ops op ih =>
    rw [carryOut_concat, saved_perform, ih, lastAccepted_concat, Option.map_or]

theorem lastRun_carryOut :
    (carryOut perform {} ops).1.lastRun.isSome ↔
      ∃ e ∈ (carryOut perform {} ops).2, Completes e.2 := by
  induction ops using List.reverseRecOn with
  | nil => simp [carryOut]
  | append_singleton ops op ih =>
    rw [carryOut_concat, lastRun_perform, ih]
    simp only [List.mem_append, List.mem_singleton, or_and_right, exists_or, exists_eq_left]

end Book

theorem Desk.completes_trigger_iff (now : String) (c : Config) (d : Desk)
    (h : d.panel.syncing = false) :
    Completes (d.perform now (.trigger c)).2 ↔
      c.isComplete = true ∧ Demo.isConfigured d.service = true := by
  rw [perform_trigger now c d h]
  split
  · next hcomplete =>
    split
    · next hconfigured => exact iff_of_true ⟨_, _, rfl⟩ ⟨hcomplete, hconfigured⟩
    · next hconfigured => exact iff_of_false nofun fun hc => hconfigured hc.2
  · next hcomplete => exact iff_of_false nofun fun hc => hcomplete hc.1

theorem Keeps.save_shown {d : Desk} {b : Book} (h : Keeps d b) (now : String) :
    (d.perform now (.save b.shown)).1.service.options = d.service.options := by
  rw [Desk.perform_save]
  split
  · next hc =>
    cases hb : b.saved with
    | none =>
      rw [Book.shown, hb] at hc
      cases hc.1
    | some c =>
      rw [Book.shown, hb]
      show Options.write c.kept.updates d.service.options = d.service.options
      rw [h.write_updates, h.kept c hb, h.options, hb]
      rfl
  · rfl

theorem Keeps.isComplete_shown {d : Desk} {b : Book} (h : Keeps d b) :
    b.shown.isComplete = b.saved.isSome := by
  cases hb : b.saved with
  | none => rw [Book.shown, hb]; rfl
  | some c => rw [Book.shown, hb]; exact (h.acceptable c hb).isComplete

/-- After any requests the panel over the built-in service shows the settings that were accepted
last and answers as the book does. -/
theorem panel_refines_book (ops : List (String × Request)) :
    let desk := (carryOut Desk.perform {} ops).1
    let history := (carryOut Desk.perform {} ops).2
    let accepted := lastAccepted history
    let shown := (accepted.map Config.kept).getD {}
    history = (carryOut Book.perform {} ops).2 ∧
      ∀ now,
        (desk.perform now .load).2 = ⟨.load, .ok shown⟩ ∧
        (desk.perform now (.save shown)).1.service.options = desk.service.options ∧
        (∃ lastSync,
          (desk.perform now .status).2 = ⟨.status, some ⟨accepted.isSome, lastSync⟩⟩ ∧
          (lastSync.isSome ↔ ∃ e ∈ history, Completes e.2)) ∧
        (shown.isComplete = true ↔ accepted.isSome) ∧
        (Completes (desk.perform now (.trigger shown)).2 ↔ accepted.isSome) := by
  obtain ⟨hkeeps, hhistory⟩ := desk_refines_book.carryOut keeps_fresh ops
  intro desk history accepted shown
  have hsaved : (carryOut Book.perform {} ops).1.saved = accepted.map Config.kept := by
    rw [Book.saved_carryOut, ← hhistory]
  have hshown : (carryOut Book.perform {} ops).1.shown = shown := by
    rw [Book.shown, hsaved]
  have hsome : (carryOut Book.perform {} ops).1.saved.isSome = accepted.isSome := by
    rw [hsaved, Option.isSome_map]
  have hcomplete : shown.isComplete = accepted.isSome := by
    rw [← hshown, hkeeps.isComplete_shown, hsome]
  have hconfigured : Demo.isConfigured desk.service = accepted.isSome := by
    rw [hkeeps.isConfigured_eq, hsome]
  refine ⟨hhistory, fun now => ⟨?_, ?_, ?_, ?_, ?_⟩⟩
  · rw [Desk.perform_load, hkeeps.shown_eq, hshown]
  · exact hshown ▸ hkeeps.save_shown now
  · rw [Desk.perform_status, hconfigured]
    refine ⟨_, rfl, ?_⟩
    rw [hkeeps.lastRun, Book.lastRun_carryOut, ← hhistory]
  · rw [hcomplete]
  · rw [Desk.completes_trigger_iff _ _ _ hkeeps.idle, hcomplete, hconfigured, and_self]

end QuotaDesk.Backup
