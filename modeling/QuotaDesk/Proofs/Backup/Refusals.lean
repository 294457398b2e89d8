import QuotaDesk.Proofs.Backup.Saving

/-! Who is turned away for lack of a token or a repository. A save asks for texts that are not
blank, a run only for texts that are not empty. Between the two guards lie the settings that may
not be saved and yet start a run. -/

namespace QuotaDesk.Backup.Panel

variable {calls : List Call} {replies : List Reply}
  {p : Progress controller.Waiting controller.Outcome} {c : Config}

/-- How far a request for a run has come, if its settings are complete. -/
inductive Triggering :
    List Call → List Reply → Progress controller.Waiting controller.Outcome → Prop
  | turnedAway : Triggering [] [] (.finished ⟨.trigger, .ok .alreadyRunning⟩)
  | started : Triggering [.trigger] [] (.waiting ⟨.trigger, .trigger⟩)
  | failed {r : Reply} {f : Fault} (h : triggerResult (r .trigger) = .error f) :
      Triggering [.trigger] [r] (.finished ⟨.trigger, .error f⟩)
  | closing {r : Reply} {message : String} (h : triggerResult (r .trigger) = .ok message) :
      Triggering [.trigger, .status] [r] (.waiting ⟨.trigger, .closing message⟩)
  | completed {r : Reply} {message : String} (h : triggerResult (r .trigger) = .ok message)
      (r' : Reply) : Triggering [.trigger, .status] [r, r']
        (.finished ⟨.trigger, .ok (.completed message (statusResult (r' .status)))⟩)

theorem start_trigger (c : Config) (s : State) :
    (controller.start (.trigger c) s).2 = lift .trigger (startTrigger c s).2 :=
  rfl

theorem Triggering.start (hc : c.isComplete = true) (s : State) :
    Triggering (controller.opens (controller.start (.trigger c) s).2) []
      (controller.start (.trigger c) s).2 := by
  rw [start_trigger]
  cases hs : s.syncing with
  | true =>
    rw [startTrigger_running hc hs]
    exact .turnedAway
  | false =>
    rw [startTrigger_free hc hs]
    exact .started

theorem Triggering.answer (r : Reply) :
    Triggering ([.trigger] ++ controller.opens (lift .trigger (resumeTrigger (r .trigger)))) [r]
      (lift .trigger (resumeTrigger (r .trigger))) := by
  rw [resumeTrigger]
  cases h : triggerResult (r .trigger) with
  | error f => exact .failed h
  | ok message => exact .closing h

theorem triggering_of_course (hc : c.isComplete = true)
    (h : Course controller (.trigger c) calls replies p) : Triggering calls replies p := by
  induction h with
  | start s => exact .start hc s
  | @resume calls replies x h reply s ih =>
    generalize hp : Progress.waiting x = p at ih
    cases ih with
    | started =>
      obtain rfl := Progress.waiting.inj hp
      exact .answer reply
    | closing hm =>
      obtain rfl := Progress.waiting.inj hp
      exact .completed hm reply
    | turnedAway | failed | completed => cases hp

theorem triggerResult_ne_validation (a : Except Fault (Envelope Json.Value)) (m : String) :
    triggerResult a ≠ .error (.validation m) := by
  rcases a with f | e
  · nofun
  · cases h : e.success <;> simp [triggerResult, h]

theorem writeFault?_ne_validation (a : Except Fault (Envelope Json.Value)) (m : String) :
    writeFault? a ≠ some (.validation m) := by
  rw [ne_eq, writeFault?_eq_some_iff]
  rintro (⟨_, _, h⟩ | ⟨_, _, _, h⟩) <;> cases h

theorem start_trigger_refused (hc : c.isComplete = false) (s : State) :
    (controller.start (.trigger c) s).2 =
      .finished ⟨.trigger, .error (.validation configRequired)⟩ := by
  have hstart : startTrigger c s = (s, .finished (.error (.validation configRequired))) := by
    simp [startTrigger, hc]
  rw [start_trigger, hstart]
  rfl

theorem save_refused_iff (h : Course controller (.save c) calls replies p) :
    p = .finished ⟨.save, .error (.validation configRequired)⟩ ↔
      Text.isBlankText c.token = true ∨ Text.isBlankText c.repo = true := by
  rw [← Config.not_acceptable_iff]
  by_cases hc : c.Acceptable
  · refine iff_of_false (fun hp => ?_) (not_not.mpr hc)
    obtain ⟨_, a, _, _, hf⟩ := (saving_of_course hc h).finished_error_iff.mp hp
    exact writeFault?_ne_validation a _ hf
  · exact iff_of_true (h.eq_of_finished (start_save_refused hc)).2 hc

theorem trigger_refused_iff (h : Course controller (.trigger c) calls replies p) :
    p = .finished ⟨.trigger, .error (.validation configRequired)⟩ ↔ c.token = "" ∨ c.repo = "" := by
  cases hc : c.isComplete with
  | true =>
    obtain ⟨htoken, hrepo⟩ := Config.isComplete_iff.mp hc
    refine iff_of_false (fun hp => ?_) (not_or.mpr ⟨htoken, hrepo⟩)
    subst hp
    cases triggering_of_course hc h with
    | failed hf => exact triggerResult_ne_validation _ _ hf
  | false =>
    refine iff_of_true (h.eq_of_finished (start_trigger_refused hc)).2 ?_
    by_contra hne
    rw [Config.isComplete_iff.mpr (not_or.mp hne)] at hc
    cases hc

section Runs

variable {es fs : List (Event controller)} {k l : Nat} {w v : World controller}

theorem issues_trigger_iff (h : untouched.Happens fs l v (.request (.trigger c))) :
    (∃ m, (m, Call.trigger) ∈ untouched.issues fs v.started) ↔
      c.isComplete = true ∧ v.state.syncing = false := by
  have hnum : untouched.Numbered := World.numbered_of_tasks_nil rfl
  cases hc : c.isComplete with
  | false =>
    obtain ⟨-, p, haccount⟩ := World.account_after hnum fs h
    have hissues := List.map_eq_nil_iff.mp
      (haccount.course.eq_of_finished (start_trigger_refused hc)).1
    simp [hissues]
  | true =>
    have hpending := (latched_of_happens h).up_iff
    by_cases hrunning : ∃ t, v.Pending .trigger t
    · obtain ⟨t, ht⟩ := hrunning
      simp [(issues_trigger_running h hc ht).2, hpending.mpr ⟨t, ht⟩]
    · obtain ⟨rest, hissues, -⟩ := issues_trigger_free h hc (not_exists.mp hrunning)
      rw [← hpending, Bool.not_eq_true] at hrunning
      exact iff_of_true ⟨l, hissues ▸ List.mem_cons_self⟩ ⟨rfl, hrunning⟩

/-- Saving settings is refused exactly when token or repository is blank, and running them exactly
when one is empty. The two agree unless one is blank without being empty, and what may not be
saved then starts a run. -/
theorem refused_alike_iff (hs : untouched.Happens es k w (.request (.save c)))
    (ht : untouched.Happens fs l v (.request (.trigger c))) :
    let blank := Text.isBlankText c.token = true ∨ Text.isBlankText c.repo = true
    let empty := c.token = "" ∨ c.repo = ""
    let saveRefused := (w.started, ⟨.save, .error (.validation configRequired)⟩) ∈
      untouched.outcomes es
    let runRefused := (v.started, ⟨.trigger, .error (.validation configRequired)⟩) ∈
      untouched.outcomes fs
    (saveRefused ↔ blank) ∧ (runRefused ↔ empty) ∧ (runRefused → saveRefused) ∧
      ((saveRefused ↔ runRefused) ↔ (blank → empty)) ∧
      (saveRefused → untouched.issues es w.started = []) ∧
      ((∃ m, (m, Call.trigger) ∈ untouched.issues fs v.started) ↔
        ¬empty ∧ v.state.syncing = false) := by
  have hnum : untouched.Numbered := World.numbered_of_tasks_nil rfl
  obtain ⟨-, p, hsaving⟩ := World.account_after hnum es hs
  obtain ⟨-, q, hrunning⟩ := World.account_after hnum fs ht
  intro blank empty saveRefused runRefused
  have hsave : saveRefused ↔ blank := (hsaving.ended _).trans (save_refused_iff hsaving.course)
  have hrun : runRefused ↔ empty :=
    (hrunning.ended _).trans (trigger_refused_iff hrunning.course)
  have hweaker : empty → blank := by
    intro hempty
    by_contra hblank
    have hcomplete := (not_not.mp fun h => hblank (Config.not_acceptable_iff.mp h)).isComplete
    exact not_or.mpr (Config.isComplete_iff.mp hcomplete) hempty
  refine ⟨hsave, hrun, fun h => hsave.mpr (hweaker (hrun.mp h)), ?_, fun h => ?_, ?_⟩
  · rw [hsave, hrun]
    exact ⟨Iff.mp, fun h => ⟨h, hweaker⟩⟩
  · have hc : ¬c.Acceptable := Config.not_acceptable_iff.mpr (hsave.mp h)
    exact List.map_eq_nil_iff.mp (hsaving.course.eq_of_finished (start_save_refused hc)).1
  · rw [issues_trigger_iff ht, Config.isComplete_iff]
    exact and_congr_left' not_or.symm

theorem refused_alike_iff_wide_space :
    let c : Config := { token := "t", repo := "\u3000" }
    let es : List (Event controller) := [.request (.save c)]
    let fs : List (Event controller) := [.request (.trigger c)]
    untouched.issues es 0 = [] ∧ ∃ m, (m, Call.trigger) ∈ untouched.issues fs 0 := by
  intro c es fs
  have hs : untouched.Happens es 0 untouched (.request (.save c)) := ⟨rfl, rfl⟩
  have ht : untouched.Happens fs 0 untouched (.request (.trigger c)) := ⟨rfl, rfl⟩
  obtain ⟨hsave, -, -, -, hnone, hstarts⟩ := refused_alike_iff hs ht
  exact ⟨hnone (hsave.mpr (by decide)), hstarts.mpr (by decide)⟩

/-- A token of one space is missing for a save, but it starts a run. -/
theorem space_not_saved_but_run :
    let c : Config := { token := " ", repo := "acme/backup" }
    let es : List (Event controller) := [.request (.save c), .request (.trigger c)]
    untouched.outcomes es = [(0, ⟨.save, .error (.validation configRequired)⟩)] ∧
      untouched.issues es 0 = [] ∧ untouched.issues es 1 = [(1, .trigger)] := by
  intro c es
  have hfirst : untouched.Happens es 0 untouched (.request (.save c)) := ⟨rfl, rfl⟩
  have hblank : ¬c.Acceptable := Config.not_acceptable_iff.mpr (.inl (by decide))
  have hrefused : (0, (⟨.save, .error (.validation configRequired)⟩ : Sigma Job.Result)) ∈
      (untouched.step (.request (.save c))).2.finished :=
    (World.finished_place_iff _ _ _ _).mpr (start_save_refused hblank untouched.state)
  have hone : (untouched.outcomes es).map Prod.fst = [0] := by decide +kernel
  obtain ⟨outcome, houtcomes, -⟩ := List.map_eq_singleton_iff.mp hone
  have hmem := hfirst.mem_outcomes hrefused
  rw [houtcomes, List.mem_singleton] at hmem
  refine ⟨?_, by decide +kernel, by decide +kernel⟩
  rw [houtcomes, hmem]

end Runs

end QuotaDesk.Backup.Panel
