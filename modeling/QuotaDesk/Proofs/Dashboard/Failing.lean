import QuotaDesk.Proofs.Controller.Failing
import QuotaDesk.Proofs.Dashboard.SingleFlight
import QuotaDesk.Proofs.Lookup.Marked

/-! What a failed call comes to. The rules of a lookup, of the panel and of the dashboard answer it
in words of their own, or leave the status unknown; a call that has been overtaken ends as if it
had never been made. -/

namespace QuotaDesk

namespace Lookup

instance (s : State) : (x : Waiting) → Decidable (x.Current s)
  | .summary .. => inferInstanceAs (Decidable (_ = _))
  | .page .. => inferInstanceAs (Decidable (_ ∧ _))

namespace Waiting

def failure : Waiting → Outcome
  | .summary .. => .refused (.transport queryUnreachable)
  | .page _ _ _ _ _ chained => historyOutcome chained (.failed (.transport historyFailed))

def failedOutcome (s : State) (x : Waiting) : Outcome :=
  if x.Current s then x.failure else x.lateOutcome

/-- The failure of a summary is shown, that of a page only takes its marker down. -/
def failedState (s : State) : Waiting → State
  | x@(.summary ..) => if x.Current s then refused (.transport queryUnreachable) s else s
  | x@(.page ..) => if x.Current s then arrived s else s

end Waiting

def failed (x : Waiting) (s : State) : State × Progress Waiting Outcome :=
  (x.failedState s, .finished (x.failedOutcome s))

theorem failsAs : controller.FailsAs failed := by
  intro x f s
  by_cases hc : Waiting.Current s x
  · have hstep : failed x s = (Waiting.failedState s x, .finished (Waiting.failure x)) := by
      rw [failed, Waiting.failedOutcome, if_pos hc]
    refine Eq.trans ?_ hstep.symm
    rcases hc.cases with ⟨key, rfl⟩ | ⟨key, page, size, chained, rfl⟩
    · simp [Waiting.failedState, hc, resume, resumeSummary, settleSummary, thenFetch, settle,
        refuse, refused, Waiting.failure]
    · simp [Waiting.failedState, hc, resume, resumePage, settle, arrived, Waiting.failure]
  · have hstep : failed x s = (s, .finished (Waiting.lateOutcome x)) := by
      cases x <;> simp [failed, Waiting.failedState, Waiting.failedOutcome, hc]
    rw [hstep]
    exact resume_late hc _

end Lookup

namespace Backup.Panel

def failure : {j : Job} → Waiting j → j.Result
  | _, .options => .error (.transport configLoadFailed)
  | _, .update .. => .error (.transport saveUnreachable)
  | _, .status => none
  | _, .trigger => .error (.transport syncUnreachable)
  | _, .closing message => .ok (.completed message none)

def failed (x : Sigma Waiting) (s : State) : State × Progress (Sigma Waiting) (Sigma Job.Result) :=
  (release x.2 s, .finished ⟨x.1, failure x.2⟩)

theorem failsAs : controller.FailsAs failed := by
  rintro ⟨j, x⟩ f s
  cases x <;> rfl

end Backup.Panel

namespace Dashboard.Application

variable (site : Site)

def failed : Waiting → State → Step
  | ⟨t, .lookup slot x⟩, s => showView site t slot (x.failedState (s.registry.lookup slot)) s
  | ⟨t, .showing _⟩, s => close site t {} (some ⟨.error, Backup.Panel.configLoadFailed⟩) s
  | ⟨t, .saving c _⟩, s => close site t c (some ⟨.error, Backup.Panel.saveUnreachable⟩) s
  | ⟨t, .starting _⟩, s => close site t {} (some ⟨.error, Backup.Panel.configLoadFailed⟩) s
  | ⟨t, .running c .trigger⟩, s =>
    close site t c (some ⟨.error, Backup.Panel.syncUnreachable⟩) { s with panel.syncing := false }
  | ⟨t, .running c (.closing message)⟩, s =>
    answer t (backupResponse site c none (some ⟨.success, message⟩) s) s
  | ⟨t, .closing c notice _⟩, s => answer t (backupResponse site c none notice s) s

theorem failsAs : (application site).FailsAs (failed site) := by
  rintro ⟨t, stage⟩ f s
  show resume site ⟨t, stage⟩ (.error f) s = failed site ⟨t, stage⟩ s
  cases stage with
  | lookup slot x =>
    exact congrArg (afterLookup site t slot s) (Lookup.failsAs x f (s.registry.lookup slot))
  | showing x => cases x; rfl
  | saving c x => cases x; rfl
  | starting x => cases x; rfl
  | running c x => cases x <;> rfl
  | closing c notice x => cases x; rfl

end Dashboard.Application
end QuotaDesk
