import QuotaDesk.Proofs.Controller.Failing
import QuotaDesk.Proofs.Ledger.Paging
import QuotaDesk.Proofs.Lookup.Requests
import QuotaDesk.Proofs.Lookup.Verdict

/-! A lookup from start to end with nothing in between, and one later page. What is on show
afterwards is told by the answers alone. -/

namespace QuotaDesk

def answeredPage? : Except Fault (Envelope Ledger.Page) → Option Ledger.Page
  | .ok ⟨true, _, data⟩ => some (data.getD {})
  | _ => none

def Ledger.Page.Continues (first : Ledger.Page) (page : UInt32) : Prop :=
  1 < page ∧ page.toNat ≤ first.total.toNat ⌈/⌉ 10

instance (first : Ledger.Page) (page : UInt32) : Decidable (first.Continues page) :=
  inferInstanceAs (Decidable (_ ∧ _))

namespace Lookup

variable {m : Type → Type} [Monad m] {ask : (c : Call) → m (Answer c)}

def pageOutcome (page : UInt32) (b : Except Fault (Envelope Ledger.Page)) : History :=
  match settle b historyFailed historyFailed with
  | .ok data => .loaded page (data.getD {}).records.length
  | .error f => .failed f

theorem resume_newest_page (key : String) (page size : UInt32) (chained : Bool)
    (b : Answer (.history key page size)) (s : State) :
    resume (.page key page size s.generation s.fetch chained) b s =
      (match answeredPage? b with
        | some data => landed page data s
        | none => arrived s,
        .finished (historyOutcome chained (pageOutcome page b))) := by
  have hnewest : ¬(s.generation ≠ s.generation ∨ s.fetch ≠ s.fetch) := by simp
  rcases b with f | ⟨_ | _, message, data⟩
  all_goals exact if_neg hnewest

def showing (key : String) (summary : Quota.Summary) (page : UInt32) (data : Ledger.Page)
    (fetch : Nat) : State where
  view := {
    key
    summary := some summary
    records := data.records
    paging := { current := page, total := data.total }
    notice := some ⟨.success, querySucceeded⟩ }
  generation := 1
  fetch

theorem start_first {raw : String} (hkey : Text.trim raw ≠ "") :
    start (.lookup raw) {} = (accepted (Text.trim raw) {}, .waiting (.summary (Text.trim raw) 1)) :=
  start_lookup_free hkey rfl

theorem resume_first (key : String) (a : Answer (.quota key)) :
    resume (.summary key 1) a (accepted key {}) =
      match verdict a with
      | .ok summary =>
        (asked (summarized summary (accepted key {})), .waiting (.page key 1 10 1 1 true))
      | .error f => (refused f (accepted key {}), .finished (.refused f)) :=
  resume_verdict key a (accepted key {})

theorem resume_first_page (key : String) (summary : Quota.Summary)
    (b : Answer (.history key 1 10)) :
    resume (.page key 1 10 1 1 true) b (asked (summarized summary (accepted key {}))) =
      (showing key summary 1 ((answeredPage? b).getD {}) 1,
        .finished (.loaded (pageOutcome 1 b))) := by
  refine (resume_newest_page key 1 10 true b _).trans ?_
  cases answeredPage? b <;> rfl

theorem controller_start : controller.start = start := rfl

theorem controller_resume : controller.resume = resume := rfl

theorem perform_lookup (raw : String) :
    controller.perform ask (.lookup raw) {} =
      if Text.trim raw = "" then
        pure (withNotice (.ofFault (.validation keyRequired)) {},
          .refused (.validation keyRequired))
      else
        ask (.quota (Text.trim raw)) >>= fun a =>
          match verdict a with
          | .error f => pure (refused f (accepted (Text.trim raw) {}), .refused f)
          | .ok summary =>
            ask (.history (Text.trim raw) 1 10) >>= fun b =>
              pure (showing (Text.trim raw) summary 1 ((answeredPage? b).getD {}) 1,
                .loaded (pageOutcome 1 b)) := by
  rw [Controller.perform_eq, controller_start]
  split
  · next hblank => rw [start_blank hblank, Controller.finish]
  · next hkey =>
    rw [start_first hkey, Controller.finish_waiting]
    refine bind_congr fun (a : Answer (.quota (Text.trim raw))) => ?_
    rw [controller_resume, resume_first]
    cases verdict a with
    | error f => rw [Controller.finish]
    | ok summary =>
      rw [Controller.finish_waiting]
      refine bind_congr fun (b : Answer (.history (Text.trim raw) 1 10)) => ?_
      rw [controller_resume, resume_first_page, Controller.finish]

theorem perform_load {key : String} (hkey : key ≠ "") (summary : Quota.Summary)
    (first : Ledger.Page) {page : UInt32} (hpage : page ≠ 1) :
    controller.perform ask (.load page) (showing key summary 1 first 1) =
      if first.Continues page then
        ask (.history key page 10) >>= fun c =>
          pure (match answeredPage? c with
            | some data => showing key summary page data 2
            | none => showing key summary 1 first 2,
            .history (pageOutcome page c))
      else pure (showing key summary 1 first 1, .history .outOfRange) := by
  have haccepts : (showing key summary 1 first 1).view.paging.accepts page = true ↔
      first.Continues page :=
    (Ledger.Paging.accepts_pageSize 1 first.total page).trans (or_iff_right hpage)
  rw [Controller.perform_eq]
  split
  · next hcontinues =>
    have hstart := start_load_shown (s := showing key summary 1 first 1) hkey nofun
      (haccepts.mpr hcontinues)
    refine (congrArg (controller.finish ask) hstart).trans ?_
    refine (Controller.proceed_eq _ _).trans (bind_congr fun c => ?_)
    refine (congrArg (controller.finish ask) (resume_newest_page key page 10 false c
      (asked (showing key summary 1 first 1)))).trans ?_
    cases answeredPage? c <;> rfl
  · next hcontinues =>
    have hstart := start_load_rejected (s := showing key summary 1 first 1) hkey nofun
      (Bool.eq_false_iff.mpr (mt haccepts.mp hcontinues))
    exact congrArg (controller.finish ask) hstart

end Lookup
end QuotaDesk
