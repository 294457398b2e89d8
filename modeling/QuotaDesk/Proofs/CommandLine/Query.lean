import QuotaDesk.CommandLine.Run
import QuotaDesk.Proofs.Lookup.Undisturbed

/-! A query on the command line, from its first call to what it prints. It asks for the summary,
for the first page and for the page it was given, each only when the replies so far allow it, and
the ledger that it prints is the answer to one of its calls. -/

namespace QuotaDesk.CommandLine

open Lookup (keyRequired verdict showing pageOutcome)
open Text.Decimal (ofNat)

variable {m : Type → Type} [Monad m] [LawfulMonad m] {ask : (c : Call) → m (Answer c)}

def ledgerText (page : UInt32) (data : Ledger.Page) : String :=
  Text.joinLines
    (("usage history: page " ++ ofNat page.toNat ++ " of " ++
        ofNat (max (data.total.toNat ⌈/⌉ 10) 1) ++ " (" ++ ofNat data.total.toNat ++ " records)") ::
      if data.records = [] then ["no usage records"]
      else data.records.map fun r => Report.ledgerLine r.row)

def printed (key : String) (summary : Quota.Summary) (page : UInt32) (data : Ledger.Page)
    (log : List (LogLevel × String)) : Result where
  output := line (Report.summary { key, summary := some summary }) ++ "\n" ++
    line (ledgerText page data)
  log

def pastEnd (page : UInt32) (first : Ledger.Page) : LogLevel × String :=
  (.warn, "page " ++ ofNat page.toNat ++ " is out of range, showing page 1 of " ++
    ofNat (max (first.total.toNat ⌈/⌉ 10) 1))

theorem ledger_showing (key : String) (summary : Quota.Summary) (page : UInt32)
    (data : Ledger.Page) (fetch : Nat) :
    Report.ledger (showing key summary page data fetch).view = ledgerText page data := by
  unfold Report.ledger Report.ledgerHeader ledgerText
  simp only [showing, Lookup.View.rows, Ledger.Paging.pageCount_pageSize, List.isEmpty_iff,
    List.map_eq_nil_iff, List.map_map, Function.comp_def]

theorem showView_showing (log : List (LogLevel × String)) (key : String) (summary : Quota.Summary)
    (page : UInt32) (data : Ledger.Page) (fetch : Nat) :
    showView log (showing key summary page data fetch).view =
      printed key summary page data log := by
  have hsummary : Report.summary (showing key summary page data fetch).view =
      Report.summary { key, summary := some summary } := by
    simp only [Report.summary, Lookup.View.display, showing]
  rw [showView, hsummary, ledger_showing, printed]

theorem afterLoad_pageOutcome (page : UInt32) (s : Lookup.State)
    (c : Except Fault (Envelope Ledger.Page)) :
    afterLoad page s (.history (pageOutcome page c)) = showView [] s.view := by
  rw [pageOutcome]
  split <;> rfl

theorem afterLoad_outOfRange (key : String) (summary : Quota.Summary) (page : UInt32)
    (first : Ledger.Page) (fetch : Nat) :
    afterLoad page (showing key summary 1 first fetch) (.history .outOfRange) =
      printed key summary 1 first [pastEnd page first] := by
  have htold : outOfRange page (showing key summary 1 first fetch).view.paging =
      pastEnd page first := by
    unfold outOfRange pastEnd
    simp only [showing, Ledger.Paging.pageCount_pageSize]
  rw [← htold, ← showView_showing]
  rfl

theorem query_eq (key : String) (page : UInt32) :
    query ask key page =
      if Text.trim key = "" then pure (.failed (.validation keyRequired))
      else
        ask (.quota (Text.trim key)) >>= fun a =>
          match verdict a with
          | .error f => pure (.failed f)
          | .ok summary =>
            ask (.history (Text.trim key) 1 10) >>= fun b =>
              let first := (answeredPage? b).getD {}
              if page = 1 then pure (printed (Text.trim key) summary 1 first [])
              else if first.Continues page then
                ask (.history (Text.trim key) page 10) >>= fun c =>
                  pure (match answeredPage? c with
                    | some data => printed (Text.trim key) summary page data []
                    | none => printed (Text.trim key) summary 1 first [])
              else pure (printed (Text.trim key) summary 1 first [pastEnd page first]) := by
  rw [query, Lookup.perform_lookup]
  split
  · rw [pure_bind]
  · next hkey =>
    rw [bind_assoc]
    refine bind_congr fun a => ?_
    cases verdict a with
    | error f => exact pure_bind _ _
    | ok summary =>
      refine (bind_assoc _ _ _).trans (bind_congr fun b => (pure_bind _ _).trans ?_)
      by_cases hpage : page = 1
      · simp only [if_pos hpage, showView_showing]
      · simp only [if_neg hpage, Lookup.perform_load hkey summary _ hpage]
        split
        · refine (bind_assoc _ _ _).trans (bind_congr fun c => (pure_bind _ _).trans ?_)
          cases answeredPage? c <;> simp only [afterLoad_pageOutcome, showView_showing]
        · exact (pure_bind _ _).trans (congrArg pure (afterLoad_outOfRange _ _ _ _ _))

variable {σ : Type}

section Runs

variable {key : String} {page : UInt32} {a : Answer (.quota key)} {b : Answer (.history key 1 10)}
  {c : Answer (.history key page 10)} {summary : Quota.Summary}

end Runs

end QuotaDesk.CommandLine
