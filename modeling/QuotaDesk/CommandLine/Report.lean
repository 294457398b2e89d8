import QuotaDesk.Text.Column
import QuotaDesk.Lookup.View
import QuotaDesk.Backup.Locator
import QuotaDesk.Backup.Basic

/-! Plain-text reports. Of a secret they show at most four characters. -/

namespace QuotaDesk.CommandLine.Report

open Text (padEnd padStart joinLines)
open Text.Decimal (ofNat)

def faultLine (f : Fault) : String :=
  (if f.isBlocking then "warning: " else "error: ") ++ f.message

def mask (secret : String) : String :=
  if secret.isEmpty then "(not set)"
  else String.ofList (secret.toList.take 4) ++ "****"

def summary (v : Lookup.View) : String :=
  match v.display with
  | none => ""
  | some d =>
    joinLines [
      "key:       " ++ mask v.key,
      "status:    " ++ d.status.label,
      "total:     " ++ d.total,
      "used:      " ++ d.used,
      "remaining: " ++ d.remaining,
      "expires:   " ++ d.expires,
      "usage:     " ++ (d.gauge.map Quota.Gauge.text).getD "-"]

def ledgerHeader (p : Ledger.Paging) : String :=
  "usage history: page " ++ ofNat p.current.toNat ++ " of " ++ ofNat (max p.pageCount 1) ++
    " (" ++ ofNat p.total.toNat ++ " records)"

def ledgerLine (r : Ledger.Row) : String :=
  r.time ++ "  " ++ padEnd 24 r.model ++ " " ++ padStart 8 (ofNat r.promptTokens.toNat) ++
    " " ++ padStart 8 (ofNat r.completionTokens.toNat) ++ " " ++ padStart 10 r.cost

def ledger (v : Lookup.View) : String :=
  let lines := if v.rows.isEmpty then ["no usage records"] else v.rows.map ledgerLine
  joinLines (ledgerHeader v.paging :: lines)

def config (c : Backup.Config) : String :=
  joinLines [
    "token:    " ++ mask c.token,
    "repo:     " ++ (Backup.repoSlug? c.repo).getD c.repo,
    "interval: " ++ c.interval ++ " seconds"]

def status : Option Backup.Status → String
  | none => "sync:      status unavailable"
  | some s =>
    joinLines [
      "sync:      " ++ (if s.enabled then "enabled" else "not enabled"),
      "last sync: " ++ s.lastSync.getD "never synced"]

end QuotaDesk.CommandLine.Report
