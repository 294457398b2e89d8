import QuotaDesk.Json.Value
import QuotaDesk.Envelope
import QuotaDesk.Quota.Summary
import QuotaDesk.Ledger.Basic
import QuotaDesk.Backup.Options

/-! JSON forms of what is exchanged with the service. -/

namespace QuotaDesk.Wire

open Json (Value)

def int64Value (n : Int64) : Value :=
  .integer n.toInt

def wordValue (n : UInt64) : Value :=
  .integer n.toNat

def summaryValue (s : Quota.Summary) : Value :=
  .record [
    ("status", int64Value s.status.code),
    ("total_quota", Value.option int64Value s.total),
    ("used_quota", Value.option int64Value s.used),
    ("remain_quota", Value.option int64Value s.remaining),
    ("unlimited_quota", .bool s.unlimited),
    ("expired_time", Value.option int64Value s.expiry)]

def recordValue (r : Ledger.Record) : Value :=
  .record [
    ("created_at", int64Value r.time),
    ("model_name", .text r.model),
    ("prompt_tokens", wordValue r.promptTokens),
    ("completion_tokens", wordValue r.completionTokens),
    ("quota", Value.option int64Value r.cost)]

def pageValue (p : Ledger.Page) : Value :=
  .record [("items", .list (p.records.map recordValue)), ("total", wordValue p.total)]

def statusValue (s : Backup.Status) : Value :=
  .record [("enabled", .bool s.enabled), ("last_sync_time", Value.option .text s.lastSyncTime)]

def optionsValue (o : Backup.Options) : Value :=
  .record (o.map fun e => (e.1, .text e.2))

def updateValue (name value : String) : Value :=
  .record [("key", .text name), ("value", .text value)]

def envelopeValue {α : Type} (write : α → Value) (e : Envelope α) : Value :=
  .record [
    ("success", .bool e.success),
    ("message", Value.option .text e.message),
    ("data", Value.option write e.data)]

def bytes (v : Value) : List UInt8 :=
  Text.Utf8.encode v.print

end QuotaDesk.Wire
