import QuotaDesk.Wire.Field
import QuotaDesk.Envelope
import QuotaDesk.Quota.Summary
import QuotaDesk.Ledger.Basic
import QuotaDesk.Backup.Options

/-! Readings of what the service sends. -/

namespace QuotaDesk.Wire

open Json (Tree)

def summaryFields : List String :=
  ["status", "total_quota", "used_quota", "remain_quota", "unlimited_quota", "expired_time"]

def summary? (t : Tree) : Option Quota.Summary :=
  match fields? summaryFields 0 t with
  | some [status, total, used, remaining, unlimited, expiry] => do
    let status ← nullable? int64? status
    let total ← nullable? int64? total
    let used ← nullable? int64? used
    let remaining ← nullable? int64? remaining
    let unlimited ← defaulted? false bool? unlimited
    let expiry ← nullable? int64? expiry
    return ⟨Quota.Status.ofCode? status, total, used, remaining, unlimited, expiry⟩
  | _ => none

def recordFields : List String :=
  ["created_at", "model_name", "prompt_tokens", "completion_tokens", "quota"]

def record? (t : Tree) : Option Ledger.Record :=
  match fields? recordFields 0 t with
  | some [time, model, promptTokens, completionTokens, cost] => do
    let time ← defaulted? 0 int64? time
    let model ← defaulted? "" text? model
    let promptTokens ← defaulted? 0 word? promptTokens
    let completionTokens ← defaulted? 0 word? completionTokens
    let cost ← nullable? int64? cost
    return ⟨time, model, promptTokens, completionTokens, cost⟩
  | _ => none

def pageFields : List String :=
  ["items", "total"]

def page? (t : Tree) : Option Ledger.Page :=
  match fields? pageFields 0 t with
  | some [records, total] => do
    let records ← defaulted? [] (items? record?) records
    let total ← defaulted? 0 word? total
    return ⟨records, total⟩
  | _ => none

def statusFields : List String :=
  ["enabled", "last_sync_time"]

def status? (t : Tree) : Option Backup.Status :=
  match fields? statusFields 0 t with
  | some [enabled, lastSyncTime] => do
    let enabled ← defaulted? false bool? enabled
    let lastSyncTime ← nullable? text? lastSyncTime
    return ⟨enabled, lastSyncTime⟩
  | _ => none

def valueNesting : Nat := 126

def value? (t : Tree) : Option Json.Value :=
  if t.nesting ≤ valueNesting then Json.Value.ofTree? t else none

def textOptions? : Tree → Option Backup.Options
  | .record members =>
    (namedMembers? members).bind fun named =>
      (named.mapM fun m => (text? m.2).map fun v => (m.1, v)).map Backup.Options.ofList
  | _ => none

def optionText : Json.Value → String
  | .text s => s
  | .null => ""
  | v => v.compact

def entryFields : List String :=
  ["key", "value"]

def optionEntry? (t : Tree) : Option (String × String) :=
  match fields? entryFields 1 t with
  | some [some name, value] => do
    let name ← text? name
    let value ←
      match value with
      | none => some ""
      | some v => (Json.Value.ofTree? v).map optionText
    return (name, value)
  | _ => none

/-- Options as a record of values or as a list of entries; every part of either
must be legible, also where it is ignored. -/
def options? (t : Tree) : Option Backup.Options :=
  if valueNesting < t.nesting || !t.isLegible then none
  else
    match t with
    | .record members =>
      (namedMembers? members).bind fun named =>
        (named.mapM fun m => (Json.Value.ofTree? m.2).map fun v => (m.1, optionText v)).map
          Backup.Options.ofList
    | .list items => (items.mapM optionEntry?).map Backup.Options.ofList
    | _ => none

def envelopeFields : List String :=
  ["success", "message", "data"]

/-- An envelope; as a list it needs all of its fields. -/
def envelope? {α : Type} (read : Tree → Option α) (t : Tree) : Option (Envelope α) :=
  match fields? envelopeFields 3 t with
  | some [success, message, data] => do
    let success ← defaulted? false bool? success
    let message ← nullable? text? message
    let data ← nullable? read data
    return ⟨success, message, data⟩
  | _ => none

/-- The answer that a status and a body give. An envelope counts whatever the
status; without one a status outside 200 to 299 is named. The text for a body that
cannot be read stops where the program goes on with the words of its JSON parser. -/
def answer {α : Type} (read : Tree → Option α) (status : Nat) (body : List UInt8) :
    Except Fault (Envelope α) :=
  match (Tree.parse? body).bind (envelope? read) with
  | some e => .ok e
  | none =>
    if 200 ≤ status ∧ status < 300 then .error (.transport "unreadable response")
    else .error (.transport ("HTTP " ++ Text.Decimal.ofNat status))

end QuotaDesk.Wire
