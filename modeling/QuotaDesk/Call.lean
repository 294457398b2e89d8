import QuotaDesk.Envelope
import QuotaDesk.Json.Value
import QuotaDesk.Quota.Summary
import QuotaDesk.Ledger.Basic
import QuotaDesk.Backup.Options

/-! The calls that the service answers, and anything that answers them. -/

namespace QuotaDesk

inductive Call
  | quota (key : String)
  | history (key : String) (page pageSize : UInt32)
  | options
  | update (name value : String)
  | status
  | trigger
  deriving DecidableEq, Repr

namespace Call

abbrev Payload : Call → Type
  | quota _ => Quota.Summary
  | history .. => Ledger.Page
  | options => Backup.Options
  | update .. => Json.Value
  | status => Backup.Status
  | trigger => Json.Value

end Call

abbrev Answer (c : Call) : Type :=
  Except Fault (Envelope c.Payload)

/-- Something that answers calls and may leave one open. -/
structure Service (σ : Type) where
  answer : (c : Call) → σ → Option (Answer c) × σ

end QuotaDesk
