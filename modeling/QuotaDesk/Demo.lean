import QuotaDesk.Call

/-! The built-in service: four keys, one ledger that all but the unlimited key
share, and options kept in memory. It answers every call at once. -/

namespace QuotaDesk.Demo

structure Store where
  options : Backup.Options := []
  lastSyncTime : Option String := none
  deriving DecidableEq, Repr

def key : String := "sk-demo"
def unlimitedKey : String := "sk-demo-unlimited"
def exhaustedKey : String := "sk-demo-exhausted"
def disabledKey : String := "sk-demo-disabled"

def summary? (k : String) : Option Quota.Summary :=
  if k = key then some ⟨.normal, some 50000000, some 12500000, some 37500000, false, some 1798761600000⟩
  else if k = unlimitedKey then some ⟨.normal, some 0, some 999999999, some 0, true, some (-1)⟩
  else if k = exhaustedKey then some ⟨.exhausted, some 5000000, some 7500000, some 0, false, none⟩
  else if k = disabledKey then
    some ⟨.disabled, some 10000000, some 1000000, some 9000000, false, some 1704067200000⟩
  else none

def ledgerLength (k : String) : Nat :=
  if k = unlimitedKey then 0 else 25

def ledgerStart : Nat := 1735689600

def model (index : Nat) : String :=
  match index % 3 with
  | 0 => "gpt-4o"
  | 1 => "claude-3-5-sonnet"
  | _ => "gemini-1.5-pro"

def record (index : Nat) : Ledger.Record where
  time := Int64.ofInt (ledgerStart - index * 3600)
  model := model index
  promptTokens := UInt64.ofNat (100 + index * 7)
  completionTokens := UInt64.ofNat (50 + index * 3)
  cost := some (Int64.ofNat ((150 + index * 10) * 40))

def ledger (k : String) : List Ledger.Record :=
  (List.range (ledgerLength k)).map record

/-- Page zero is read as the first page. -/
def page (k : String) (number size : UInt32) : Ledger.Page where
  records := ((ledger k).drop ((number.toNat - 1) * size.toNat)).take size.toNat
  total := UInt64.ofNat (ledgerLength k)

def wordOffset (number size : UInt32) : UInt64 :=
  (if number = 0 then 0 else number - 1).toUInt64 * size.toUInt64

def notFound : String := "token not found"
def notConfigured : String :=
  "GitHub sync is not configured, set the GitHub token and repository first"

def isSet (name : String) (s : Store) : Bool :=
  match s.options.get? name with
  | some v => !v.isEmpty
  | none => false

def isConfigured (s : Store) : Bool :=
  isSet Backup.tokenOption s && isSet Backup.repoOption s

def answer (now : String) : (c : Call) → Store → Answer c × Store
  | .quota k, s =>
    match summary? k with
    | some summary => (.ok (.ok summary), s)
    | none => (.ok (.failed notFound), s)
  | .history k number size, s =>
    match summary? k with
    | some _ => (.ok (.ok (page k number size)), s)
    | none => (.ok (.failed notFound), s)
  | .options, s => (.ok (.ok s.options), s)
  | .update name value, s =>
    (.ok (.ok .null), { s with options := s.options.insert name value })
  | .status, s => (.ok (.ok ⟨isConfigured s, s.lastSyncTime⟩), s)
  | .trigger, s =>
    if isConfigured s then
      (.ok ⟨true, some "sync completed", none⟩, { s with lastSyncTime := some now })
    else (.ok (.failed notConfigured), s)

def service (now : String) : Service Store where
  answer c s :=
    let (a, s) := answer now c s
    (some a, s)

end QuotaDesk.Demo
