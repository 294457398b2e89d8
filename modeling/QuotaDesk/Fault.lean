/-! Why an action did not succeed, and the notice shown for it. -/

namespace QuotaDesk

/-- A request refused before it was sent, one that the service refused, or one
that the service could not be asked. -/
inductive Fault
  | validation (message : String)
  | logical (message : String)
  | transport (message : String)
  deriving DecidableEq, Repr

namespace Fault

def message : Fault → String
  | .validation m | .logical m | .transport m => m

def isBlocking : Fault → Bool
  | .validation _ => true
  | _ => false

end Fault

inductive NoticeLevel
  | success
  | warning
  | error
  deriving DecidableEq, Repr

def NoticeLevel.cssClass : NoticeLevel → String
  | .success => "notice-success"
  | .warning => "notice-warning"
  | .error => "notice-error"

structure Notice where
  level : NoticeLevel
  message : String
  deriving DecidableEq, Repr

def Notice.ofFault (f : Fault) : Notice :=
  ⟨if f.isBlocking then .warning else .error, f.message⟩

end QuotaDesk
