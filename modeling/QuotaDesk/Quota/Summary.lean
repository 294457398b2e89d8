/-! What the service says about a key. Amounts are integer micro-units and the
expiry is a time in milliseconds. -/

namespace QuotaDesk.Quota

inductive Status
  | normal
  | disabled
  | expired
  | exhausted
  | unknown
  deriving DecidableEq, Repr

namespace Status

def ofCode : Int64 → Status
  | 1 => .normal
  | 2 => .disabled
  | 3 => .expired
  | 4 => .exhausted
  | _ => .unknown

def ofCode? (code : Option Int64) : Status :=
  (code.map ofCode).getD .unknown

def code : Status → Int64
  | .normal => 1
  | .disabled => 2
  | .expired => 3
  | .exhausted => 4
  | .unknown => 0

def label : Status → String
  | .normal => "Normal"
  | .disabled => "Disabled"
  | .expired => "Expired"
  | .exhausted => "Exhausted"
  | .unknown => "Unknown"

def cssClass : Status → String
  | .normal => "status-normal"
  | .disabled => "status-disabled"
  | .expired => "status-expired"
  | .exhausted => "status-exhausted"
  | .unknown => "status-unknown"

end Status

structure Summary where
  status : Status := .unknown
  total : Option Int64 := none
  used : Option Int64 := none
  remaining : Option Int64 := none
  unlimited : Bool := false
  expiry : Option Int64 := none
  deriving DecidableEq, Repr

end QuotaDesk.Quota
