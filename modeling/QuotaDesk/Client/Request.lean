import QuotaDesk.Call
import QuotaDesk.Wire.Encode
import QuotaDesk.Text.Percent

/-! The HTTP request that each call sends. -/

namespace QuotaDesk.Client

inductive Method
  | get
  | put
  | post
  deriving DecidableEq, Repr

def Method.name : Method → String
  | .get => "GET"
  | .put => "PUT"
  | .post => "POST"

def quotaPath (key : String) : String :=
  "/api/query/token?key=" ++ Text.Percent.encode key

def historyPath (key : String) (page pageSize : UInt32) : String :=
  "/api/query/token/history?key=" ++ Text.Percent.encode key ++
    "&page=" ++ Text.Decimal.ofNat page.toNat ++
    "&page_size=" ++ Text.Decimal.ofNat pageSize.toNat

def optionPath : String := "/api/option/"
def statusPath : String := "/api/github/sync/status"
def triggerPath : String := "/api/github/sync"

def method : Call → Method
  | .quota _ | .history .. | .options | .status => .get
  | .update .. => .put
  | .trigger => .post

def path : Call → String
  | .quota key => quotaPath key
  | .history key page pageSize => historyPath key page pageSize
  | .options | .update .. => optionPath
  | .status => statusPath
  | .trigger => triggerPath

def body? : Call → Option (List UInt8)
  | .update name value => some (Wire.bytes (Wire.updateValue name value))
  | _ => none

end QuotaDesk.Client
