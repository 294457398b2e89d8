import QuotaDesk.Client.Request
import QuotaDesk.Wire.Decode

/-! The client of the service over HTTP. Sending is left to the caller; the
client says what to send and reads what comes back. -/

namespace QuotaDesk

structure Client where
  base : String
  token : Option String
  deriving DecidableEq, Repr

namespace Client

def make (base : String) (token : Option String) : Client :=
  ⟨String.ofList (Text.dropEndWhile (· == '/') base.toList),
    token.filter fun t => !t.isEmpty⟩

structure HttpRequest where
  method : Method
  url : String
  authorization : Option String
  contentType : Option String
  body : List UInt8
  deriving DecidableEq, Repr

structure HttpReply where
  status : Nat
  body : List UInt8
  deriving DecidableEq, Repr

def isHeaderText (s : String) : Bool :=
  s.toList.all fun c => c == '\t' || (0x20 ≤ c.toNat && c.toNat != 0x7F)

/-- The request of a call, `none` when the token cannot stand in a header. -/
def request? (client : Client) (c : Call) : Option HttpRequest :=
  let authorization := client.token.map fun t => "Bearer " ++ t
  if authorization.all isHeaderText then
    some {
      method := method c
      url := client.base ++ path c
      authorization
      contentType := (body? c).map fun _ => "application/json"
      body := (body? c).getD [] }
  else none

def decode (r : HttpReply) : (c : Call) → Answer c
  | .quota _ => Wire.answer Wire.summary? r.status r.body
  | .history .. => Wire.answer Wire.page? r.status r.body
  | .options => Wire.answer Wire.options? r.status r.body
  | .update .. => Wire.answer Wire.value? r.status r.body
  | .status => Wire.answer Wire.status? r.status r.body
  | .trigger => Wire.answer Wire.value? r.status r.body

def requestFailed : Fault :=
  .transport "request failed"

def ask {m : Type → Type} [Monad m] (send : HttpRequest → m (Option HttpReply))
    (client : Client) (c : Call) : m (Answer c) :=
  match client.request? c with
  | none => pure (.error requestFailed)
  | some request =>
    send request >>= fun reply =>
      match reply with
      | some r => pure (decode r c)
      | none => pure (.error requestFailed)

end Client
end QuotaDesk
