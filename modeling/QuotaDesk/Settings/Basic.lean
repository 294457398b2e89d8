import QuotaDesk.Settings.Layer

/-! The settings of the dashboard and of the command line. Each reads its own
settings by their names; a missing one has a default, and one that is given has
to fit its type. -/

namespace QuotaDesk.Settings

structure Service where
  apiBaseUrl : String := "http://127.0.0.1:3000"
  accessToken : Option String := none
  timeoutSecs : Nat := 30
  deriving DecidableEq, Repr

structure Server where
  apiBaseUrl : String := "http://127.0.0.1:3000"
  accessToken : Option String := none
  timeoutSecs : Nat := 30
  host : String := "127.0.0.1"
  port : Nat := 8080
  basePath : String := "/"
  deriving DecidableEq, Repr

def Server.service (s : Server) : Service :=
  ⟨s.apiBaseUrl, s.accessToken, s.timeoutSecs⟩

def text? (name default : String) (l : Layer) : Option String :=
  match l.get? name with
  | none => some default
  | some r => r.text?

def optionalText? (name : String) (l : Layer) : Option (Option String) :=
  match l.get? name with
  | none | some .nil => some none
  | some r => r.text?.map some

def nat? (name : String) (bound default : Nat) (l : Layer) : Option Nat :=
  match l.get? name with
  | none => some default
  | some r => r.nat? bound

def Service.ofLayer? (l : Layer) : Option Service := do
  let apiBaseUrl ← text? "api_base_url" "http://127.0.0.1:3000" l
  let accessToken ← optionalText? "access_token" l
  let timeoutSecs ← nat? "request_timeout_secs" (Nat.pow 2 64) 30 l
  return ⟨apiBaseUrl, accessToken, timeoutSecs⟩

def Server.ofLayer? (l : Layer) : Option Server := do
  let apiBaseUrl ← text? "api_base_url" "http://127.0.0.1:3000" l
  let accessToken ← optionalText? "access_token" l
  let timeoutSecs ← nat? "request_timeout_secs" (Nat.pow 2 64) 30 l
  let host ← text? "host" "127.0.0.1" l
  let port ← nat? "port" (Nat.pow 2 16) 8080 l
  let basePath ← text? "base_path" "/" l
  return ⟨apiBaseUrl, accessToken, timeoutSecs, host, port, basePath⟩

end QuotaDesk.Settings
