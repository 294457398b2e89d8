import QuotaDesk.Calendar
import QuotaDesk.Client.Http
import QuotaDesk.CommandLine.Run
import QuotaDesk.Demo
import QuotaDesk.Settings.File
import Std.Async.DNS
import Std.Async.TCP
import Std.Async.Timer
import Std.Time.DateTime.Timestamp

/-! The command line program. -/

namespace QuotaDesk.Program

open Std.Async

def settingVariables : List String :=
  ["API_BASE_URL", "ACCESS_TOKEN", "REQUEST_TIMEOUT_SECS",
    "api_base_url", "access_token", "request_timeout_secs"]

def environment : IO (List (String × String)) :=
  settingVariables.filterMapM fun name => do
    return (← IO.getEnv name).map fun v => (name, v)

def fileFormat? (path : String) : Option Settings.FileFormat :=
  if path.endsWith ".toml" then some .toml
  else if path.endsWith ".json" then some .json
  else none

/-- The first file of a name, as it stands or with an ending added, which has to tell its format. -/
def readFirst : List String → IO (Option (Option Settings.File))
  | [] => return some none
  | path :: rest => do
    match ← (IO.FS.readBinFile path).toBaseIO with
    | .ok content =>
      return (fileFormat? path).map fun format => some ⟨format, content.toList⟩
    | .error _ => readFirst rest

def settings (configFile : String) : IO (Option Settings.Layer) := do
  let file ← readFirst [configFile, configFile ++ ".toml", configFile ++ ".json"]
  let env ← environment
  return file.bind fun f => Settings.Layer.given? f env

def now : IO String := do
  let t ← Std.Time.Timestamp.now
  let seconds := t.toSecondsSinceUnixEpoch.val
  return ((Calendar.instantOfSeconds? seconds).map Calendar.Instant.text).getD ""

partial def receive (socket : TCP.Socket.Client) (seen : ByteArray) : Async ByteArray := do
  match ← socket.recv? 65536 with
  | some bytes => receive socket (seen ++ bytes)
  | none => return seen

def exchange (a : Client.Address) (bytes : List UInt8) : Async (Option ByteArray) := do
  let addresses ← DNS.getAddrInfo a.host (Text.Decimal.ofNat a.port)
  match addresses[0]? with
  | none => return none
  | some ip =>
    let port := UInt16.ofNat a.port
    let socket ← TCP.Socket.Client.mk
    match ip with
    | .v4 addr => socket.connect (.v4 ⟨addr, port⟩)
    | .v6 addr => socket.connect (.v6 ⟨addr, port⟩)
    socket.send ⟨bytes.toArray⟩
    return some (← receive socket ByteArray.empty)

def expiry (seconds : Nat) : Async (Option ByteArray) := do
  sleep (Std.Time.Millisecond.Offset.ofNat (seconds * 1000))
  return none

def send (seconds : Nat) (r : Client.HttpRequest) : IO (Option Client.HttpReply) := do
  match Client.Address.ofUrl? r.url with
  | none => return none
  | some a =>
    match ← (Async.race (exchange a (r.bytes a)) (expiry seconds)).block.toBaseIO with
    | .ok (some bytes) => return Client.HttpReply.ofBytes? bytes.toList
    | _ => return none

def usageText : CommandLine.Usage → String
  | .help | .helpForMissing =>
    Text.joinLines [
      "usage: quota-cli [--config-file FILE] [--demo] COMMAND",
      "",
      "  query KEY [--page N]",
      "  sync status",
      "  sync run",
      "  sync show",
      "  sync save --token TOKEN --repo REPO [--interval SECONDS]"]
  | .missingCommand => "a command is required"
  | .missingArgument => "an argument is missing"
  | .unknownArgument => "unexpected argument"
  | .unknownCommand => "unrecognized command"
  | .repeatedArgument => "an argument is given twice"
  | .unexpectedValue => "unexpected value"
  | .missingValue => "a value is missing"
  | .badValue => "invalid value"

def logLine : CommandLine.LogLevel × String → String
  | (.info, s) => "[INFO] " ++ s
  | (.warn, s) => "[WARN] " ++ s

def demo (store : IO.Ref Demo.Store) (time : String) (c : Call) : IO (Answer c) := do
  let (a, s) := Demo.answer time c (← store.get)
  store.set s
  return a

def report (r : CommandLine.Result) : IO UInt32 := do
  for entry in r.log do
    IO.eprintln (logLine entry)
  IO.print r.output
  match r.failure with
  | none => return 0
  | some message =>
    IO.eprintln ("Error: " ++ message)
    return 1

def run (words : List String) : IO UInt32 := do
  match CommandLine.Arguments.parse words with
  | .error .help =>
    IO.println (usageText .help)
    return 0
  | .error u =>
    IO.eprintln (usageText u)
    return 2
  | .ok a =>
    let store ← IO.mkRef ({} : Demo.Store)
    report (← CommandLine.runArguments (demo store (← now)) send (← settings a.configFile) a)

end QuotaDesk.Program

def main (words : List String) : IO UInt32 :=
  QuotaDesk.Program.run words
