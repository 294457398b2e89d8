import QuotaDesk.CommandLine.Arguments
import QuotaDesk.CommandLine.Report
import QuotaDesk.Lookup.Controller
import QuotaDesk.Backup.Panel
import QuotaDesk.Client.Basic
import QuotaDesk.Settings.Basic

/-! Commands carried out over a service, and what they print. -/

namespace QuotaDesk.CommandLine

inductive LogLevel
  | info
  | warn
  deriving DecidableEq, Repr

/-- What a command leaves behind: its output, its log, and its failure if it
failed. A command that fails prints nothing. -/
structure Result where
  output : String := ""
  log : List (LogLevel × String) := []
  failure : Option String := none
  deriving DecidableEq, Repr

def Result.failed (f : Fault) : Result :=
  { failure := some (Report.faultLine f) }

def line (s : String) : String :=
  s ++ "\n"

variable {m : Type → Type} [Monad m] (ask : (c : Call) → m (Answer c))

def outOfRange (page : UInt32) (p : Ledger.Paging) : LogLevel × String :=
  (.warn, "page " ++ Text.Decimal.ofNat page.toNat ++ " is out of range, showing page 1 of " ++
    Text.Decimal.ofNat (max p.pageCount 1))

def showView (log : List (LogLevel × String)) (v : Lookup.View) : Result :=
  { output := line (Report.summary v) ++ "\n" ++ line (Report.ledger v), log }

/-- A page past the end is told in the log, and the first page is shown instead. -/
def afterLoad (page : UInt32) (s : Lookup.State) : Lookup.Outcome → Result
  | .history .outOfRange => showView [outOfRange page s.view.paging] s.view
  | _ => showView [] s.view

def query (key : String) (page : UInt32) : m Result :=
  Lookup.controller.perform ask (Lookup.Request.lookup key) ({} : Lookup.State) >>= fun (s, o) =>
    match (o : Lookup.Outcome) with
    | .refused f => pure (.failed f)
    | _ =>
      if page = 1 then pure (showView [] (s : Lookup.State).view)
      else
        Lookup.controller.perform ask (Lookup.Request.load page) s >>= fun (s, o) =>
          pure (afterLoad page s o)

def finishJob {j : Backup.Panel.Job} (s : Backup.Panel.State) :
    Backup.Panel.Step j → m (Backup.Panel.State × j.Result)
  | .finished r => pure (s, r)
  | .waiting w =>
    ask w.call >>= fun a =>
      match h : Backup.Panel.resume w a s with
      | (s, .finished r) => pure (s, r)
      | (s, .waiting w') =>
        have : Backup.Panel.rank w' < Backup.Panel.rank w :=
          Backup.Panel.rank_lt w a _ w' (by rw [h])
        finishJob s (.waiting w')
termination_by p => match p with
  | .finished _ => 0
  | .waiting w => Backup.Panel.rank w + 1

def status : m Result :=
  finishJob ask {} Backup.Panel.startStatus >>= fun (_, s) =>
    pure { output := line (Report.status s) }

def showConfig : m Result :=
  finishJob ask {} Backup.Panel.startLoad >>= fun (_, r) =>
    match r with
    | .ok c => pure { output := line (Report.config c) }
    | .error f => pure (.failed f)

def save (c : Backup.Config) : m Result :=
  finishJob ask {} (Backup.Panel.startSave c) >>= fun (_, r) =>
    match r with
    | .ok () => pure { output := line Backup.Panel.configSaved }
    | .error f => pure (.failed f)

def alreadyRunning : String := "a sync is already running"

def reportRun : Except Fault Backup.Panel.Report → Result
  | .ok (.completed message s) => { output := line message ++ line (Report.status s) }
  | .ok .alreadyRunning => { output := line alreadyRunning }
  | .error f => .failed f

def run : m Result :=
  finishJob ask {} Backup.Panel.startLoad >>= fun (s, r) =>
    match r with
    | .error f => pure (.failed f)
    | .ok c =>
      let (s, p) := Backup.Panel.startTrigger c s
      finishJob ask s p >>= fun (_, r) => pure (reportRun r)

def perform : Command → m Result
  | .query key page => query ask key page
  | .status => status ask
  | .run => run ask
  | .show => showConfig ask
  | .save c => save ask c

def demoNote : LogLevel × String :=
  (.info, "Running in DEMO mode")

def clientNote (client : Client) : LogLevel × String :=
  (.info, "Querying " ++ client.base)

def Result.after (note : LogLevel × String) (r : Result) : Result :=
  { r with log := note :: r.log }

def badSettings : String := "the configuration cannot be read"

def clientOf (s : Settings.Service) : Client :=
  Client.make s.apiBaseUrl s.accessToken

/-- Carries out a command line. `demo` answers for the built-in service and
`send` for the network, which is given a time limit in seconds; `settings` is
what the environment and the file give, `none` when the file cannot be read. -/
def runArguments (demo : (c : Call) → m (Answer c))
    (send : Nat → Client.HttpRequest → m (Option Client.HttpReply))
    (settings : Option Settings.Layer) (a : Arguments) : m Result :=
  if a.demo then perform demo a.command >>= fun r => pure (r.after demoNote)
  else
    match settings.bind Settings.Service.ofLayer? with
    | none => pure { failure := some badSettings }
    | some s =>
      let client := clientOf s
      perform (client.ask (send s.timeoutSecs)) a.command >>= fun r => pure (r.after (clientNote client))

end QuotaDesk.CommandLine
