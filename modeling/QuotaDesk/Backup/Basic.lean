import QuotaDesk.Text.Blank

/-! Settings and status of the backup of a repository. The service keeps the
settings as three named options. -/

namespace QuotaDesk.Backup

def tokenOption : String := "GitHubSyncToken"
def repoOption : String := "GitHubSyncRepo"
def intervalOption : String := "GitHubSyncInterval"
def defaultInterval : String := "300"

structure Config where
  token : String := ""
  repo : String := ""
  interval : String := defaultInterval
  deriving DecidableEq, Repr

def intervalOrDefault (interval : String) : String :=
  if Text.isBlankText interval then defaultInterval else interval

namespace Config

def isComplete (c : Config) : Bool :=
  !c.token.isEmpty && !c.repo.isEmpty

def updates (c : Config) : List (String × String) :=
  [(tokenOption, c.token), (repoOption, c.repo), (intervalOption, c.interval)]

def trimmed (c : Config) : Config :=
  ⟨Text.trim c.token, Text.trim c.repo, Text.trim c.interval⟩

end Config

structure Status where
  enabled : Bool := false
  lastSyncTime : Option String := none
  deriving DecidableEq, Repr

def Status.lastSync (s : Status) : Option String :=
  match s.lastSyncTime with
  | none => none
  | some t =>
    let t := Text.trim t
    if t.isEmpty then none else some t

end QuotaDesk.Backup
