import QuotaDesk.Controller.Basic
import QuotaDesk.Backup.Options

/-! The panel of the backup: loading and saving its settings, reading its
status, and starting it by hand. At most one run is started at a time. -/

namespace QuotaDesk.Backup.Panel

def configRequired : String := "GitHub token and repository are required"
def configLoadFailed : String := "failed to load configuration"
def configSaved : String := "configuration saved, restart the service to apply"
def updateRejected : String := "update rejected"
def saveUnreachable : String :=
  "failed to save configuration, please check your network connection"
def syncSucceeded : String := "sync succeeded"
def syncUnreachable : String := "sync failed, please check your network connection"

structure State where
  syncing : Bool := false
  deriving DecidableEq, Repr

inductive Report
  | completed (message : String) (status : Option Status)
  | alreadyRunning
  deriving DecidableEq, Repr

inductive Job
  | load
  | save
  | status
  | trigger
  deriving DecidableEq, Repr

abbrev Job.Result : Job → Type
  | load => Except Fault Config
  | save => Except Fault Unit
  | status => Option Status
  | trigger => Except Fault Report

/-- The open call of a job. Saving keeps the updates not yet written, and a
started run the message to report once the status is read. -/
inductive Waiting : Job → Type
  | options : Waiting .load
  | update (name value : String) (rest : List (String × String)) : Waiting .save
  | status : Waiting .status
  | trigger : Waiting .trigger
  | closing (message : String) : Waiting .trigger

abbrev Step (j : Job) : Type :=
  Progress (Waiting j) j.Result

def Waiting.call {j : Job} : Waiting j → Call
  | .options => .options
  | .update name value _ => .update name value
  | .status => .status
  | .trigger => .trigger
  | .closing _ => .status

def startLoad : Step .load :=
  .waiting .options

def savedForm (c : Config) : Config :=
  { c with interval := intervalOrDefault (Text.trim c.interval) }

def saveRest : List (String × String) → Step .save
  | [] => .finished (.ok ())
  | (name, value) :: rest => .waiting (.update name value rest)

def startSave (c : Config) : Step .save :=
  if Text.isBlankText c.token || Text.isBlankText c.repo then
    .finished (.error (.validation configRequired))
  else saveRest (savedForm c).updates

def startStatus : Step .status :=
  .waiting .status

def startTrigger (c : Config) (s : State) : State × Step .trigger :=
  if !c.isComplete then (s, .finished (.error (.validation configRequired)))
  else if s.syncing then (s, .finished (.ok .alreadyRunning))
  else ({ s with syncing := true }, .waiting .trigger)

def loadResult (a : Except Fault (Envelope Options)) : Except Fault Config :=
  (settle a configLoadFailed configLoadFailed).map fun o => Config.ofOptions (o.getD [])

def saveFault : Fault → Fault
  | .logical m => .logical ("failed to save configuration: " ++ m)
  | f => f

def statusResult : Except Fault (Envelope Status) → Option Status
  | .ok e => if e.success then e.data else none
  | .error _ => none

def triggerResult : Except Fault (Envelope Json.Value) → Except Fault String
  | .error _ => .error (.transport syncUnreachable)
  | .ok e =>
    if e.success then .ok (e.messageOr syncSucceeded)
    else .error (.logical ("sync failed: " ++ e.messageOr "unknown error"))

def resumeSave (rest : List (String × String)) (a : Except Fault (Envelope Json.Value)) :
    Step .save :=
  match settle a updateRejected saveUnreachable with
  | .ok _ => saveRest rest
  | .error f => .finished (.error (saveFault f))

def resumeTrigger (a : Except Fault (Envelope Json.Value)) : Step .trigger :=
  match triggerResult a with
  | .ok message => .waiting (.closing message)
  | .error f => .finished (.error f)

/-- The reply to the start of a run takes the flag down, whatever it says. -/
def resume : {j : Job} → (w : Waiting j) → Answer w.call → State → State × Step j
  | _, .options, a, s => (s, .finished (loadResult a))
  | _, .update _ _ rest, a, s => (s, resumeSave rest a)
  | _, .status, a, s => (s, .finished (statusResult a))
  | _, .trigger, a, s => ({ s with syncing := false }, resumeTrigger a)
  | _, .closing message, a, s => (s, .finished (.ok (.completed message (statusResult a))))

def release {j : Job} : Waiting j → State → State
  | .trigger, s => { s with syncing := false }
  | _, s => s

def rank {j : Job} : Waiting j → Nat
  | .update _ _ rest => rest.length + 1
  | .trigger => 2
  | _ => 1

theorem rank_pos {j : Job} (w : Waiting j) : 0 < rank w := by
  cases w <;> simp [rank]

theorem rank_lt {j : Job} (w : Waiting j) (a : Answer w.call) (s : State) (w' : Waiting j)
    (h : (resume w a s).2 = .waiting w') : rank w' < rank w := by
  cases w with
  | options => simp [resume] at h
  | status => simp [resume] at h
  | closing message => simp [resume] at h
  | update name value rest =>
    simp only [resume, resumeSave] at h
    split at h
    · cases rest with
      | nil => simp [saveRest] at h
      | cons u rest =>
        simp only [saveRest, Progress.waiting.injEq] at h
        subst h
        simp [rank]
    · simp at h
  | trigger =>
    simp only [resume, resumeTrigger] at h
    split at h
    · simp only [Progress.waiting.injEq] at h
      subst h
      simp [rank]
    · simp at h

inductive Request
  | load
  | save (c : Config)
  | status
  | trigger (c : Config)
  deriving DecidableEq, Repr

def lift (j : Job) : Step j → Progress (Sigma Waiting) (Sigma Job.Result)
  | .waiting w => .waiting ⟨j, w⟩
  | .finished r => .finished ⟨j, r⟩

def start : Request → State → State × Progress (Sigma Waiting) (Sigma Job.Result)
  | .load, s => (s, lift .load startLoad)
  | .save c, s => (s, lift .save (startSave c))
  | .status, s => (s, lift .status startStatus)
  | .trigger c, s =>
    let (s, p) := startTrigger c s
    (s, lift .trigger p)

def controller : Controller where
  State := State
  Request := Request
  Waiting := Sigma Waiting
  Outcome := Sigma Job.Result
  call w := w.2.call
  start := start
  resume w a s :=
    let (s, p) := resume w.2 a s
    (s, lift w.1 p)
  release w s := release w.2 s
  rank w := rank w.2
  rank_lt w a s w' h := by
    obtain ⟨j, w⟩ := w
    match hp : (resume w a s).2 with
    | .waiting u =>
      simp only [hp, lift, Progress.waiting.injEq] at h
      subst h
      exact rank_lt w a s u hp
    | .finished r => simp [hp, lift] at h

end QuotaDesk.Backup.Panel
