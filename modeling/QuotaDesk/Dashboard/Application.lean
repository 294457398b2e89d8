import QuotaDesk.Backup.Panel
import QuotaDesk.Dashboard.Pages
import QuotaDesk.Dashboard.Route
import QuotaDesk.Dashboard.Form
import QuotaDesk.Dashboard.Message
import QuotaDesk.Dashboard.Registry

/-! The dashboard as a whole: every request becomes a task that ends in a
response. Each session has a lookup of its own, the backup panel is shared, and
a session becomes known when the first response to it is ready. A request whose
page cannot be made is broken off: it ends without a response. -/

namespace QuotaDesk.Dashboard

structure Site where
  base : Base
  label : String
  idle : Nat

structure State where
  registry : Registry := {}
  panel : Backup.Panel.State := {}
  visitors : Nat := 0
  known : List Nat := []
  deriving DecidableEq, Repr

/-- What a response still needs to know about its request: whether only headers
were asked for, and the session it is the first response of. -/
structure Ticket where
  head : Bool
  fresh : Option Nat := none
  deriving DecidableEq, Repr

/-- The work a task waits in. Showing and starting load the settings first,
closing reads the status for the page to answer with. -/
inductive Stage
  | lookup (slot : Nat) (w : Lookup.Waiting)
  | showing (w : Backup.Panel.Waiting .load)
  | saving (c : Backup.Config) (w : Backup.Panel.Waiting .save)
  | starting (w : Backup.Panel.Waiting .load)
  | running (c : Backup.Config) (w : Backup.Panel.Waiting .trigger)
  | closing (c : Backup.Config) (notice : Option Notice) (w : Backup.Panel.Waiting .status)

structure Waiting where
  ticket : Ticket
  stage : Stage

abbrev Step : Type :=
  State × Progress Waiting (Option Response)

def alreadyRunning : String := "a sync is already running"

def maxBody : Nat := 2097152

namespace Application

variable (site : Site)

def answer (t : Ticket) (r : Response) (s : State) : Step :=
  ({ s with known := t.fresh.toList ++ s.known },
    .finished (some { r.forHead t.head with visitor := t.fresh }))

/-- Shows a lookup, and its notice for the last time. Without a page the request is broken off. -/
def showView (t : Ticket) (slot : Nat) (l : Lookup.State) (s : State) : Step :=
  let s := { s with registry := s.registry.setLookup slot (Lookup.taken l) }
  match renderLookup? site.base.path l.view with
  | some markup => answer t (.page markup) s
  | none => (s, .finished none)

def afterLookup (t : Ticket) (slot : Nat) (s : State) :
    Lookup.State × Progress Lookup.Waiting Lookup.Outcome → Step
  | (l, .waiting w) =>
    ({ s with registry := s.registry.setLookup slot l }, .waiting ⟨t, .lookup slot w⟩)
  | (l, .finished _) => showView site t slot l s

def visit (r : Request) (s : State) : Nat × Option Nat × State :=
  match r.visitor.filter fun v => s.known.contains v with
  | some v => (v, none, s)
  | none => (s.visitors, some s.visitors, { s with visitors := s.visitors + 1 })

def withLookup (r : Request) (work : Option Lookup.Request) (s : State) : Step :=
  let (visitor, fresh, s) := visit r s
  let (slot, registry) := s.registry.checkout site.idle r.now visitor
  let s := { s with registry }
  let l := registry.lookup slot
  afterLookup site ⟨r.isHead, fresh⟩ slot s (Lookup.start (work.getD .snapshot) l)

def showLookup (r : Request) (s : State) : Step :=
  match formFields pageFields r.query with
  | .error name => answer ⟨r.isHead, none⟩ (.repeatedQueryField name) s
  | .ok fields => withLookup site r ((requestedPage? fields).map .load) s

def withForm (known : List String) (r : Request) (s : State)
    (submit : List (String × String) → Step) : Step :=
  let reject (response : Response) : Step := answer ⟨r.isHead, none⟩ response s
  if !r.isForm then reject .notForm
  else if maxBody < r.body.length then reject .tooLarge
  else
    match formFields known r.body with
    | .error name => reject (.repeatedFormField name)
    | .ok fields => submit fields

def submitLookup (r : Request) (s : State) : Step :=
  withForm lookupFields r s fun fields =>
    withLookup site r (some (.lookup (fieldText "key" fields))) s

def backupResponse (c : Backup.Config) (status : Option Backup.Status) (notice : Option Notice)
    (s : State) : Response :=
  .page (renderBackup site.base.path c status notice s.panel.syncing)

def afterStatus (t : Ticket) (c : Backup.Config) (notice : Option Notice) (s : State) :
    Backup.Panel.Step .status → Step
  | .waiting w => (s, .waiting ⟨t, .closing c notice w⟩)
  | .finished status => answer t (backupResponse site c status notice s) s

def close (t : Ticket) (c : Backup.Config) (notice : Option Notice) (s : State) : Step :=
  afterStatus site t c notice s Backup.Panel.startStatus

def afterShow (t : Ticket) (s : State) : Backup.Panel.Step .load → Step
  | .waiting w => (s, .waiting ⟨t, .showing w⟩)
  | .finished (.ok c) => close site t c none s
  | .finished (.error f) => close site t {} (some (.ofFault f)) s

def afterSave (t : Ticket) (c : Backup.Config) (s : State) : Backup.Panel.Step .save → Step
  | .waiting w => (s, .waiting ⟨t, .saving c w⟩)
  | .finished (.ok ()) => close site t c (some ⟨.success, Backup.Panel.configSaved⟩) s
  | .finished (.error f) => close site t c (some (.ofFault f)) s

def afterTrigger (t : Ticket) (c : Backup.Config) (s : State) :
    Backup.Panel.Step .trigger → Step
  | .waiting w => (s, .waiting ⟨t, .running c w⟩)
  | .finished (.ok (.completed message status)) =>
    answer t (backupResponse site c status (some ⟨.success, message⟩) s) s
  | .finished (.ok .alreadyRunning) => close site t c (some ⟨.warning, alreadyRunning⟩) s
  | .finished (.error f) => close site t c (some (.ofFault f)) s

def trigger (t : Ticket) (c : Backup.Config) (s : State) : Step :=
  let (panel, p) := Backup.Panel.startTrigger c s.panel
  afterTrigger site t c { s with panel } p

def afterStart (t : Ticket) (s : State) : Backup.Panel.Step .load → Step
  | .waiting w => (s, .waiting ⟨t, .starting w⟩)
  | .finished (.ok c) => trigger site t c s
  | .finished (.error f) => close site t {} (some (.ofFault f)) s

def saveConfig (r : Request) (s : State) : Step :=
  withForm configFields r s fun fields =>
    let c := formConfig fields
    afterSave site ⟨r.isHead, none⟩ c s (Backup.Panel.startSave c)

def perform (r : Request) (s : State) : Action → Step
  | .home => answer ⟨r.isHead, none⟩ (.page (renderHome site.base.path site.label)) s
  | .showLookup => showLookup site r s
  | .submitLookup => submitLookup site r s
  | .showSync => afterShow site ⟨r.isHead, none⟩ s Backup.Panel.startLoad
  | .saveConfig => saveConfig site r s
  | .runSync => afterStart site ⟨r.isHead, none⟩ s Backup.Panel.startLoad

def start (r : Request) (s : State) : Step :=
  match site.base.resolve r.method r.path with
  | .found a => perform site r s a
  | .wrongMethod => answer ⟨r.isHead, none⟩ .wrongMethod s
  | .notFound => answer ⟨r.isHead, none⟩ .notFound s

def call (w : Waiting) : Call :=
  match w.stage with
  | .lookup _ w => Lookup.call w
  | .showing w => w.call
  | .saving _ w => w.call
  | .starting w => w.call
  | .running _ w => w.call
  | .closing _ _ w => w.call

def resume : (w : Waiting) → Answer (call w) → State → Step
  | ⟨t, .lookup slot w⟩, a, s =>
    afterLookup site t slot s (Lookup.resume w a (s.registry.lookup slot))
  | ⟨t, .showing w⟩, a, s =>
    let (panel, p) := Backup.Panel.resume w a s.panel
    afterShow site t { s with panel } p
  | ⟨t, .saving c w⟩, a, s =>
    let (panel, p) := Backup.Panel.resume w a s.panel
    afterSave site t c { s with panel } p
  | ⟨t, .starting w⟩, a, s =>
    let (panel, p) := Backup.Panel.resume w a s.panel
    afterStart site t { s with panel } p
  | ⟨t, .running c w⟩, a, s =>
    let (panel, p) := Backup.Panel.resume w a s.panel
    afterTrigger site t c { s with panel } p
  | ⟨t, .closing c notice w⟩, a, s =>
    let (panel, p) := Backup.Panel.resume w a s.panel
    afterStatus site t c notice { s with panel } p

def release (w : Waiting) (s : State) : State :=
  match w.stage with
  | .lookup slot w =>
    { s with registry :=
      s.registry.setLookup slot (Lookup.release w (s.registry.lookup slot)) }
  | .showing w => { s with panel := Backup.Panel.release w s.panel }
  | .saving _ w => { s with panel := Backup.Panel.release w s.panel }
  | .starting w => { s with panel := Backup.Panel.release w s.panel }
  | .running _ w => { s with panel := Backup.Panel.release w s.panel }
  | .closing _ _ w => { s with panel := Backup.Panel.release w s.panel }

def Stage.rank : Stage → Nat
  | .lookup _ w => Lookup.rank w
  | .showing w => Backup.Panel.rank w + 1
  | .saving _ w => Backup.Panel.rank w + 1
  | .starting w => Backup.Panel.rank w + 3
  | .running _ w => Backup.Panel.rank w + 1
  | .closing _ _ w => Backup.Panel.rank w

def rank (w : Waiting) : Nat :=
  Stage.rank w.stage

variable {site} {t : Ticket} {c : Backup.Config} {s : State} {w' : Waiting}

theorem rank_close {notice : Option Notice} (h : (close site t c notice s).2 = .waiting w') :
    rank w' = 1 := by
  cases h
  rfl

theorem rank_trigger (h : (trigger site t c s).2 = .waiting w') : rank w' ≤ 3 := by
  have hclose : ∀ {notice}, (close site t c notice s).2 = .waiting w' → rank w' ≤ 3 := fun h =>
    Nat.le_trans (Nat.le_of_eq (rank_close h)) (by decide)
  cases hc : c.isComplete with
  | false =>
    simp only [trigger, Backup.Panel.startTrigger, hc] at h
    exact hclose h
  | true =>
    cases hs : s.panel.syncing with
    | true =>
      simp only [trigger, Backup.Panel.startTrigger, hc, hs] at h
      exact hclose h
    | false =>
      simp only [trigger, Backup.Panel.startTrigger, hc, hs] at h
      cases h
      exact Nat.le_refl 3

theorem rank_afterLookup {slot : Nat} {p : Lookup.State × Progress Lookup.Waiting Lookup.Outcome}
    (h : (afterLookup site t slot s p).2 = .waiting w') :
    ∃ w, p.2 = .waiting w ∧ rank w' = Lookup.rank w := by
  obtain ⟨l, w | o⟩ := p
  · cases h
    exact ⟨w, rfl, rfl⟩
  · simp only [afterLookup, showView] at h
    split at h <;> cases h

theorem rank_resumed {j : Backup.Panel.Job} {w : Backup.Panel.Waiting j} {a : Answer w.call}
    {panel : Backup.Panel.State} (after : Backup.Panel.Step j → Step) (k : Nat)
    (hwaits : ∀ u w', (after (.waiting u)).2 = .waiting w' → rank w' = Backup.Panel.rank u + k)
    (hends : ∀ r w', (after (.finished r)).2 = .waiting w' → rank w' ≤ k)
    (h : (after (Backup.Panel.resume w a panel).2).2 = .waiting w') :
    rank w' < Backup.Panel.rank w + k := by
  cases hp : (Backup.Panel.resume w a panel).2 with
  | waiting u =>
    rw [hp] at h
    rw [hwaits u w' h]
    exact Nat.add_lt_add_right (Backup.Panel.rank_lt w a panel u hp) k
  | finished r =>
    rw [hp] at h
    exact Nat.lt_of_le_of_lt (hends r w' h) (Nat.lt_add_of_pos_left (Backup.Panel.rank_pos w))

theorem rank_lt (w : Waiting) (a : Answer (call w)) (s : State) (w' : Waiting)
    (h : (resume site w a s).2 = .waiting w') : rank w' < rank w := by
  obtain ⟨t, stage⟩ := w
  cases stage with
  | lookup slot w =>
    obtain ⟨u, hu, hrank⟩ := rank_afterLookup h
    exact hrank ▸ Lookup.rank_lt w a _ u hu
  | showing w =>
    refine rank_resumed (afterShow site t _) 1 (fun u w' h => ?_) (fun r w' h => ?_) h
    · cases h
      rfl
    · cases r <;> exact Nat.le_of_eq (rank_close h)
  | saving c w =>
    refine rank_resumed (afterSave site t c _) 1 (fun u w' h => ?_) (fun r w' h => ?_) h
    · cases h
      rfl
    · cases r <;> exact Nat.le_of_eq (rank_close h)
  | starting w =>
    refine rank_resumed (afterStart site t _) 3 (fun u w' h => ?_) (fun r w' h => ?_) h
    · cases h
      rfl
    · cases r with
      | ok c => exact rank_trigger h
      | error f => exact Nat.le_trans (Nat.le_of_eq (rank_close h)) (by decide)
  | running c w =>
    refine rank_resumed (afterTrigger site t c _) 1 (fun u w' h => ?_) (fun r w' h => ?_) h
    · cases h
      rfl
    · rcases r with f | ⟨message, status⟩ | _
      · exact Nat.le_of_eq (rank_close h)
      · cases h
      · exact Nat.le_of_eq (rank_close h)
  | closing c notice w =>
    refine rank_resumed (afterStatus site t c notice _) 0 (fun u w' h => ?_) (fun r w' h => ?_) h
    · cases h
      rfl
    · cases h

end Application

def application (site : Site) : Controller where
  State := State
  Request := Request
  Waiting := Waiting
  Outcome := Option Response
  call := Application.call
  start := Application.start site
  resume := Application.resume site
  release := Application.release
  rank := Application.rank
  rank_lt := Application.rank_lt

end QuotaDesk.Dashboard
