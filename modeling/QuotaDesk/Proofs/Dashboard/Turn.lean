import QuotaDesk.Dashboard.Application

/-! What one step of a task of the dashboard can do. A step works on the lookup of a session,
or it leaves the lookups alone and at most the flag of the panel changes. -/

namespace QuotaDesk.Dashboard

def State.syncing (s : State) : Bool :=
  s.panel.syncing

def Waiting.OnLookup (x : Waiting) : Prop :=
  ∃ slot y, x.stage = .lookup slot y

namespace Application

variable {site : Site} {t : Ticket} {s : State}

/-- A step that leaves the lookups alone: it answers, waits, or starts a run. -/
inductive Backed (t : Ticket) (s : State) : Step → Prop
  | answered (r : Response) : Backed t s (answer t r s)
  | waits {stage : Stage} (hlookup : ¬(Waiting.mk t stage).OnLookup)
      (hcall : call ⟨t, stage⟩ ≠ .trigger) : Backed t s (s, .waiting ⟨t, stage⟩)
  | raised (c : Backup.Config) (h : s.syncing = false) :
      Backed t s ({ s with panel.syncing := true }, .waiting ⟨t, .running c .trigger⟩)

theorem showView_cases (site : Site) (t : Ticket) (slot : Nat) (l : Lookup.State) (s : State) :
    let s' := { s with registry := s.registry.setLookup slot (Lookup.taken l) }
    (∃ response, showView site t slot l s = answer t response s') ∨
      showView site t slot l s = (s', .finished none) := by
  unfold showView
  dsimp only
  split
  · exact .inl ⟨_, rfl⟩
  · exact .inr rfl

theorem backed_close (c : Backup.Config) (notice : Option Notice) :
    Backed t s (close site t c notice s) :=
  .waits nofun nofun

theorem backed_afterShow (a : Except Fault Backup.Config) :
    Backed t s (afterShow site t s (.finished a)) := by
  cases a <;> exact backed_close _ _

theorem backed_afterSave (c : Backup.Config) (updates : List (String × String)) :
    Backed t s (afterSave site t c s (Backup.Panel.saveRest updates)) := by
  cases updates with
  | nil => exact backed_close _ _
  | cons u rest => exact .waits nofun nofun

theorem trigger_incomplete {c : Backup.Config} (hc : c.isComplete = false) :
    trigger site t c s =
      close site t c (some (.ofFault (.validation Backup.Panel.configRequired))) s := by
  simp [trigger, Backup.Panel.startTrigger, afterTrigger, hc]

theorem trigger_running {c : Backup.Config} (hc : c.isComplete = true) (hs : s.syncing = true) :
    trigger site t c s = close site t c (some ⟨.warning, alreadyRunning⟩) s := by
  unfold State.syncing at hs
  simp [trigger, Backup.Panel.startTrigger, afterTrigger, hc, hs]

theorem trigger_free {c : Backup.Config} (hc : c.isComplete = true) (hs : s.syncing = false) :
    trigger site t c s = ({ s with panel.syncing := true }, .waiting ⟨t, .running c .trigger⟩) := by
  unfold State.syncing at hs
  simp [trigger, Backup.Panel.startTrigger, afterTrigger, hc, hs]

theorem backed_trigger (c : Backup.Config) : Backed t s (trigger site t c s) := by
  cases hc : c.isComplete with
  | false => exact trigger_incomplete hc ▸ backed_close _ _
  | true =>
    cases hs : s.syncing with
    | true => exact trigger_running hc hs ▸ backed_close _ _
    | false => exact trigger_free hc hs ▸ .raised c hs

theorem backed_afterStart (a : Except Fault Backup.Config) :
    Backed t s (afterStart site t s (.finished a)) := by
  cases a with
  | ok c => exact backed_trigger c
  | error f => exact backed_close _ _

def asksLookup (site : Site) (r : Request) : Bool :=
  site.base.resolve r.method r.path == .found .showLookup ||
    site.base.resolve r.method r.path == .found .submitLookup

def lookupWork? (site : Site) (r : Request) : Option (Option Lookup.Request) :=
  match site.base.resolve r.method r.path with
  | .found .showLookup =>
    (formFields pageFields r.query).toOption.map fun fields => (requestedPage? fields).map .load
  | .found .submitLookup =>
    if r.isForm ∧ r.body.length ≤ maxBody then
      (formFields lookupFields r.body).toOption.map fun fields =>
        some (.lookup (fieldText "key" fields))
    else none
  | _ => none

inductive Received (site : Site) (r : Request) : Prop
  | looked (work : Option Lookup.Request) (hwork : lookupWork? site r = some work)
      (hstart : ∀ s, start site r s = withLookup site r work s)
  | refused (response : Response) (hwork : lookupWork? site r = none)
      (hstart : ∀ s, start site r s = answer ⟨r.isHead, none⟩ response s)
  | backed (hasks : asksLookup site r = false) (hwork : lookupWork? site r = none)
      (hstart : ∀ s, Backed ⟨r.isHead, none⟩ s (start site r s))

theorem withForm_cases (known : List String) (r : Request) :
    (∃ fields, (r.isForm ∧ r.body.length ≤ maxBody) ∧ formFields known r.body = .ok fields ∧
        ∀ s submit, withForm known r s submit = submit fields) ∨
      (r.isForm ∧ r.body.length ≤ maxBody → (formFields known r.body).toOption = none) ∧
        ∃ response, ∀ s submit,
          withForm known r s submit = answer ⟨r.isHead, none⟩ response s := by
  unfold withForm
  by_cases hform : r.isForm
  · by_cases hlength : r.body.length ≤ maxBody
    · have hnot : ¬maxBody < r.body.length := Nat.not_lt_of_le hlength
      cases hfields : formFields known r.body with
      | ok fields => exact .inl ⟨fields, ⟨hform, hlength⟩, rfl, by simp [hform, hnot]⟩
      | error name =>
        exact .inr ⟨fun _ => rfl, .repeatedFormField name, by simp [hform, hnot]⟩
    · exact .inr ⟨fun h => absurd h.2 hlength, .tooLarge,
        by simp [hform, Nat.lt_of_not_le hlength]⟩
  · exact .inr ⟨fun h => absurd h.1 hform, .notForm, by simp [hform]⟩

theorem received (site : Site) (r : Request) : Received site r := by
  cases hresolve : site.base.resolve r.method r.path with
  | wrongMethod =>
    exact .refused .wrongMethod (by simp [lookupWork?, hresolve]) fun s => by simp [start, hresolve]
  | notFound =>
    exact .refused .notFound (by simp [lookupWork?, hresolve]) fun s => by simp [start, hresolve]
  | found action =>
    have hstart : ∀ s, start site r s = perform site r s action := fun s => by
      simp only [start, hresolve]
    cases action with
    | home => exact .refused _ (by simp [lookupWork?, hresolve]) hstart
    | showLookup =>
      simp only [perform, showLookup] at hstart
      cases hfields : formFields pageFields r.query with
      | ok fields =>
        simp only [hfields] at hstart
        exact .looked _ (by simp [lookupWork?, hresolve, hfields, Except.toOption]) hstart
      | error name =>
        simp only [hfields] at hstart
        exact .refused _ (by simp [lookupWork?, hresolve, hfields, Except.toOption]) hstart
    | submitLookup =>
      simp only [perform, submitLookup] at hstart
      rcases withForm_cases lookupFields r with
        ⟨fields, hform, hfields, hsubmit⟩ | ⟨hnone, response, hreject⟩
      · refine .looked (some (.lookup (fieldText "key" fields))) ?_ fun s => ?_
        · simp [lookupWork?, hresolve, hform, hfields, Except.toOption]
        · rw [hstart, hsubmit]
      · refine .refused response ?_ fun s => ?_
        · simp only [lookupWork?, hresolve]
          split
          · next hform => rw [hnone hform, Option.map_none]
          · rfl
        · rw [hstart, hreject]
    | showSync =>
      exact .backed (by simp [asksLookup, hresolve]) (by simp [lookupWork?, hresolve]) fun s =>
        hstart s ▸ .waits nofun nofun
    | saveConfig =>
      refine .backed (by simp [asksLookup, hresolve]) (by simp [lookupWork?, hresolve]) fun s => ?_
      simp only [hstart, perform, saveConfig]
      rcases withForm_cases configFields r with ⟨fields, _, _, hsubmit⟩ | ⟨_, response, hreject⟩
      · rw [hsubmit]
        unfold Backup.Panel.startSave
        split
        · exact backed_close _ _
        · exact backed_afterSave _ _
      · exact hreject s _ ▸ .answered response
    | runSync =>
      exact .backed (by simp [asksLookup, hresolve]) (by simp [lookupWork?, hresolve]) fun s =>
        hstart s ▸ .waits nofun nofun

theorem call_eq_trigger_iff {x : Waiting} :
    call x = .trigger ↔ ∃ c, x.stage = .running c .trigger := by
  obtain ⟨t, stage⟩ := x
  constructor
  · intro h
    cases stage with
    | lookup slot x => cases x <;> cases h
    | running c x =>
      cases x with
      | trigger => exact ⟨c, rfl⟩
      | closing message => cases h
    | showing x | saving c x | starting x | closing c notice x =>
      cases x
      cases h
  · rintro ⟨c, h⟩
    obtain rfl : stage = .running c .trigger := h
    rfl

theorem backed_resume (site : Site) (x : Waiting) (a : Answer (call x)) (s : State)
    (hlookup : ¬x.OnLookup) (hcall : call x ≠ .trigger) : Backed x.ticket s (resume site x a s) := by
  obtain ⟨t, stage⟩ := x
  cases stage with
  | lookup slot x => exact absurd ⟨slot, x, rfl⟩ hlookup
  | showing x =>
    cases x with
    | options => exact backed_afterShow _
  | saving c x =>
    cases x with
    | update name value rest =>
      simp only [resume, Backup.Panel.resume, Backup.Panel.resumeSave]
      split
      · exact backed_afterSave c rest
      · exact backed_close _ _
  | starting x =>
    cases x with
    | options => exact backed_afterStart _
  | running c x =>
    cases x with
    | trigger => exact absurd rfl hcall
    | closing message => exact .answered _
  | closing c notice x =>
    cases x with
    | status => exact .answered _

theorem resume_running (site : Site) (t : Ticket) (c : Backup.Config)
    (a : Except Fault (Envelope Json.Value)) (s : State) :
    ∃ stage, resume site ⟨t, .running c .trigger⟩ a s =
        ({ s with panel.syncing := false }, .waiting ⟨t, stage⟩) ∧
      ((∃ message, stage = .running c (.closing message)) ∨
        ∃ notice, stage = .closing c notice .status) := by
  simp only [resume, Backup.Panel.resume, Backup.Panel.resumeTrigger]
  split
  · exact ⟨_, rfl, .inl ⟨_, rfl⟩⟩
  · exact ⟨_, rfl, .inr ⟨_, rfl⟩⟩

theorem backed_resume_running (site : Site) (t : Ticket) (c : Backup.Config)
    (a : Except Fault (Envelope Json.Value)) (s : State) :
    Backed t { s with panel.syncing := false } (resume site ⟨t, .running c .trigger⟩ a s) := by
  obtain ⟨stage, h, ⟨message, rfl⟩ | ⟨notice, rfl⟩⟩ := resume_running site t c a s
  · exact h ▸ .waits nofun nofun
  · exact h ▸ .waits nofun nofun

theorem release_backed (x : Waiting) (s : State) (hlookup : ¬x.OnLookup) :
    ∃ panel, release x s = { s with panel } := by
  obtain ⟨t, stage⟩ := x
  cases stage with
  | lookup slot x => exact absurd ⟨slot, x, rfl⟩ hlookup
  | _ => exact ⟨_, rfl⟩

end Application
end QuotaDesk.Dashboard
