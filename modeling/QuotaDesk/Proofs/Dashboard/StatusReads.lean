import QuotaDesk.Proofs.Backup.Saving
import QuotaDesk.Proofs.Dashboard.SingleFlight
import QuotaDesk.Proofs.Dashboard.StatusRows

/-! The calls of a request for a backup page. Whatever it does first, the status is read once, at
its end, and the page shows what that reading gave. -/

namespace QuotaDesk.Dashboard

open Application

def submitted? (q : Request) : Option Backup.Config :=
  if q.isForm ∧ q.body.length ≤ maxBody then
    (formFields configFields q.body).toOption.map formConfig
  else none

/-- The request comes to the work of an action on the backup. A form that cannot be read is
turned away before. -/
inductive Reaches (site : Site) (q : Request) : Action → Prop
  | showSync (h : site.base.resolve q.method q.path = .found .showSync) : Reaches site q .showSync
  | saveConfig (h : site.base.resolve q.method q.path = .found .saveConfig) {c : Backup.Config}
      (hform : submitted? q = some c) : Reaches site q .saveConfig
  | runSync (h : site.base.resolve q.method q.path = .found .runSync) : Reaches site q .runSync

def settingsFrom (a : Except Fault (Envelope Backup.Options)) : Backup.Config :=
  match Backup.Panel.loadResult a with
  | .ok c => c
  | .error _ => {}

/-- The calls before the status is read, their replies, and the settings on the page. -/
inductive Prelude : Action → List Call → List Reply → Backup.Config → Prop
  | loaded (r : Reply) : Prelude .showSync [.options] [r] (settingsFrom (r .options))
  | saved (updates : List (String × String)) {replies : List Reply} (c : Backup.Config)
      (h : updates.length = replies.length) :
      Prelude .saveConfig (updates.map Backup.Panel.updateCall) replies c
  | unstarted (r : Reply) : Prelude .runSync [.options] [r] (settingsFrom (r .options))
  | started {r : Reply} {c : Backup.Config} (h : Backup.Panel.loadResult (r .options) = .ok c)
      (hc : c.isComplete = true) (r' : Reply) : Prelude .runSync [.options, .trigger] [r, r'] c

inductive ReadsStatus (t : Ticket) (c : Backup.Config) : Waiting → Prop
  | closing (notice : Option Notice) : ReadsStatus t c ⟨t, .closing c notice .status⟩
  | completing (message : String) : ReadsStatus t c ⟨t, .running c (.closing message)⟩

def statusPage (site : Site) (t : Ticket) (c : Backup.Config) (r : Reply)
    (notice : Option Notice) (syncing : Bool) : Response :=
  { (Response.page (renderBackup site.base.path c (Backup.Panel.statusResult (r .status)) notice
    syncing)).forHead t.head with visitor := t.fresh }

/-- How far a request that has come to action `a` has got. -/
inductive Stands (site : Site) (t : Ticket) (a : Action) :
    List Call → List Reply → Progress Waiting (Option Response) → Prop
  | showing (ha : a = .showSync) : Stands site t a [.options] [] (.waiting ⟨t, .showing .options⟩)
  | starting (ha : a = .runSync) : Stands site t a [.options] [] (.waiting ⟨t, .starting .options⟩)
  | saving (ha : a = .saveConfig) (updates : List (String × String)) {replies : List Reply}
      (h : updates.length = replies.length) (c : Backup.Config) (u : String × String)
      (rest : List (String × String)) :
      Stands site t a (updates.map Backup.Panel.updateCall ++ [.update u.1 u.2]) replies
        (.waiting ⟨t, .saving c (.update u.1 u.2 rest)⟩)
  | running (ha : a = .runSync) {r : Reply} {c : Backup.Config}
      (h : Backup.Panel.loadResult (r .options) = .ok c) (hc : c.isComplete = true) :
      Stands site t a [.options, .trigger] [r] (.waiting ⟨t, .running c .trigger⟩)
  | reading {calls : List Call} {replies : List Reply} {c : Backup.Config} {x : Waiting}
      (h : Prelude a calls replies c) (hx : ReadsStatus t c x) :
      Stands site t a (calls ++ [.status]) replies (.waiting x)
  | shown {calls : List Call} {replies : List Reply} {c : Backup.Config}
      (h : Prelude a calls replies c) (r : Reply) (notice : Option Notice) (syncing : Bool) :
      Stands site t a (calls ++ [.status]) (replies ++ [r])
        (.finished (some (statusPage site t c r notice syncing)))

theorem body_statusPage (site : Site) (t : Ticket) (ht : t.head = false) (c : Backup.Config)
    (r : Reply) (notice : Option Notice) (syncing : Bool) :
    (statusPage site t c r notice syncing).body =
      renderBackup site.base.path c (Backup.Panel.statusResult (r .status)) notice syncing := by
  rw [statusPage, ht]
  rfl

variable {site : Site} {t : Ticket} {q : Request} {a : Action} {calls : List Call}
  {replies : List Reply} {c : Backup.Config} {x : Waiting}

theorem Stands.reads (h : Prelude a calls replies c) (hx : ReadsStatus t c x) :
    Stands site t a (calls ++ (application site).opens (.waiting x)) replies (.waiting x) := by
  have hopens : (application site).opens (.waiting x) = [.status] := by cases hx <;> rfl
  exact hopens ▸ .reading h hx

theorem Stands.ends (h : Prelude a calls replies c) (r : Reply) (notice : Option Notice)
    (syncing : Bool) :
    Stands site t a (calls ++ [.status] ++ (application site).opens
        (.finished (some (statusPage site t c r notice syncing))))
      (replies ++ [r]) (.finished (some (statusPage site t c r notice syncing))) := by
  show Stands site t a (calls ++ [.status] ++ []) _ _
  rw [List.append_nil]
  exact .shown h r notice syncing

theorem Stands.close (h : Prelude a calls replies c) (notice : Option Notice) (s : State) :
    Stands site t a (calls ++ (application site).opens (close site t c notice s).2) replies
      (close site t c notice s).2 :=
  .reads h (.closing notice)

theorem Stands.afterSave (ha : a = .saveConfig) (updates : List (String × String))
    (h : updates.length = replies.length) (c : Backup.Config) (rest : List (String × String))
    (s : State) :
    Stands site t a (updates.map Backup.Panel.updateCall ++
        (application site).opens (afterSave site t c s (Backup.Panel.saveRest rest)).2)
      replies (afterSave site t c s (Backup.Panel.saveRest rest)).2 := by
  subst ha
  cases rest with
  | nil => exact .close (.saved updates c h) _ s
  | cons u rest => exact .saving rfl updates h c u rest

theorem Stands.trigger (ha : a = .runSync) {r : Reply}
    (h : Backup.Panel.loadResult (r .options) = .ok c) (s : State) :
    Stands site t a ([.options] ++ (application site).opens (trigger site t c s).2) [r]
      (trigger site t c s).2 := by
  subst ha
  have hsettings : settingsFrom (r .options) = c := by rw [settingsFrom, h]
  have hclose (notice : Option Notice) : Stands site t .runSync
      ([.options] ++ (application site).opens (Application.close site t c notice s).2) [r]
      (Application.close site t c notice s).2 :=
    .close (hsettings ▸ .unstarted r) notice s
  cases hc : c.isComplete with
  | false =>
    rw [trigger_incomplete hc]
    exact hclose _
  | true =>
    cases hs : s.syncing with
    | true =>
      rw [trigger_running hc hs]
      exact hclose _
    | false =>
      rw [trigger_free hc hs]
      exact .running rfl h hc

theorem ReadsStatus.resume (site : Site) (hx : ReadsStatus t c x) (r : Reply) (s : State) :
    ∃ notice, (resume site x (r (call x)) s).2 =
      .finished (some (statusPage site t c r notice s.syncing)) := by
  cases hx with
  | closing notice => exact ⟨notice, rfl⟩
  | completing message => exact ⟨some ⟨.success, message⟩, rfl⟩

theorem start_saveConfig (h : site.base.resolve q.method q.path = .found .saveConfig)
    (hform : submitted? q = some c) (s : State) :
    start site q s = afterSave site ⟨q.isHead, none⟩ c s (Backup.Panel.startSave c) := by
  obtain ⟨hlegible, hfields⟩ := Option.ite_none_right_eq_some.mp hform
  obtain ⟨fields, hok, rfl⟩ := Option.map_eq_some_iff.mp hfields
  have hstart : start site q s = saveConfig site q s := by simp only [start, h, perform]
  rw [hstart, saveConfig]
  rcases withForm_cases configFields q with ⟨fields', _, hok', hsubmit⟩ | ⟨hnone, _⟩
  · rw [hok'] at hok
    rw [hsubmit, Option.some.inj hok]
  · rw [hnone hlegible] at hok
    cases hok

theorem start_showSync (h : site.base.resolve q.method q.path = .found .showSync) (s : State) :
    start site q s = (s, .waiting ⟨⟨q.isHead, none⟩, .showing .options⟩) := by
  rw [start, h]
  rfl

theorem resume_showing (site : Site) (t : Ticket) (a : Except Fault (Envelope Backup.Options))
    (s : State) : ∃ notice, resume site ⟨t, .showing .options⟩ a s =
      close site t (settingsFrom a) notice s := by
  simp only [resume, Backup.Panel.resume, settingsFrom]
  cases Backup.Panel.loadResult a with
  | ok c => exact ⟨none, rfl⟩
  | error f => exact ⟨some (.ofFault f), rfl⟩

theorem resume_starting_failed (site : Site) (t : Ticket)
    {a : Except Fault (Envelope Backup.Options)} {f : Fault}
    (h : Backup.Panel.loadResult a = .error f) (s : State) :
    resume site ⟨t, .starting .options⟩ a s = close site t {} (some (.ofFault f)) s := by
  simp only [resume, Backup.Panel.resume, h]
  rfl

theorem Stands.start (h : Reaches site q a) (s : State) :
    Stands site ⟨q.isHead, none⟩ a ((application site).opens (start site q s).2) []
      (start site q s).2 := by
  cases h with
  | showSync h =>
    rw [start_showSync h]
    exact .showing rfl
  | @saveConfig h c hform =>
    rw [start_saveConfig h hform, Backup.Panel.startSave]
    split
    · exact .close (.saved [] _ rfl) _ s
    · have hnone : ([] : List (String × String)).length = ([] : List Reply).length := rfl
      have hgoing : Stands site ⟨q.isHead, none⟩ .saveConfig _ [] _ :=
        .afterSave rfl [] hnone c (Backup.Panel.savedForm c).updates s
      rwa [List.map_nil, List.nil_append] at hgoing
  | runSync h =>
    rw [start_runSync h]
    exact .starting rfl

theorem Stands.answerUpdate (ha : a = .saveConfig) (updates : List (String × String))
    (h : updates.length = replies.length) (c : Backup.Config) (u : String × String)
    (rest : List (String × String)) (r : Reply) (s : State) :
    Stands site t a (updates.map Backup.Panel.updateCall ++ [.update u.1 u.2] ++
        (application site).opens (Application.afterSave site t c s
          (Backup.Panel.resumeSave rest (r (.update u.1 u.2)))).2)
      (replies ++ [r])
      (Application.afterSave site t c s
        (Backup.Panel.resumeSave rest (r (.update u.1 u.2)))).2 := by
  have hlength : (updates ++ [u]).length = (replies ++ [r]).length := by simp [h]
  have hcalls : updates.map Backup.Panel.updateCall ++ [.update u.1 u.2] =
      (updates ++ [u]).map Backup.Panel.updateCall := by
    rw [List.map_append]
    rfl
  rw [hcalls, Backup.Panel.resumeSave_eq]
  cases Backup.Panel.writeFault? (r (.update u.1 u.2)) with
  | none => exact .afterSave ha (updates ++ [u]) hlength c rest s
  | some f =>
    subst ha
    exact .close (.saved (updates ++ [u]) c hlength) (some (.ofFault f)) s

theorem Stands.resume (h : Stands site t a calls replies (.waiting x)) (r : Reply) (s : State) :
    Stands site t a (calls ++ (application site).opens (resume site x (r (call x)) s).2)
      (replies ++ [r]) (resume site x (r (call x)) s).2 := by
  generalize hp : Progress.waiting x = p at h
  cases h with
  | showing ha =>
    obtain rfl := Progress.waiting.inj hp
    obtain ⟨notice, hclose⟩ := resume_showing site t (r .options) s
    subst ha
    exact hclose ▸ .close (.loaded r) notice s
  | starting ha =>
    obtain rfl := Progress.waiting.inj hp
    cases hload : Backup.Panel.loadResult (r .options) with
    | ok c =>
      have htrigger := resume_starting site t hload s
      exact htrigger ▸ .trigger ha hload s
    | error f =>
      have hsettings : settingsFrom (r .options) = {} := by rw [settingsFrom, hload]
      have hclose := resume_starting_failed site t hload s
      subst ha
      exact hclose ▸ .close (hsettings ▸ .unstarted r) _ s
  | saving ha updates h c u rest =>
    obtain rfl := Progress.waiting.inj hp
    exact .answerUpdate ha updates h c u rest r s
  | @running ha r₀ c h hc =>
    obtain rfl := Progress.waiting.inj hp
    obtain ⟨stage, hresume, hstage⟩ := resume_running site t c (r .trigger) s
    have hreads : ReadsStatus t c ⟨t, stage⟩ := by
      rcases hstage with ⟨message, rfl⟩ | ⟨notice, rfl⟩
      · exact .completing message
      · exact .closing notice
    subst ha
    have hreading : Stands site t .runSync _ [r₀, r] _ := .reads (.started h hc r) hreads
    exact hresume ▸ hreading
  | reading h hx =>
    obtain rfl := Progress.waiting.inj hp
    obtain ⟨notice, hshown⟩ := hx.resume site r s
    exact hshown ▸ .ends h r notice s.syncing
  | shown => cases hp

theorem stands_of_course (h : Reaches site q a)
    {p : Progress (application site).Waiting (application site).Outcome}
    (hcourse : Course (application site) q calls replies p) :
    Stands site ⟨q.isHead, none⟩ a calls replies p := by
  induction hcourse with
  | start s => exact .start h s
  | resume _ reply s ih => exact ih.resume reply s

variable {p : Progress Waiting (Option Response)}

theorem Prelude.not_status (h : Prelude a calls replies c) :
    .status ∉ calls ∧ calls.length = replies.length := by
  cases h with
  | saved updates c h => exact ⟨by simp [Backup.Panel.updateCall], by simp [h]⟩
  | loaded | unstarted | started => exact ⟨by decide, rfl⟩

theorem Stands.page (h : Stands site t a calls replies p) {o : Option Response}
    (hp : p = .finished o) :
    calls.count .status = 1 ∧ calls.getLast? = some .status ∧ calls.length = replies.length ∧
      ∃ r c notice syncing, replies.getLast? = some r ∧
        o = some (statusPage site t c r notice syncing) := by
  cases h with
  | shown hprelude r notice syncing =>
    obtain ⟨hnot, hlength⟩ := hprelude.not_status
    obtain rfl := Progress.finished.inj hp
    have hcount := List.count_eq_zero.mpr hnot
    exact ⟨by simp [hcount], by simp, by simp [hlength], r, _, notice, syncing, by simp, rfl⟩
  | _ => cases hp

section Runs

open Html (tags)

variable {es : List (Event (application site))} {i n : Nat}

def statusless : Reply
  | .options => .ok ⟨true, none, some [(Backup.tokenOption, "t"), (Backup.repoOption, "a/b")]⟩
  | .trigger => .ok ⟨true, none, none⟩
  | _ => .error (.transport "")

end Runs

end QuotaDesk.Dashboard
