import QuotaDesk.Proofs.Dashboard.Links
import QuotaDesk.Proofs.Dashboard.StatusReads
import QuotaDesk.Proofs.Html.Buttons

/-! The button that starts a run. It can be pressed on a page exactly when a request for a run that
meets the same settings and the same state starts one. -/

namespace QuotaDesk.Dashboard

open Application
open Html (buttons tags targets)

theorem buttons_configForm (action : String) (c : Backup.Config) :
    (configForm action c).buttons = [true] := by
  simp [configForm, fieldRow, Html.Node.plain, Html.Node.labelled, Html.Node.buttons,
    Html.Node.buttonsAll, Html.button?, Html.Attribute.disables]

theorem buttons_runForm (action : String) (c : Backup.Config) (syncing : Bool) :
    (runForm action c syncing).buttons = [canRun c syncing] := by
  simp [runForm, Html.Node.buttons, Html.Node.buttonsAll, Html.button?, Html.Attribute.disables]

theorem buttons_completionHint (c : Backup.Config) : (completionHint c).buttons = [] := by
  unfold completionHint
  split
  · rfl
  · exact Html.Node.buttons_labelled (by decide) _

theorem buttons_backup (base : String) (c : Backup.Config) (status : Option Backup.Status)
    (notice : Option Notice) (syncing : Bool) :
    buttons (renderBackup base c status notice syncing) = [true, canRun c syncing] := by
  have htext (label value : String) : buttons (Html.InfoRow.ofText label value).value = [] :=
    Html.buttons_of_tagless (Html.tagless_escape value)
  have hinfo : ∀ row ∈ (backupPage base c status notice syncing).info, buttons row.value = [] := by
    rcases status with _ | s
    · simp [backupPage, statusRows, htext]
    · cases hs : s.enabled <;> simp [backupPage, statusRows, htext, hs]
  have hcontent : (backupPage base c status notice syncing).content.buttons =
      [true, canRun c syncing] := by
    have hheading (s : String) : (Html.Node.labelled "h2" s).buttons = [] :=
      Html.Node.buttons_labelled (by decide) s
    simp [backupPage, Html.Node.buttons, Html.Node.buttonsAll, hheading, buttons_configForm,
      buttons_runForm, buttons_completionHint]
  rw [renderBackup, Html.Page.buttons_render (proper_backupPage base c status notice syncing),
    List.flatMap_eq_nil_iff.mpr hinfo, hcontent]
  rfl

variable {site : Site} {es fs : List (Event (application site))} {i j k l m : Nat}
  {v w u : World (application site)} {q : Request} {r : Reply} {e : Event (application site)}
  {o : Option Response}

def showingTask (v : World (application site)) (q : Request) : Task (application site) :=
  ⟨v.started, v.issued, ⟨⟨q.isHead, none⟩, .showing .options⟩⟩

theorem Stands.replies_of_showing {t t' : Ticket} {a : Action} {calls : List Call}
    {replies : List Reply} (h : Stands site t a calls replies (.waiting ⟨t', .showing .options⟩)) :
    replies = [] := by
  cases h with
  | showing => rfl
  | reading _ hx => cases hx

theorem Stands.showSync_ends {t : Ticket} {calls : List Call} {replies : List Reply} {x : Waiting}
    (h : Stands site t .showSync calls replies (.waiting x)) {reply : Reply} {s : State}
    (ho : (Application.resume site x (reply (call x)) s).2 = .finished o) :
    ∃ r notice, replies = [r] ∧
      o = statusPage site t (settingsFrom (r .options)) reply notice s.syncing := by
  generalize hp : Progress.waiting x = p at h
  cases h with
  | showing =>
    obtain rfl := Progress.waiting.inj hp
    obtain ⟨notice, hclose⟩ := resume_showing site t (reply .options) s
    have hwaits := (congrArg Prod.snd hclose).symm.trans ho
    cases hwaits
  | reading hprelude hx =>
    obtain rfl := Progress.waiting.inj hp
    obtain ⟨notice, hshown⟩ := hx.resume site reply s
    cases hprelude with
    | loaded r => exact ⟨r, notice, rfl, Progress.finished.inj (ho.symm.trans hshown)⟩
  | starting ha | saving ha | running ha => cases ha
  | shown => cases hp

theorem heard_options (h : (unvisited site).Happens es i v (.request q))
    (hq : site.base.resolve q.method q.path = .found .showSync)
    (hoptions : (unvisited site).Replies es k u (showingTask v q) r) :
    ((unvisited site).heard es v.started).head? = some (k, r) := by
  have haccount := h.account_of_replies numbered_unvisited hoptions rfl
  have hstands := stands_of_course (.showSync hq) haccount.course
  have hnone := List.map_eq_nil_iff.mp hstands.replies_of_showing
  have hfirst : (unvisited site).heard (es.take (k + 1)) v.started = [(k, r)] := by
    have htake := hoptions.heard_take_succ
    rwa [show (showingTask v q).number = v.started from rfl, hnone, List.nil_append] at htake
  obtain ⟨rest, hrest⟩ := World.heard_take_prefix (unvisited site) es (k + 1) v.started
  rw [← hrest, hfirst]
  rfl

theorem response_showSync (h : (unvisited site).Happens es i v (.request q))
    (hq : site.base.resolve q.method q.path = .found .showSync)
    (hoptions : (unvisited site).Replies es k u (showingTask v q) r)
    (he : (unvisited site).Happens es l w e) (ho : (v.started, o) ∈ (w.step e).2.finished) :
    ∃ reply notice, o = some (statusPage site ⟨q.isHead, none⟩ (settingsFrom (r .options)) reply
      notice w.state.syncing) := by
  have hwaits : ((application site).start q v.state).2 ≠ .finished o := by
    intro hfinished
    cases (congrArg Prod.snd (start_showSync hq v.state)).symm.trans hfinished
  obtain ⟨t, reply, hn, hreplies, hresume⟩ :=
    h.replies_of_finished numbered_unvisited hwaits he ho
  have haccount := h.account_of_replies numbered_unvisited hreplies hn
  have hstands := stands_of_course (.showSync hq) haccount.course
  obtain ⟨r', notice, hheard, rfl⟩ := hstands.showSync_ends hresume
  obtain ⟨⟨k', _⟩, _, htake, rfl, -⟩ := List.map_eq_cons_iff.mp hheard
  obtain ⟨rest, hrest⟩ := World.heard_take_prefix (unvisited site) es l v.started
  have hhead := heard_options h hq hoptions
  rw [← hrest, htake, List.cons_append, List.head?_cons, Option.some.injEq, Prod.mk.injEq] at hhead
  rw [hhead.2]
  exact ⟨reply, notice, rfl⟩

theorem issues_run_closed (h : (unvisited site).Happens es i v (.request q))
    (hq : site.base.resolve q.method q.path = .found .runSync)
    (hoptions : (unvisited site).Replies es k u (startingTask v q) r) {c : Backup.Config}
    {notice : Option Notice}
    (hresume : resume site ⟨⟨q.isHead, none⟩, .starting .options⟩ (r .options) u.state =
      close site ⟨q.isHead, none⟩ c notice u.state) :
    (unvisited site).issues es v.started = [(i, .options), (k, .status)] := by
  have hopened := opened_run hoptions (congrArg Prod.snd hresume)
  have hopens : (unvisited site).Opens es k _ := ⟨u, _, hoptions.happens, hopened⟩
  have hissues := hopens.issues_of_closing numbered_unvisited (closing_status c notice)
  have htake := issues_take_run h hq hoptions
  exact hissues.trans (congrArg (· ++ [_]) htake)

theorem issues_trigger_iff (h : (unvisited site).Happens es i v (.request q))
    (hq : site.base.resolve q.method q.path = .found .runSync)
    (hoptions : (unvisited site).Replies es k u (startingTask v q) r) :
    (∃ n, (n, Call.trigger) ∈ (unvisited site).issues es v.started) ↔
      ∃ c, Backup.Panel.loadResult (r .options) = .ok c ∧ c.isComplete = true ∧
        u.state.syncing = false := by
  have hclosed {c : Backup.Config} {notice : Option Notice}
      (hresume : resume site ⟨⟨q.isHead, none⟩, .starting .options⟩ (r .options) u.state =
        close site ⟨q.isHead, none⟩ c notice u.state) :
      ¬∃ n, (n, Call.trigger) ∈ (unvisited site).issues es v.started := by
    rw [issues_run_closed h hq hoptions hresume]
    simp
  cases hload : Backup.Panel.loadResult (r .options) with
  | error f =>
    refine iff_of_false (hclosed (resume_starting_failed site _ hload u.state)) ?_
    rintro ⟨c, hc, -⟩
    cases hc
  | ok c =>
    have hresume := resume_starting site ⟨q.isHead, none⟩ hload u.state
    have hpending := (latched_of_happens hoptions.happens).up_iff
    cases hc : c.isComplete with
    | false =>
      refine iff_of_false (hclosed (hresume.trans (trigger_incomplete hc))) ?_
      rintro ⟨c', hc', hcomplete, -⟩
      cases hc'
      exact Bool.noConfusion (hc.symm.trans hcomplete)
    | true =>
      cases hs : u.state.syncing with
      | true =>
        refine iff_of_false (hclosed (hresume.trans (trigger_running hc hs))) ?_
        rintro ⟨_, _, _, hdown⟩
        cases hdown
      | false =>
        have hfree : ∀ t, ¬u.Pending .trigger t := fun t ht =>
          Bool.noConfusion (hs.symm.trans (hpending.mpr ⟨t, ht⟩))
        obtain ⟨rest, hissues, -⟩ := issues_run_free h hq hoptions hload hc hfree
        refine iff_of_true ⟨k, ?_⟩ ⟨c, rfl, hc, rfl⟩
        rw [hissues]
        exact List.mem_cons_of_mem _ List.mem_cons_self

theorem canRun_settingsFrom (a : Except Fault (Envelope Backup.Options)) (syncing : Bool) :
    canRun (settingsFrom a) syncing = true ↔
      ∃ c, Backup.Panel.loadResult a = .ok c ∧ c.isComplete = true ∧ syncing = false := by
  cases hload : Backup.Panel.loadResult a with
  | ok c => simp [canRun, settingsFrom, hload]
  | error f =>
    have hempty : ({} : Backup.Config).isComplete = false := by decide
    simp [canRun, settingsFrom, hload, hempty]

/-- The page of the panel has two buttons. The second belongs to the form that asks for a run, and
can be pressed exactly when a request for a run starts one that gets the same reply to its options
and meets the flag in the same position. -/
theorem run_button_truthful (hget : (unvisited site).Happens es i v (.request q))
    (hshow : site.base.resolve q.method q.path = .found .showSync) (hhead : q.isHead = false)
    (hoptions : (unvisited site).Replies es k u (showingTask v q) r)
    (he : (unvisited site).Happens es l w e) (ho : (v.started, o) ∈ (w.step e).2.finished)
    {v' w' : World (application site)} {q' : Request} {r' : Reply}
    (hpost : (unvisited site).Happens fs j v' (.request q'))
    (hrun : site.base.resolve q'.method q'.path = .found .runSync)
    (hoptions' : (unvisited site).Replies fs m w' (startingTask v' q') r')
    (hsame : r' .options = r .options) (hflag : w'.state.syncing = w.state.syncing) :
    ∃ page, o = some page ∧ (targets (tags page.body)).getLast? =
        some (.form "post" (runLabel w.state.syncing) (pathUnder site.base.path "/sync/run")) ∧
      ∃ enabled, buttons page.body = [true, enabled] ∧ (enabled = true ↔
        ∃ n, (n, Call.trigger) ∈ (unvisited site).issues fs v'.started) := by
  obtain ⟨reply, notice, rfl⟩ := response_showSync hget hshow hoptions he ho
  refine ⟨_, rfl, ?_⟩
  rw [body_statusPage site _ hhead]
  refine ⟨?_, canRun (settingsFrom (r .options)) w.state.syncing, ?_, ?_⟩
  · rw [targets_renderBackup]
    rfl
  · exact buttons_backup _ _ _ _ _
  · rw [canRun_settingsFrom, issues_trigger_iff hpost hrun hoptions', hsame, hflag]

theorem run_button_truthful_second :
    let site : Site := ⟨⟨"/", [.char '/'], by decide⟩, "", 1⟩
    let get : Request := { method := "GET", target := "/sync" }
    let run : Request := { method := "POST", target := "/sync/run" }
    let es : List (Event (application site)) := [.request run, .reply 0 statusless,
      .request get, .reply 2 statusless, .reply 3 statusless]
    let fs : List (Event (application site)) := [.request run, .reply 0 statusless,
      .request run, .reply 2 statusless]
    (∃ page, (1, some page) ∈ (unvisited site).outcomes es ∧ buttons page.body = [true, false]) ∧
      (unvisited site).issues fs 1 = [(2, .options), (3, .status)] := by
  intro site get run es fs
  let v := (unvisited site).after (es.take 2)
  let w := (unvisited site).after (es.take 4)
  let v' := (unvisited site).after (fs.take 2)
  have hget : (unvisited site).Happens es 2 v (.request get) := ⟨rfl, rfl⟩
  have hend : (unvisited site).Happens es 4 w (.reply 3 statusless) := ⟨rfl, rfl⟩
  have hpost : (unvisited site).Happens fs 2 v' (.request run) := ⟨rfl, rfl⟩
  have hshow : site.base.resolve get.method get.path = .found .showSync := by decide +kernel
  have hrun : site.base.resolve run.method run.path = .found .runSync := by decide +kernel
  have hissued : v.issued = 2 := by decide +kernel
  have hissued' : v'.issued = 2 := by decide +kernel
  have hnext : es[2 + 1]? = some (.reply v.issued statusless) := by
    rw [hissued]
    rfl
  have hnext' : fs[2 + 1]? = some (.reply v'.issued statusless) := by
    rw [hissued']
    rfl
  have hoptions := hget.replies_next numbered_unvisited
    (congrArg Prod.snd (start_showSync hshow v.state)) hnext
  have hoptions' := hpost.replies_next numbered_unvisited
    (congrArg Prod.snd (start_runSync hrun v'.state)) hnext'
  have hended : (w.step (.reply 3 statusless)).2.finished.map Prod.fst = [v.started] := by
    decide +kernel
  have hmem : v.started ∈ (w.step (.reply 3 statusless)).2.finished.map Prod.fst := by
    rw [hended]
    exact List.mem_singleton_self _
  obtain ⟨p, hp, hn⟩ := List.mem_map.mp hmem
  have ho : (v.started, p.2) ∈ (w.step (.reply 3 statusless)).2.finished := by
    rw [← hn]
    exact hp
  have hflag : ((v'.step (.request run)).1).state.syncing = w.state.syncing := by decide +kernel
  obtain ⟨page, hpage, -, enabled, hbuttons, henabled⟩ :=
    run_button_truthful hget hshow rfl hoptions hend ho hpost hrun hoptions' rfl hflag
  have hnumber : v.started = 1 := by decide +kernel
  have hnumber' : v'.started = 1 := by decide +kernel
  have hissues : (unvisited site).issues fs 1 = [(2, .options), (3, .status)] := by decide +kernel
  have hnone : ¬∃ n, (n, Call.trigger) ∈ (unvisited site).issues fs v'.started := by
    rw [hnumber', hissues]
    simp
  have hdisabled : enabled = false := Bool.eq_false_iff.mpr (mt henabled.mp hnone)
  have houtcome := hend.mem_outcomes ho
  rw [hnumber, hpage] at houtcome
  rw [hdisabled] at hbuttons
  exact ⟨⟨page, houtcome, hbuttons⟩, hissues⟩

end QuotaDesk.Dashboard
