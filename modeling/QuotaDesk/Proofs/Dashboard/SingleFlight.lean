import QuotaDesk.Proofs.Backup.SingleFlight
import QuotaDesk.Proofs.Dashboard.Turn

/-! One run of the backup at a time. On the dashboard as on the panel alone, the flag guards
the call that starts a run. -/

namespace QuotaDesk.Dashboard

namespace Application

variable {site : Site} {s s' : State} {t : Ticket}

theorem Backed.guarded {p : Step} (h : Backed t s p) :
    Guarded (C := application site) State.syncing .trigger s p := by
  cases h with
  | answered r => exact .ends rfl
  | waits hlookup hcall => exact .waits hcall rfl
  | raised c hs => exact .raised rfl hs rfl

theorem guarded_afterLookup {slot : Nat} (h : s'.panel = s.panel)
    (p : Lookup.State × Progress Lookup.Waiting Lookup.Outcome) :
    Guarded (C := application site) State.syncing .trigger s (afterLookup site t slot s' p) := by
  have hkept : s'.syncing = s.syncing := congrArg Backup.Panel.State.syncing h
  obtain ⟨l, x | o⟩ := p
  · refine .waits ?_ hkept
    cases x <;> exact nofun
  · rw [afterLookup]
    rcases showView_cases site t slot l s' with ⟨response, h⟩ | h
    · exact h ▸ .ends hkept
    · exact h ▸ .ends hkept

theorem visit_panel (r : Request) (s : State) : (visit r s).2.2.panel = s.panel := by
  unfold visit
  split <;> rfl

theorem guarded_start (r : Request) (s : State) :
    Guarded (C := application site) State.syncing .trigger s (start site r s) := by
  cases received site r with
  | looked work hwork hstart =>
    rw [hstart]
    refine guarded_afterLookup ?_ _
    exact visit_panel r s
  | refused response hwork hstart => exact hstart s ▸ .ends rfl
  | backed hasks hwork hstart => exact (hstart s).guarded

theorem guarded_resume (x : Waiting) (a : Answer (call x)) (s : State) (hx : call x ≠ .trigger) :
    Guarded (C := application site) State.syncing .trigger s (resume site x a s) := by
  by_cases hlookup : x.OnLookup
  · obtain ⟨t, stage⟩ := x
    obtain ⟨slot, y, rfl⟩ := hlookup
    exact guarded_afterLookup rfl _
  · exact (backed_resume site x a s hlookup hx).guarded

theorem release_running (x : Waiting) (s : State) (hx : call x = .trigger) :
    (release x s).syncing = false := by
  obtain ⟨t, stage⟩ := x
  obtain ⟨c, hstage⟩ := call_eq_trigger_iff.mp hx
  obtain rfl : stage = .running c .trigger := hstage
  rfl

theorem latch (site : Site) : Latch (application site) State.syncing .trigger where
  start_guarded := guarded_start
  resume_guarded := guarded_resume
  resume_lowers := by
    rintro ⟨t, stage⟩ a s hx
    obtain ⟨c, hstage⟩ := call_eq_trigger_iff.mp hx
    obtain rfl : stage = .running c .trigger := hstage
    obtain ⟨stage, h, hstage⟩ := resume_running site t c a s
    refine ⟨congrArg (fun p => p.1.syncing) h, fun y hy => ?_⟩
    obtain rfl := Progress.waiting.inj ((congrArg Prod.snd h).symm.trans hy)
    rcases hstage with ⟨message, rfl⟩ | ⟨notice, rfl⟩
    · exact nofun
    · exact nofun
  release_keeps := by
    rintro ⟨t, stage⟩ s hx
    cases stage with
    | running c x =>
      cases x with
      | trigger => exact absurd rfl hx
      | closing message => rfl
    | lookup slot x => rfl
    | showing x | saving c x | starting x | closing c notice x => cases x; rfl
  release_lowers := release_running

theorem start_runSync {r : Request} (h : site.base.resolve r.method r.path = .found .runSync)
    (s : State) : start site r s = (s, .waiting ⟨⟨r.isHead, none⟩, .starting .options⟩) := by
  rw [start, h]
  rfl

theorem resume_starting (site : Site) (t : Ticket) {a : Except Fault (Envelope Backup.Options)}
    {c : Backup.Config} (h : Backup.Panel.loadResult a = .ok c) (s : State) :
    resume site ⟨t, .starting .options⟩ a s = trigger site t c s := by
  simp only [resume, Backup.Panel.resume, h]
  rfl

theorem closing_status (c : Backup.Config) (notice : Option Notice) :
    World.Closing (C := application site) ⟨t, .closing c notice .status⟩ :=
  fun _ _ _ h => nomatch h

def Running (x : Waiting) : Prop :=
  ∃ c, (∃ y, x.stage = .running c y) ∨ ∃ notice, x.stage = .closing c notice .status

theorem Running.resume {x y : Waiting} {a : Answer (call x)} (hx : Running x)
    (h : (resume site x a s).2 = .waiting y) : Running y ∧ call y = .status := by
  obtain ⟨t, stage⟩ := x
  rcases hx with ⟨c, ⟨x, hx⟩ | ⟨notice, hx⟩⟩
  · obtain rfl : stage = .running c x := hx
    cases x with
    | trigger =>
      obtain ⟨stage, hy, hstage⟩ := resume_running site t c a s
      obtain rfl := Progress.waiting.inj ((congrArg Prod.snd hy).symm.trans h)
      rcases hstage with ⟨message, rfl⟩ | ⟨notice, rfl⟩
      · exact ⟨⟨c, .inl ⟨_, rfl⟩⟩, rfl⟩
      · exact ⟨⟨c, .inr ⟨_, rfl⟩⟩, rfl⟩
    | closing message => cases h
  · obtain rfl : stage = .closing c notice .status := hx
    cases h

end Application

open Application

def unvisited (site : Site) : World (application site) :=
  { state := {} }

variable {site : Site} {es : List (Event (application site))} {i l : Nat}
  {v w : World (application site)} {r : Request} {reply : Reply} {c : Backup.Config}

theorem numbered_unvisited : (unvisited site).Numbered :=
  World.numbered_of_tasks_nil rfl

theorem latched_after (es : List (Event (application site))) :
    ((unvisited site).after es).Latched State.syncing .trigger :=
  (World.latched_of_tasks_nil rfl rfl).after (latch site) es

theorem latched_of_happens {e : Event (application site)} (h : (unvisited site).Happens es l w e) :
    w.Latched State.syncing .trigger :=
  h.world ▸ latched_after (es.take l)

def startingTask (v : World (application site)) (r : Request) : Task (application site) :=
  ⟨v.started, v.issued, ⟨⟨r.isHead, none⟩, .starting .options⟩⟩

theorem opens_run (h : (unvisited site).Happens es i v (.request r))
    (hr : site.base.resolve r.method r.path = .found .runSync) :
    (unvisited site).Opens es i (startingTask v r) :=
  ⟨v, _, h, World.opened_request_iff.mpr ⟨_, congrArg Prod.snd (start_runSync hr v.state), rfl⟩⟩

theorem issues_take_run (h : (unvisited site).Happens es i v (.request r))
    (hr : site.base.resolve r.method r.path = .found .runSync)
    (hreplies : (unvisited site).Replies es l w (startingTask v r) reply) :
    (unvisited site).issues (es.take l) v.started = [(i, .options)] := by
  have hlive : startingTask v r ∈ ((unvisited site).after (es.take l)).tasks :=
    hreplies.happens.world ▸ hreplies.live
  have htake := (opens_run h hr).issues_take_of_mem numbered_unvisited hlive
  exact htake.trans (congrArg (· ++ [_]) (h.issues_take numbered_unvisited))

theorem opened_run {x : Waiting} (hreplies : (unvisited site).Replies es l w (startingTask v r) reply)
    (hx : (resume site ⟨⟨r.isHead, none⟩, .starting .options⟩ (reply .options) w.state).2 =
      .waiting x) :
    (w.step (.reply (startingTask v r).callNumber reply)).2.opened =
      some ⟨v.started, w.issued, x⟩ := by
  rw [(latched_of_happens hreplies.happens).numbered.step_reply hreplies.live]
  exact World.opened_resumeTask_iff.mpr ⟨x, hx, rfl⟩

theorem issues_run_running (h : (unvisited site).Happens es i v (.request r))
    (hr : site.base.resolve r.method r.path = .found .runSync)
    (hreplies : (unvisited site).Replies es l w (startingTask v r) reply)
    (hload : Backup.Panel.loadResult (reply .options) = .ok c) (hc : c.isComplete = true)
    {t : Task (application site)} (ht : w.Pending .trigger t) :
    (w.step (.reply (startingTask v r).callNumber reply)).2.opened = some ⟨v.started, w.issued,
        ⟨⟨r.isHead, none⟩, .closing c (some ⟨.warning, alreadyRunning⟩) .status⟩⟩ ∧
      (unvisited site).issues es v.started = [(i, .options), (l, .status)] := by
  have hup : w.state.syncing = true := (latched_of_happens hreplies.happens).up_iff.mpr ⟨t, ht⟩
  have hresume := resume_starting site ⟨r.isHead, none⟩ hload w.state
  rw [trigger_running hc hup] at hresume
  have hopened := opened_run hreplies (congrArg Prod.snd hresume)
  have hopens : (unvisited site).Opens es l _ := ⟨w, _, hreplies.happens, hopened⟩
  refine ⟨hopened, (hopens.issues_of_closing numbered_unvisited (closing_status c _)).trans ?_⟩
  rw [issues_take_run h hr hreplies]
  rfl

theorem issues_run_free (h : (unvisited site).Happens es i v (.request r))
    (hr : site.base.resolve r.method r.path = .found .runSync)
    (hreplies : (unvisited site).Replies es l w (startingTask v r) reply)
    (hload : Backup.Panel.loadResult (reply .options) = .ok c) (hc : c.isComplete = true)
    (hfree : ∀ t, ¬w.Pending .trigger t) :
    ∃ rest, (unvisited site).issues es v.started = (i, .options) :: (l, .trigger) :: rest ∧
      ∀ p ∈ rest, p.2 = .status := by
  have hdown : w.state.syncing = false := by
    rw [← Bool.not_eq_true, (latched_of_happens hreplies.happens).up_iff]
    exact fun ⟨t, ht⟩ => hfree t ht
  have hresume := resume_starting site ⟨r.isHead, none⟩ hload w.state
  rw [trigger_free hc hdown] at hresume
  have hopened := opened_run hreplies (congrArg Prod.snd hresume)
  have hopens : (unvisited site).Opens es l _ := ⟨w, _, hreplies.happens, hopened⟩
  obtain ⟨rest, hissues, hrest⟩ := hopens.issues_eq numbered_unvisited (Q := Running)
    (fun x a s y hx hy => (hx.resume hy).1) ⟨c, .inl ⟨_, rfl⟩⟩
  refine ⟨rest, ?_, fun p hp => ?_⟩
  · rw [hissues, issues_take_run h hr hreplies]
    rfl
  · obtain ⟨x, a, s, y, hx, hy, hcall⟩ := hrest p hp
    exact hcall.trans (hx.resume hy).2

open Backup in
/-- After every run of the panel and of the dashboard at most one task waits in the call that
starts a backup, and the flag is up exactly while one does. The reply to that call takes the
flag down, so does dropping its task, and nothing else. A request with complete settings that
comes while the call is open is answered without it; one that comes while it is not open
issues it once. On the dashboard such a request first loads the settings. -/
theorem one_run_at_a_time :
    (∀ es : List (Event Panel.controller),
      (Panel.untouched.after es).Latched Panel.State.syncing .trigger ∧
      (∀ t e, (Panel.untouched.after es).Pending .trigger t →
        (((Panel.untouched.after es).step e).1.state.syncing = false ↔
          (∃ reply, e = .reply t.callNumber reply) ∨ e = .cancel t.number)) ∧
      ∀ k w c, Panel.untouched.Happens es k w (.request (.trigger c)) → c.isComplete = true →
        (∀ t, w.Pending .trigger t →
          (w.step (.request (.trigger c))).2.finished =
              [(w.started, ⟨.trigger, .ok .alreadyRunning⟩)] ∧
            Panel.untouched.issues es w.started = []) ∧
        ((∀ t, ¬w.Pending .trigger t) →
          ∃ rest, Panel.untouched.issues es w.started = (k, .trigger) :: rest ∧
            ∀ p ∈ rest, p.2 = .status)) ∧
    ∀ (site : Site) (es : List (Event (application site))),
      ((unvisited site).after es).Latched State.syncing .trigger ∧
      (∀ t e, ((unvisited site).after es).Pending .trigger t →
        ((((unvisited site).after es).step e).1.state.syncing = false ↔
          (∃ reply, e = .reply t.callNumber reply) ∨ e = .cancel t.number)) ∧
      ∀ i v r, (unvisited site).Happens es i v (.request r) →
        site.base.resolve r.method r.path = .found .runSync →
        (v.step (.request r)).2.opened = some (startingTask v r) ∧
        ∀ l w reply c, (unvisited site).Replies es l w (startingTask v r) reply →
          Panel.loadResult (reply .options) = .ok c → c.isComplete = true →
          (∀ t, w.Pending .trigger t →
            (w.step (.reply v.issued reply)).2.opened = some ⟨v.started, w.issued,
                ⟨⟨r.isHead, none⟩, .closing c (some ⟨.warning, alreadyRunning⟩) .status⟩⟩ ∧
              (unvisited site).issues es v.started = [(i, .options), (l, .status)]) ∧
          ((∀ t, ¬w.Pending .trigger t) →
            ∃ rest, (unvisited site).issues es v.started =
                (i, .options) :: (l, .trigger) :: rest ∧ ∀ p ∈ rest, p.2 = .status) := by
  constructor
  · intro es
    have hlatched := Panel.latched_after es
    refine ⟨hlatched, fun t e ht => hlatched.lowered_iff Panel.latch ht e, ?_⟩
    intro k w c h hc
    exact ⟨fun t => Panel.issues_trigger_running h hc, Panel.issues_trigger_free h hc⟩
  · intro site es
    have hlatched := latched_after es
    refine ⟨hlatched, fun t e ht => hlatched.lowered_iff (latch site) ht e, ?_⟩
    intro i v r h hr
    refine ⟨World.opened_request_iff.mpr ⟨_, congrArg Prod.snd (start_runSync hr v.state), rfl⟩, ?_⟩
    intro l w reply c hreplies hload hc
    exact ⟨fun t => issues_run_running h hr hreplies hload hc,
      issues_run_free h hr hreplies hload hc⟩

theorem one_run_at_a_time_third :
    let c : Backup.Config := { token := "t", repo := "r" }
    let refused : Reply := fun _ => .error (.transport "")
    let es : List (Event Backup.Panel.controller) := [.request (.trigger c),
      .request (.trigger c), .reply 0 refused, .request (.trigger c)]
    (∃ t, (Backup.Panel.untouched.after (es.take 1)).Pending .trigger t) ∧
      Backup.Panel.untouched.issues es 1 = [] ∧
      (∀ t, ¬(Backup.Panel.untouched.after (es.take 3)).Pending .trigger t) ∧
      ∃ rest, Backup.Panel.untouched.issues es 2 = (3, .trigger) :: rest ∧
        ∀ p ∈ rest, p.2 = .status := by
  intro c refused es
  have hc : c.isComplete = true := by decide
  have hpanel := (one_run_at_a_time.1 es).2.2
  have hsecond : Backup.Panel.untouched.Happens es 1 (Backup.Panel.untouched.after (es.take 1))
      (.request (.trigger c)) := ⟨rfl, rfl⟩
  have hthird : Backup.Panel.untouched.Happens es 3 (Backup.Panel.untouched.after (es.take 3))
      (.request (.trigger c)) := ⟨rfl, rfl⟩
  have hpending : (Backup.Panel.untouched.after (es.take 1)).Pending .trigger
      ⟨0, 0, ⟨.trigger, .trigger⟩⟩ := ⟨List.mem_singleton.mpr rfl, rfl⟩
  have hfree : ∀ t, ¬(Backup.Panel.untouched.after (es.take 3)).Pending .trigger t :=
    fun t ht => nomatch ht.1
  exact ⟨⟨_, hpending⟩, ((hpanel 1 _ c hsecond hc).1 _ hpending).2, hfree,
    (hpanel 3 _ c hthird hc).2 hfree⟩

end QuotaDesk.Dashboard
