import QuotaDesk.CommandLine.Run
import QuotaDesk.Proofs.Dashboard.Failing

/-! Failures on the command line and over HTTP. Commands print the same over services that fail
alike, and a reply over HTTP fails exactly when its body is no envelope for the call. -/

namespace QuotaDesk

open Json (Tree)

namespace Client

def reader : (c : Call) → Tree → Option c.Payload
  | .quota _ => Wire.summary?
  | .history .. => Wire.page?
  | .options => Wire.options?
  | .update .. => Wire.value?
  | .status => Wire.status?
  | .trigger => Wire.value?

theorem decode_eq (r : HttpReply) (c : Call) :
    decode r c = Wire.answer (reader c) r.status r.body := by
  cases c <;> rfl

theorem fails_decode_iff (r : HttpReply) (c : Call) :
    Fails (decode r c) ↔ (Tree.parse? r.body).bind (Wire.envelope? (reader c)) = none := by
  rw [decode_eq, Fails, Wire.answer]
  split
  · next e he => simp [he]
  · next hnone =>
    refine iff_of_true ?_ hnone
    split <;> exact ⟨_, rfl⟩

end Client

namespace Backup.Panel

theorem answers_induction {j : Job} {motive : State → Step j → Prop}
    (finished : ∀ s r, motive s (.finished r))
    (waiting : ∀ s x, (∀ a, motive (resume x a s).1 (resume x a s).2) → motive s (.waiting x))
    (s : State) (p : Step j) : motive s p := by
  cases p with
  | finished r => exact finished s r
  | waiting x =>
    induction hn : rank x using Nat.strongRecOn generalizing x s with
    | ind n ih =>
      refine waiting s x fun a => ?_
      rcases hp : resume x a s with ⟨s', x' | r⟩
      · exact ih _ (hn ▸ rank_lt x a s x' (by rw [hp])) s' x' rfl
      · exact finished s' r

end Backup.Panel

namespace CommandLine

open Backup.Panel (Job Waiting)

variable {m : Type → Type} [Monad m] [LawfulMonad m] {ask ask' : (c : Call) → m (Answer c)}

omit [LawfulMonad m] in
theorem finishJob_waiting {j : Job} (x : Waiting j) (s : Backup.Panel.State) :
    finishJob ask s (.waiting x) = ask x.call >>= fun a =>
      finishJob ask (Backup.Panel.resume x a s).1 (Backup.Panel.resume x a s).2 := by
  rw [finishJob]
  congr 1
  funext a
  split
  · next h =>
    have hend := congrArg (fun p : _ × Backup.Panel.Step j => finishJob ask p.1 p.2) h
    exact (hend.trans (by rw [finishJob])).symm
  · next h => exact congrArg (fun p : _ × Backup.Panel.Step j => finishJob ask p.1 p.2) h.symm

theorem finishJob_failAlike {j : Job} (h : FailAlike ask ask') (s : Backup.Panel.State)
    (p : Backup.Panel.Step j) : finishJob ask s p = finishJob ask' s p := by
  induction s, p using Backup.Panel.answers_induction with
  | finished s r => rw [finishJob, finishJob]
  | waiting s x ih =>
    rw [finishJob_waiting, finishJob_waiting, funext ih]
    exact h.bind_eq fun f g => by cases x <;> rfl

theorem perform_failAlike (h : FailAlike ask ask') (c : Command) :
    perform ask c = perform ask' c := by
  have hlookup := Controller.perform_failAlike Lookup.failsAs h
  cases c with
  | query key page => simp only [perform, query, hlookup]
  | status => simp only [perform, status, finishJob_failAlike h]
  | run => simp only [perform, run, finishJob_failAlike h]
  | «show» => simp only [perform, showConfig, finishJob_failAlike h]
  | save c => simp only [perform, save, finishJob_failAlike h]

theorem finishJob_failing {j : Job} (x : Waiting j) (s : Backup.Panel.State) {f : Fault}
    (h : ask x.call = pure (.error f)) :
    finishJob ask s (.waiting x) = pure (Backup.Panel.release x s, Backup.Panel.failure x) := by
  rw [finishJob_waiting, h, pure_bind]
  cases x <;> exact finishJob.eq_1 ..

end CommandLine

/-- No failure leaves a trace of what it was. One in the place of another changes no run of a
lookup, of the panel or of the dashboard, and nothing that a command prints; what it comes to is in
the words of what failed, or an unknown status. -/
theorem failures_alike :
    (∀ es k v t r r', Lookup.unused.Replies es k v t r → Fails (r (Lookup.call t.waiting)) →
      Fails (r' (Lookup.call t.waiting)) →
      Lookup.unused.run (es.set k (.reply t.callNumber r')) = Lookup.unused.run es ∧
        (v.step (.reply t.callNumber r)).2.finished =
          [(t.number, Lookup.Waiting.failedOutcome v.state t.waiting)]) ∧
    (∀ es k v t r r', Backup.Panel.untouched.Replies es k v t r →
      Fails (r (Backup.Panel.controller.call t.waiting)) →
      Fails (r' (Backup.Panel.controller.call t.waiting)) →
      Backup.Panel.untouched.run (es.set k (.reply t.callNumber r')) =
          Backup.Panel.untouched.run es ∧
        (v.step (.reply t.callNumber r)).2.finished =
          [(t.number, ⟨t.waiting.1, Backup.Panel.failure t.waiting.2⟩)]) ∧
    (∀ site es k v t r r', (Dashboard.unvisited site).Replies es k v t r →
      Fails (r (Dashboard.Application.call t.waiting)) →
      Fails (r' (Dashboard.Application.call t.waiting)) →
      (Dashboard.unvisited site).run (es.set k (.reply t.callNumber r')) =
          (Dashboard.unvisited site).run es ∧
        v.step (.reply t.callNumber r) =
          v.place t.number (Dashboard.Application.failed site t.waiting v.state)) ∧
    (∀ (m : Type → Type) [Monad m] [LawfulMonad m] (ask ask' : (c : Call) → m (Answer c)),
      (FailAlike ask ask' → ∀ c, CommandLine.perform ask c = CommandLine.perform ask' c) ∧
      (∀ x s f, ask (Lookup.call x) = pure (.error f) →
        Lookup.controller.proceed ask x s =
          pure (Lookup.Waiting.failedState s x, Lookup.Waiting.failedOutcome s x)) ∧
      ∀ (j : Backup.Panel.Job) (x : Backup.Panel.Waiting j) s f,
        ask x.call = pure (.error f) → CommandLine.finishJob ask s (.waiting x) =
          pure (Backup.Panel.release x s, Backup.Panel.failure x)) ∧
    (∀ c r, Fails (Client.decode r c) ↔
      (Tree.parse? r.body).bind (Wire.envelope? (Client.reader c)) = none) := by
  refine ⟨fun es k v t r r' h hr hr' => ?_, fun es k v t r r' h hr hr' => ?_,
    fun site es k v t r r' h hr hr' => ?_, fun m _ _ ask ask' => ⟨?_, ?_, ?_⟩, fun c r => ?_⟩
  · have hw : Lookup.unused.Numbered := World.numbered_of_tasks_nil rfl
    refine ⟨h.run_set_failing Lookup.failsAs hw hr hr', ?_⟩
    rw [World.step_failing Lookup.failsAs (h.numbered hw) h.live hr]
    rfl
  · have hw : Backup.Panel.untouched.Numbered := World.numbered_of_tasks_nil rfl
    refine ⟨h.run_set_failing Backup.Panel.failsAs hw hr hr', ?_⟩
    rw [World.step_failing Backup.Panel.failsAs (h.numbered hw) h.live hr]
    rfl
  · have hC := Dashboard.Application.failsAs site
    exact ⟨h.run_set_failing hC Dashboard.numbered_unvisited hr hr',
      World.step_failing hC (h.numbered Dashboard.numbered_unvisited) h.live hr⟩
  · exact CommandLine.perform_failAlike
  · exact fun x s f => Controller.proceed_failing Lookup.failsAs
  · exact fun j x s f => CommandLine.finishJob_failing x s
  · exact Client.fails_decode_iff r c

theorem failures_alike_empty_reply :
    let site : Dashboard.Site := ⟨⟨"/", [.char '/'], by decide⟩, "", 1⟩
    let refused : Reply := fun _ => .error (.transport "connection refused")
    let empty : Reply := Client.decode ⟨500, []⟩
    let r : Dashboard.Request := { method := "GET", target := "/sync" }
    Lookup.unused.run [.request (.lookup "k"), .reply 0 empty] =
        Lookup.unused.run [.request (.lookup "k"), .reply 0 refused] ∧
      Backup.Panel.untouched.run [.request .status, .reply 0 empty] =
        Backup.Panel.untouched.run [.request .status, .reply 0 refused] ∧
      (Dashboard.unvisited site).run [.request r, .reply 0 empty] =
        (Dashboard.unvisited site).run [.request r, .reply 0 refused] ∧
      CommandLine.perform (fun c => some (empty c)) .show =
        CommandLine.perform (fun c => some (refused c)) .show ∧
      Lookup.controller.proceed (fun c => some (refused c)) (.summary "k" 0) {} =
        some (Lookup.refused (.transport Lookup.queryUnreachable) {},
          .refused (.transport Lookup.queryUnreachable)) ∧
      CommandLine.finishJob (fun c => some (refused c)) {} (.waiting .options) =
        some ({}, .error (.transport Backup.Panel.configLoadFailed)) := by
  intro site refused empty r
  obtain ⟨hlookup, hpanel, hsite, hcommand, -⟩ := failures_alike
  have hrefused : ∀ c, Fails (refused c) := fun c => ⟨_, rfl⟩
  have hempty : ∀ c, Fails (empty c) := fun c => (Client.fails_decode_iff _ c).mpr rfl
  have hfound : site.base.resolve r.method r.path = .found .showSync := by decide +kernel
  have hstart : (Dashboard.application site).start r (Dashboard.unvisited site).state =
      ({}, .waiting ⟨⟨false, none⟩, .showing .options⟩) := by
    simp only [Dashboard.application, Dashboard.Application.start, hfound]
    rfl
  have hl := hlookup [.request (.lookup "k"), .reply 0 refused] 1 _ ⟨0, 0, .summary "k" 1⟩ refused
    empty (World.replies_request (World.numbered_of_tasks_nil rfl) rfl) (hrefused _) (hempty _)
  have hp := hpanel [.request .status, .reply 0 refused] 1 _ ⟨0, 0, ⟨.status, .status⟩⟩ refused
    empty (World.replies_request (World.numbered_of_tasks_nil rfl) rfl) (hrefused _) (hempty _)
  have hs := hsite site [.request r, .reply 0 refused] 1 _ _ refused empty
    (World.replies_request Dashboard.numbered_unvisited hstart) (hrefused _) (hempty _)
  have hc : FailAlike (fun c => some (empty c)) fun c => some (refused c) := by
    intro c
    obtain ⟨f, hf⟩ := hempty c
    show some (empty c).toOption = some none
    rw [hf]
    rfl
  have hservices := hcommand Option (fun c => some (empty c)) fun c => some (refused c)
  have hrefuse := (hcommand Option (fun c => some (refused c)) fun c => some (empty c)).2
  exact ⟨hl.1, hp.1, hs.1, hservices.1 hc .show, hrefuse.1 (.summary "k" 0) {} _ rfl,
    hrefuse.2 .load .options {} _ rfl⟩

def ledgerDown : (c : Call) → Id (Answer c)
  | .quota _ => .ok (.ok {})
  | _ => .error (.transport "connection refused")

/-- The failure of an overtaken call is in no words at all, and the command line keeps silent about
a ledger it could not load. -/
theorem failure_superseded :
    let refused : Reply := fun _ => .error (.transport "connection refused")
    let es : List (Event Lookup.controller) :=
      [.request (.lookup "a"), .request (.lookup "b"), .reply 0 refused]
    (∃ v t, Lookup.unused.Replies es 2 v t refused ∧ Fails (refused (Lookup.call t.waiting))) ∧
      Lookup.unused.outcomes es = [(0, .superseded)] ∧
      (Lookup.unused.after es).state.view.notice = none ∧
      Fails (ledgerDown (.history "k" 1 10)) ∧
      (CommandLine.perform ledgerDown (.query "k" 1)).failure = none ∧
      (CommandLine.perform ledgerDown (.query "k" 1)).log = [] := by
  intro refused es
  have hreplies : Lookup.unused.Replies es 2 (Lookup.unused.after (es.take 2))
      ⟨0, 0, .summary "a" 1⟩ refused := ⟨⟨rfl, rfl⟩, List.mem_cons_self⟩
  exact ⟨⟨_, _, hreplies, _, rfl⟩, rfl, rfl, ⟨_, rfl⟩, by decide +kernel, by decide +kernel⟩

end QuotaDesk
