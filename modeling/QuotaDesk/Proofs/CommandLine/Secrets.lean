import QuotaDesk.Demo
import QuotaDesk.Proofs.Backup.Options
import QuotaDesk.Proofs.CommandLine.Conversation

/-! What a command tells of a secret. Keys with the same first four characters, and tokens that
moreover are both blank or both not, lead to calls that differ in nothing else, and to one and the
same report as long as these are answered alike. -/

namespace QuotaDesk

open Backup (Config Options tokenOption)
open Backup.Panel (Job Step)

/-- Texts with the same first four characters; a shorter one is only like itself. -/
def SameStart (s t : String) : Prop :=
  s.toList.take 4 = t.toList.take 4

instance (s t : String) : Decidable (SameStart s t) :=
  inferInstanceAs (Decidable (s.toList.take 4 = t.toList.take 4))

theorem SameStart.eq_empty_iff {s t : String} (h : SameStart s t) : s = "" ↔ t = "" := by
  have hempty : ∀ u : String, u.toList.take 4 = [] ↔ u = "" := by simp
  rw [← hempty s, ← hempty t, h]

theorem SameStart.isEmpty_eq {s t : String} (h : SameStart s t) : s.isEmpty = t.isEmpty := by
  rw [Bool.eq_iff_iff, String.isEmpty_iff, String.isEmpty_iff, h.eq_empty_iff]

theorem SameStart.mask_eq {s t : String} (h : SameStart s t) :
    CommandLine.Report.mask s = CommandLine.Report.mask t := by
  have hstart : s.toList.take 4 = t.toList.take 4 := h
  rw [CommandLine.Report.mask, CommandLine.Report.mask, h.isEmpty_eq, hstart]

namespace Backup

structure TokensAlike (t t' : String) : Prop where
  start : SameStart t t'
  blank : Text.isBlankText t = Text.isBlankText t'

structure Config.Alike (c c' : Config) : Prop where
  token : TokensAlike c.token c'.token
  repo : c.repo = c'.repo
  interval : c.interval = c'.interval

theorem Config.Alike.refl (c : Config) : c.Alike c :=
  ⟨⟨rfl, rfl⟩, rfl, rfl⟩

structure Options.Alike (o o' : Options) : Prop where
  token : TokensAlike ((o.get? tokenOption).getD "") ((o'.get? tokenOption).getD "")
  others : ∀ name, name ≠ tokenOption → o.get? name = o'.get? name

theorem Options.Alike.config {o o' : Options} (h : o.Alike o') :
    (Config.ofOptions o).Alike (Config.ofOptions o') where
  token := h.token
  repo := by rw [Config.ofOptions, Config.ofOptions, h.others repoOption (by decide)]
  interval := by rw [Config.ofOptions, Config.ofOptions, h.others intervalOption (by decide)]

theorem Options.alike_insert (o : Options) {t t' : String} (h : TokensAlike t t') :
    (o.insert tokenOption t).Alike (o.insert tokenOption t') where
  token := by simpa [Options.get?_insert] using h
  others name hname := by simp [Options.get?_insert, hname]

end Backup

inductive Call.Alike : Call → Call → Prop
  | quota {key key' : String} (h : SameStart key key') : Alike (.quota key) (.quota key')
  | history {key key' : String} (h : SameStart key key') (page size : UInt32) :
      Alike (.history key page size) (.history key' page size)
  | options : Alike .options .options
  | token {t t' : String} (h : Backup.TokensAlike t t') :
      Alike (.update tokenOption t) (.update tokenOption t')
  | update (name value : String) : Alike (.update name value) (.update name value)
  | status : Alike .status .status
  | trigger : Alike .trigger .trigger

inductive AnswersAlike {α : Type} (P : α → α → Prop) :
    Except Fault (Envelope α) → Except Fault (Envelope α) → Prop
  | failures (f f' : Fault) : AnswersAlike P (.error f) (.error f')
  | envelopes (success : Bool) (message : Option String) {data data' : Option α}
      (h : Option.Rel P data data') :
      AnswersAlike P (.ok ⟨success, message, data⟩) (.ok ⟨success, message, data'⟩)

theorem AnswersAlike.congr {α β : Type} {a a' : Except Fault (Envelope α)}
    (h : AnswersAlike Eq a a') (f : Except Fault (Envelope α) → β)
    (hf : ∀ g g', f (.error g) = f (.error g')) : f a = f a' := by
  cases h with
  | failures g g' => exact hf g g'
  | envelopes success message h =>
    cases h with
    | some h => rw [h]
    | none => rfl

def Exchange.AnsweredAlike : Exchange → Exchange → Prop
  | ⟨.quota _, a⟩, ⟨.quota _, a'⟩ => AnswersAlike Eq a a'
  | ⟨.history .., a⟩, ⟨.history .., a'⟩ => AnswersAlike Eq a a'
  | ⟨.options, a⟩, ⟨.options, a'⟩ => AnswersAlike Options.Alike a a'
  | ⟨.update .., a⟩, ⟨.update .., a'⟩ => AnswersAlike Eq a a'
  | ⟨.status, a⟩, ⟨.status, a'⟩ => AnswersAlike Eq a a'
  | ⟨.trigger, a⟩, ⟨.trigger, a'⟩ => AnswersAlike Eq a a'
  | _, _ => False

def AnsweredAlike : List Exchange → List Exchange → Prop
  | e :: said, e' :: said' => (e.1.Alike e'.1 → e.AnsweredAlike e') ∧ AnsweredAlike said said'
  | _, _ => True

namespace Conversation

/-- As long as they are answered alike, the conversations make calls that are alike, and they end
with results as given. -/
inductive InStep {α β : Type} (R : α → β → Prop) : Conversation α → Conversation β → Prop
  | done {a : α} {b : β} (h : R a b) : InStep R (.done a) (.done b)
  | asks {c c' : Call} {next : Answer c → Conversation α} {next' : Answer c' → Conversation β}
      (hcall : c.Alike c')
      (hnext : ∀ a a', Exchange.AnsweredAlike ⟨c, a⟩ ⟨c', a'⟩ → InStep R (next a) (next' a')) :
      InStep R (.asks c next) (.asks c' next')

variable {α β γ δ σ σ' : Type} {R : α → β → Prop} {x : Conversation α} {y : Conversation β}

theorem InStep.bind {Q : γ → δ → Prop} {f : α → Conversation γ} {g : β → Conversation δ}
    (h : InStep R x y) (hnext : ∀ a b, R a b → InStep Q (f a) (g b)) :
    InStep Q (x >>= f) (y >>= g) := by
  induction h with
  | done h => exact hnext _ _ h
  | asks hcall _ ih => exact .asks hcall ih

theorem InStep.ask_bind {c c' : Call} {f : Answer c → Conversation α}
    {g : Answer c' → Conversation β} (hcall : c.Alike c')
    (hnext : ∀ a a', Exchange.AnsweredAlike ⟨c, a⟩ ⟨c', a'⟩ → InStep R (f a) (g a')) :
    InStep R (ask c >>= f) (ask c' >>= g) :=
  .asks hcall hnext

theorem InStep.heldWith (h : InStep R x y) (service : (c : Call) → StateM σ (Answer c))
    (service' : (c : Call) → StateM σ' (Answer c)) (s : σ) (s' : σ')
    (ha : AnsweredAlike (x.exchanges service s) (y.exchanges service' s')) :
    R (x.heldWith service s).1 (y.heldWith service' s').1 ∧
      List.Forall₂ (fun e e' => e.1.Alike e'.1) (x.exchanges service s)
        (y.exchanges service' s') := by
  induction h generalizing s s' with
  | done h => exact ⟨h, .nil⟩
  | asks hcall _ ih =>
    obtain ⟨hfirst, hrest⟩ := ha
    obtain ⟨hresult, hcalls⟩ := ih _ _ (hfirst hcall) _ _ hrest
    exact ⟨hresult, .cons hcall hcalls⟩

end Conversation

namespace Backup.Panel

inductive Waiting.Alike : {j : Job} → Waiting j → Waiting j → Prop
  | token {t t' : String} (h : TokensAlike t t') (rest : List (String × String)) :
      Alike (.update tokenOption t rest) (.update tokenOption t' rest)
  | refl {j : Job} (x : Waiting j) : Alike x x

inductive ResultsAlike : {j : Job} → j.Result → j.Result → Prop
  | loaded {c c' : Config} (h : c.Alike c') : @ResultsAlike .load (.ok c) (.ok c')
  | refl {j : Job} (r : j.Result) : ResultsAlike r r

inductive StepsAlike {j : Job} : Step j → Step j → Prop
  | waiting {x x' : Waiting j} (h : x.Alike x') : StepsAlike (.waiting x) (.waiting x')
  | finished {r r' : j.Result} (h : ResultsAlike r r') : StepsAlike (.finished r) (.finished r')

theorem ResultsAlike.load {r r' : Job.load.Result} (h : ResultsAlike r r') :
    (∃ f, r = .error f ∧ r' = .error f) ∨ ∃ c c', r = .ok c ∧ r' = .ok c' ∧ c.Alike c' := by
  cases h with
  | loaded h => exact .inr ⟨_, _, rfl, rfl, h⟩
  | refl =>
    cases r with
    | error f => exact .inl ⟨f, rfl, rfl⟩
    | ok c => exact .inr ⟨c, c, rfl, rfl, .refl c⟩

variable {j : Job}

theorem StepsAlike.of_eq {p p' : Step j} (h : p = p') : StepsAlike p p' := by
  subst h
  cases p with
  | waiting x => exact .waiting (.refl x)
  | finished r => exact .finished (.refl r)

theorem Waiting.Alike.call {x x' : Waiting j} (h : x.Alike x') : x.call.Alike x'.call := by
  cases h with
  | token h rest => exact .token h
  | refl =>
    cases x with
    | options => exact .options
    | update name value rest => exact .update name value
    | status => exact .status
    | trigger => exact .trigger
    | closing message => exact .status

theorem loadResult_alike {a a' : Except Fault (Envelope Options)}
    (h : AnswersAlike Options.Alike a a') :
    @ResultsAlike .load (loadResult a) (loadResult a') := by
  cases h with
  | failures f f' => exact .refl _
  | envelopes success message h =>
    cases success with
    | false => exact .refl _
    | true =>
      cases h with
      | some h => exact .loaded h.config
      | none => exact .refl _

theorem resume_alike {x x' : Waiting j} (h : x.Alike x') {a : Answer x.call}
    {a' : Answer x'.call} (ha : Exchange.AnsweredAlike ⟨x.call, a⟩ ⟨x'.call, a'⟩) (s : State) :
    (resume x a s).1 = (resume x' a' s).1 ∧ StepsAlike (resume x a s).2 (resume x' a' s).2 := by
  cases h with
  | token h rest => exact ⟨rfl, .of_eq (ha.congr (resumeSave rest) fun _ _ => rfl)⟩
  | refl =>
    cases x with
    | options => exact ⟨rfl, .finished (loadResult_alike ha)⟩
    | update name value rest => exact ⟨rfl, .of_eq (ha.congr (resumeSave rest) fun _ _ => rfl)⟩
    | status =>
      exact ⟨rfl, .of_eq (congrArg Progress.finished (ha.congr statusResult fun _ _ => rfl))⟩
    | trigger => exact ⟨rfl, .of_eq (ha.congr resumeTrigger fun _ _ => rfl)⟩
    | closing message =>
      let report (r : Option Status) : Step .trigger := .finished (.ok (.completed message r))
      exact ⟨rfl, .of_eq (congrArg report (ha.congr statusResult fun _ _ => rfl))⟩

theorem updates_savedForm (c : Config) :
    (savedForm c).updates = (tokenOption, c.token) ::
      [(repoOption, c.repo), (intervalOption, intervalOrDefault (Text.trim c.interval))] := by
  simp only [savedForm, Config.updates]

theorem startSave_alike {c c' : Config} (h : c.Alike c') :
    StepsAlike (startSave c) (startSave c') := by
  rw [startSave, startSave, h.token.blank, h.repo]
  split
  · exact .finished (.refl _)
  · rw [updates_savedForm, updates_savedForm, saveRest, saveRest, h.repo, h.interval]
    exact .waiting (.token h.token _)

theorem startTrigger_alike {c c' : Config} (h : c.Alike c') (s : State) :
    startTrigger c s = startTrigger c' s := by
  have hcomplete : c.isComplete = c'.isComplete := by
    rw [Config.isComplete, Config.isComplete, h.token.start.isEmpty_eq, h.repo]
  rw [startTrigger, startTrigger, hcomplete]

end Backup.Panel

namespace CommandLine

open Conversation (InStep)

inductive Command.Alike : Command → Command → Prop
  | query {key key' : String} (h : SameStart (Text.trim key) (Text.trim key')) (page : UInt32) :
      Alike (.query key page) (.query key' page)
  | status : Alike .status .status
  | run : Alike .run .run
  | show : Alike .show .show
  | save {c c' : Config} (h : c.Alike c') : Alike (.save c) (.save c')

theorem finishJob_inStep {j : Job} (s : Backup.Panel.State) {p p' : Step j}
    (h : Backup.Panel.StepsAlike p p') :
    InStep (fun r r' => r.1 = r'.1 ∧ Backup.Panel.ResultsAlike r.2 r'.2)
      (finishJob Conversation.ask s p) (finishJob Conversation.ask s p') := by
  induction s, p using Backup.Panel.answers_induction generalizing p' with
  | finished s r =>
    cases h with
    | finished h =>
      rw [finishJob, finishJob]
      exact .done ⟨rfl, h⟩
  | waiting s x ih =>
    cases h with
    | waiting h =>
      rw [finishJob_waiting, finishJob_waiting]
      refine .ask_bind h.call fun a a' ha => ?_
      obtain ⟨hs, hp⟩ := Backup.Panel.resume_alike h ha s
      rw [← hs]
      exact ih a hp

theorem config_alike {c c' : Config} (h : c.Alike c') : Report.config c = Report.config c' := by
  rw [Report.config, Report.config, h.token.start.mask_eq, h.repo, h.interval]

theorem printed_sameStart {key key' : String} (h : SameStart key key') (summary : Quota.Summary)
    (page : UInt32) (data : Ledger.Page) (log : List (LogLevel × String)) :
    printed key summary page data log = printed key' summary page data log := by
  simp only [printed, Report.summary, Lookup.View.display, h.mask_eq]

theorem query_inStep {key key' : String} (h : SameStart (Text.trim key) (Text.trim key'))
    (page : UInt32) :
    InStep Eq (query Conversation.ask key page) (query Conversation.ask key' page) := by
  rw [query_eq, query_eq]
  simp only [h.eq_empty_iff, printed_sameStart h]
  split
  · exact .done rfl
  refine .ask_bind (.quota h) fun a a' ha => ?_
  rw [ha.congr Lookup.verdict fun _ _ => rfl]
  cases Lookup.verdict a' with
  | error f => exact .done rfl
  | ok summary =>
    refine .ask_bind (.history h 1 10) fun b b' hb => ?_
    rw [hb.congr answeredPage? fun _ _ => rfl]
    split
    · exact .done rfl
    split
    · refine .ask_bind (.history h page 10) fun c c' hc => ?_
      rw [hc.congr answeredPage? fun _ _ => rfl]
      exact .done rfl
    · exact .done rfl

theorem showConfig_inStep :
    InStep Eq (showConfig Conversation.ask) (showConfig Conversation.ask) := by
  refine (finishJob_inStep {} (.of_eq rfl)).bind fun (_, r) (_, r') ⟨_, hr⟩ => ?_
  obtain ⟨f, rfl, rfl⟩ | ⟨c, c', rfl, rfl, hc⟩ := hr.load
  · exact .done rfl
  · exact .done (by rw [config_alike hc])

theorem run_inStep : InStep Eq (run Conversation.ask) (run Conversation.ask) := by
  refine (finishJob_inStep {} (.of_eq rfl)).bind fun (s, r) (s', r') ⟨hs, hr⟩ => ?_
  obtain rfl : s = s' := hs
  obtain ⟨f, rfl, rfl⟩ | ⟨c, c', rfl, rfl, hc⟩ := hr.load
  · exact .done rfl
  · dsimp only
    rw [Backup.Panel.startTrigger_alike hc]
    refine (finishJob_inStep _ (.of_eq rfl)).bind fun (_, r) (_, r') ⟨_, hr⟩ => ?_
    cases hr
    exact .done rfl

theorem perform_inStep {c c' : Command} (h : c.Alike c') :
    InStep Eq (perform Conversation.ask c) (perform Conversation.ask c') := by
  cases h with
  | query h page => exact query_inStep h page
  | status =>
    refine (finishJob_inStep {} (.of_eq rfl)).bind fun (_, r) (_, r') ⟨_, hr⟩ => ?_
    cases hr
    exact .done rfl
  | run => exact run_inStep
  | «show» => exact showConfig_inStep
  | save h =>
    refine (finishJob_inStep {} (Backup.Panel.startSave_alike h)).bind
      fun (_, r) (_, r') ⟨_, hr⟩ => ?_
    cases hr
    cases r <;> exact .done rfl

variable {σ σ' : Type}

def said (service : (c : Call) → StateM σ (Answer c)) (c : Command) (s : σ) : List Exchange :=
  (perform (recorded service) c ([], s)).2.1

theorem said_eq (service : (c : Call) → StateM σ (Answer c)) (c : Command) (s : σ) :
    said service c s = (perform Conversation.ask c).exchanges service s := by
  rw [said, ← perform_heldWith, Conversation.heldWith_recorded, List.nil_append]

/-- Of a key or a token a command tells no more than four characters: it prints, logs and refuses
the same for another one that begins with them, as long as the services answer alike; and the calls
that it makes differ in nothing else. -/
theorem secrets_indistinguishable (service : (c : Call) → StateM σ (Answer c))
    (service' : (c : Call) → StateM σ' (Answer c)) (s : σ) (s' : σ') {c c' : Command}
    (hc : c.Alike c') (ha : AnsweredAlike (said service c s) (said service' c' s')) :
    (perform service c s).1 = (perform service' c' s').1 ∧
      List.Forall₂ (fun e e' => e.1.Alike e'.1) (said service c s) (said service' c' s') := by
  rw [said_eq, said_eq] at ha ⊢
  rw [← perform_heldWith service, ← perform_heldWith service']
  exact (perform_inStep hc).heldWith service service' s s' ha

theorem secrets_indistinguishable_saved :
    let demo : (c : Call) → StateM Demo.Store (Answer c) := Demo.answer "2025-01-01 00:00:00"
    let save (token : String) : Command := .save ⟨token, "acme/backup", ""⟩
    let kept (token : String) : Demo.Store :=
      { options := Options.insert tokenOption token [(Backup.repoOption, "acme/backup")] }
    (save "ghp_alpha").Alike (save "ghp_beta") ∧
      AnsweredAlike (said demo (save "ghp_alpha") {}) (said demo (save "ghp_beta") {}) ∧
      (perform demo (save "ghp_alpha") {}).1 = (perform demo (save "ghp_beta") {}).1 ∧
      AnsweredAlike (said demo .show (kept "ghp_alpha")) (said demo .show (kept "ghp_beta")) ∧
      (perform demo .show (kept "ghp_alpha")).1 = (perform demo .show (kept "ghp_beta")).1 ∧
      (perform demo .show (kept "ghp_beta")).1.output =
        "token:    ghp_****\nrepo:     acme/backup\ninterval: 300 seconds\n" := by
  intro demo save kept
  have htokens : Backup.TokensAlike "ghp_alpha" "ghp_beta" := ⟨by decide, by decide⟩
  have hsave : (save "ghp_alpha").Alike (save "ghp_beta") := .save ⟨htokens, rfl, rfl⟩
  have hsaved : AnsweredAlike (said demo (save "ghp_alpha") {})
      (said demo (save "ghp_beta") {}) := by
    have hsaid : ∀ token ∈ ["ghp_alpha", "ghp_beta"], said demo (save token) {} =
        (⟨token, "acme/backup", "300"⟩ : Config).updates.map
          fun u => ⟨.update u.1 u.2, .ok (.ok .null)⟩ := by
      simp only [List.forall_mem_cons]
      refine ⟨?_, ?_, List.forall_mem_nil _⟩ <;> with_unfolding_all rfl
    have hwritten : AnswersAlike Eq (.ok (.ok .null)) (.ok (.ok Json.Value.null)) :=
      .envelopes true none (.some rfl)
    rw [hsaid _ (by simp), hsaid _ (by simp)]
    exact ⟨fun _ => hwritten, fun _ => hwritten, fun _ => hwritten, trivial⟩
  have hshown : AnsweredAlike (said demo .show (kept "ghp_alpha"))
      (said demo .show (kept "ghp_beta")) := by
    have hsaid : ∀ token, said demo .show (kept token) =
        [⟨.options, .ok (.ok (kept token).options)⟩] := by
      intro token
      with_unfolding_all rfl
    rw [hsaid, hsaid]
    exact ⟨fun _ => .envelopes true none (.some (Options.alike_insert _ htokens)), trivial⟩
  exact ⟨hsave, hsaved, (secrets_indistinguishable demo demo _ _ hsave hsaved).1, hshown,
    (secrets_indistinguishable demo demo _ _ .show hshown).1, by decide +kernel⟩

end CommandLine
end QuotaDesk
