import QuotaDesk.Proofs.Lookup.Contended
import QuotaDesk.Proofs.Lookup.Marked
import QuotaDesk.Proofs.Text.Blank

/-! Outcomes that report no effect. A request that was turned away, a reply or a page request that
came too late and a page that failed say that nothing was brought, and the last step of their task
has indeed left the view and both counters as they were; only the marker of a failed page is taken
down. This holds of the steps of the controller, and of single accesses where tasks contend for the
lock: there a page request can be overtaken before it is sent. -/

namespace QuotaDesk.Lookup

variable {s s' : State} {r : Request} {x : Waiting} {o : Outcome}

inductive Ending (s : State) : Waiting → State → Outcome → Prop
  | late {x : Waiting} (h : ¬x.Current s) : Ending s x s x.lateOutcome
  | refused {key : String} {f : Fault} :
      Ending s (.summary key s.generation) (refused f s) (.refused f)
  | landed {key : String} {page size : UInt32} {chained : Bool} {data : Ledger.Page} :
      Ending s (.page key page size s.generation s.fetch chained) (landed page data s)
        (historyOutcome chained (.loaded page data.records.length))
  | failed {key : String} {page size : UInt32} {chained : Bool} {f : Fault} :
      Ending s (.page key page size s.generation s.fetch chained) (arrived s)
        (historyOutcome chained (.failed f))

theorem resume_ending {a : Answer (call x)} (h : resume x a s = (s', .finished o)) :
    Ending s x s' o := by
  by_cases hc : x.Current s
  · rcases hc.cases with ⟨key, rfl⟩ | ⟨key, page, size, chained, rfl⟩
    · rcases resume_summary key a s with ⟨message, summary, _, heq⟩ | ⟨_, f, heq⟩
      · rw [heq] at h
        cases h
      · rw [heq] at h
        cases h
        exact .refused
    · rcases resume_page key page size chained a s with ⟨message, data, _, heq⟩ | ⟨_, f, heq⟩
      · rw [heq] at h
        cases h
        exact .landed
      · rw [heq] at h
        cases h
        exact .failed
  · rw [resume_late hc] at h
    cases h
    exact .late hc

namespace Outcome

def TurnedAway (o : Outcome) : Prop :=
  o ∈ [.inFlight, .history .skipped, .history .outOfRange]

def Overtaken (o : Outcome) : Prop :=
  o ∈ [.superseded, .loaded .superseded, .history .superseded]

/-- A page could not be loaded, be it the one that follows a summary or another. -/
def Unloaded (o : Outcome) : Prop :=
  ∃ f, o ∈ [.loaded (.failed f), .history (.failed f)]

end Outcome

theorem AtOnce.eq_of_turnedAway (h : AtOnce s r s' o) (ho : o.TurnedAway) : s' = s := by
  cases h with
  | inFlight | skipped | outOfRange | snapshot => rfl
  | blank | take => simp [Outcome.TurnedAway] at ho

theorem AtOnce.in_time (h : AtOnce s r s' o) : ¬o.Overtaken ∧ ¬o.Unloaded := by
  cases h <;> simp [Outcome.Overtaken, Outcome.Unloaded]

theorem Ending.not_turnedAway (h : Ending s x s' o) : ¬o.TurnedAway := by
  cases h with
  | late => cases x with
    | summary => simp [Outcome.TurnedAway, Waiting.lateOutcome]
    | page key page size generation fetch chained =>
      cases chained <;> simp [Outcome.TurnedAway, Waiting.lateOutcome, historyOutcome]
  | refused => simp [Outcome.TurnedAway]
  | @landed _ _ _ chained | @failed _ _ _ chained =>
    cases chained <;> simp [Outcome.TurnedAway, historyOutcome]

theorem Ending.eq_of_overtaken (h : Ending s x s' o) (ho : o.Overtaken) : s' = s := by
  cases h with
  | late => rfl
  | refused => simp [Outcome.Overtaken] at ho
  | @landed _ _ _ chained | @failed _ _ _ chained =>
    cases chained <;> simp [Outcome.Overtaken, historyOutcome] at ho

theorem Ending.eq_of_unloaded (h : Ending s x s' o) (ho : o.Unloaded) :
    s' = arrived s ∧ ∃ key page size chained,
      x = .page key page size s.generation s.fetch chained := by
  obtain ⟨f, ho⟩ := ho
  cases h with
  | late => cases x with
    | summary => simp [Waiting.lateOutcome] at ho
    | page key page size generation fetch chained =>
      cases chained <;> simp [Waiting.lateOutcome, historyOutcome] at ho
  | refused => simp at ho
  | @landed _ _ _ chained => cases chained <;> simp [historyOutcome] at ho
  | failed => exact ⟨rfl, _, _, _, _, rfl⟩

section Step

variable {w : World controller} {e : Event controller} {n : Nat}

theorem step_turnedAway (hw : w.Numbered) (h : (n, o) ∈ (w.step e).2.finished)
    (ho : o.TurnedAway) : (∃ r, e = .request r) ∧ n = w.started ∧
      (w.step e).1 = { w with started := w.started + 1 } := by
  rcases World.finished_cases hw h with ⟨r, s, rfl, hn, hstart, hstep⟩ | ⟨t, r, s, _, _, _, hresume, _⟩
  · obtain rfl := (start_atOnce hstart).eq_of_turnedAway ho
    exact ⟨⟨r, rfl⟩, hn, hstep⟩
  · exact absurd ho (resume_ending hresume).not_turnedAway

theorem step_overtaken (hw : w.Numbered) (h : (n, o) ∈ (w.step e).2.finished)
    (ho : o.Overtaken) : (∃ t ∈ w.tasks, t.number = n ∧ ∃ r, e = .reply t.callNumber r) ∧
      (w.step e).1 = w.withoutTask n := by
  rcases World.finished_cases hw h with ⟨r, s, _, _, hstart, _⟩ | ⟨t, r, s, ht, he, rfl, hresume, hstep⟩
  · exact absurd ho (start_atOnce hstart).in_time.1
  · obtain rfl := (resume_ending hresume).eq_of_overtaken ho
    exact ⟨⟨t, ht, rfl, r, he⟩, hstep⟩

theorem step_unloaded (hw : Marked w) (h : (n, o) ∈ (w.step e).2.finished) (ho : o.Unloaded) :
    w.state.view.loadingHistory = true ∧
      (w.step e).1 = { w.withoutTask n with state := arrived w.state } := by
  rcases World.finished_cases hw.numbered h with
    ⟨r, s, _, _, hstart, _⟩ | ⟨t, r, s, ht, _, rfl, hresume, hstep⟩
  · exact absurd ho (start_atOnce hstart).in_time.2
  · obtain ⟨rfl, key, page, size, chained, hx⟩ := (resume_ending hresume).eq_of_unloaded ho
    have hfits := hw.fits t ht
    rw [hx] at hfits
    exact ⟨(hfits.2.2 rfl).2.2.2 rfl, hstep⟩

/-- Said of any request, so that the rules stay folded for those that are known. -/
theorem step_answered (hw : w.Numbered) (h : start r w.state = (s, .finished o)) :
    w.step (.request r) =
      ({ w with state := s, started := w.started + 1 }, { finished := [(w.started, o)] }) :=
  World.Numbered.step_answered hw h

theorem step_blank (hw : w.Numbered) {raw : String} (hkey : Text.isBlankText raw = true) :
    w.step (.request (.lookup raw)) =
      ({ w with
          state := { w.state with
            view := { w.state.view with notice := some ⟨.warning, keyRequired⟩ } },
          started := w.started + 1 },
        { finished := [(w.started, .refused (.validation keyRequired))] }) :=
  step_answered hw (start_blank ((Text.trim_eq_empty_iff raw).mpr hkey) w.state)

end Step

namespace Contended

variable {c c' : Contended} {k : Hold} {n : Nat}

theorem Ends.turnedAway (h : Ends c n o k c') (hc : c.Fresh) (ho : o.TurnedAway) :
    (∃ r, k = .request r) ∧ n = c.started ∧ c' = { c with started := c.started + 1 } := by
  cases h with
  | request hn h =>
    obtain rfl := h.eq_of_turnedAway ho
    subst hn
    rw [hc.without_started]
    exact ⟨⟨_, rfl⟩, rfl, rfl⟩
  | reply h => exact absurd ho (resume_ending h).not_turnedAway
  | @send chained hlate =>
    subst hlate
    cases chained <;> simp [Outcome.TurnedAway, historyOutcome] at ho

theorem Ends.overtaken (h : Ends c n o k c') (ho : o.Overtaken) :
    (k = .send n ∨ ∃ r, k = .reply n r) ∧ c' = c.without n := by
  cases h with
  | request hn h => exact absurd ho h.in_time.1
  | reply h =>
    obtain rfl := (resume_ending h).eq_of_overtaken ho
    exact ⟨.inr ⟨_, rfl⟩, rfl⟩
  | send => exact ⟨.inl rfl, rfl⟩

theorem Ends.unloaded (h : Ends c n o k c') (ho : o.Unloaded) :
    (∃ r, k = .reply n r) ∧ c' = { c.without n with state := arrived c.state } := by
  cases h with
  | request hn h => exact absurd ho h.in_time.2
  | reply h =>
    obtain ⟨rfl, -⟩ := (resume_ending h).eq_of_unloaded ho
    exact ⟨⟨_, rfl⟩, rfl⟩
  | @send chained hlate =>
    subst hlate
    obtain ⟨f, ho⟩ := ho
    cases chained <;> simp [historyOutcome] at ho

theorem Fresh.step_blank (hc : c.Fresh) {raw : String} (hkey : Text.isBlankText raw = true) :
    c.step (.request (.lookup raw)) =
      ({ c with
          state := { c.state with
            view := { c.state.view with notice := some ⟨.warning, keyRequired⟩ } },
          started := c.started + 1 },
        [(c.started, .refused (.validation keyRequired))]) := by
  have hstart := start_blank ((Text.trim_eq_empty_iff raw).mpr hkey) c.state
  have hstep := congrArg (fun p => { c with started := c.started + 1 }.place c.started p)
    (congrArg (staged Stage.called) hstart)
  have hstages : Function.update c.stages c.started none = c.stages :=
    congrArg stages hc.without_started
  refine hstep.trans ?_
  simp only [staged, Contended.place, Contended.without, hstages]
  rfl

end Contended

/-- Outcomes that report no effect have none. A request that was turned away ends in its first
step, which leaves everything as it was but the number of requests. A task that has been overtaken
is gone and nothing else has changed. A page that could not be loaded takes down the marker of its
request, and a lookup without a key shows a notice. So it is for the events of the controller, and
for single accesses of tasks that contend for the lock. -/
theorem outcomes_without_effect :
    (∀ (es : List (Event controller)) (k : Nat) (w : World controller) (e : Event controller),
      unused.Happens es k w e →
      (∀ n o, (n, o) ∈ (w.step e).2.finished → o.TurnedAway →
        (∃ r, e = .request r) ∧ n = w.started ∧
          (w.step e).1 = { w with started := w.started + 1 }) ∧
      (∀ n o, (n, o) ∈ (w.step e).2.finished → o.Overtaken →
        (∃ t ∈ w.tasks, t.number = n ∧ ∃ r, e = .reply t.callNumber r) ∧
          (w.step e).1 = w.withoutTask n) ∧
      (∀ n o, (n, o) ∈ (w.step e).2.finished → o.Unloaded →
        w.state.view.loadingHistory = true ∧
          (w.step e).1 = { w.withoutTask n with
            state := { w.state with view := { w.state.view with loadingHistory := false } } }) ∧
      ∀ raw, e = .request (.lookup raw) → Text.isBlankText raw = true →
        w.step e =
          ({ w with
              state := { w.state with
                view := { w.state.view with notice := some ⟨.warning, keyRequired⟩ } },
              started := w.started + 1 },
            { finished := [(w.started, .refused (.validation keyRequired))] })) ∧
    ∀ (hs : List Hold) (c : Contended) (h : Hold), ({} : Contended).after hs = c →
      (∀ n o, (n, o) ∈ (c.step h).2 → o.TurnedAway →
        (∃ r, h = .request r) ∧ n = c.started ∧
          (c.step h).1 = { c with started := c.started + 1 }) ∧
      (∀ n o, (n, o) ∈ (c.step h).2 → o.Overtaken →
        (h = .send n ∨ ∃ r, h = .reply n r) ∧ (c.step h).1 = c.without n) ∧
      (∀ n o, (n, o) ∈ (c.step h).2 → o.Unloaded →
        (∃ r, h = .reply n r) ∧
          (c.step h).1 = { c.without n with
            state := { c.state with view := { c.state.view with loadingHistory := false } } }) ∧
      ∀ raw, h = .request (.lookup raw) → Text.isBlankText raw = true →
        c.step h =
          ({ c with
              state := { c.state with
                view := { c.state.view with notice := some ⟨.warning, keyRequired⟩ } },
              started := c.started + 1 },
            [(c.started, .refused (.validation keyRequired))]) := by
  constructor
  · intro es k w e h
    have hmarked : Marked w := marked_of_happens h
    refine ⟨fun n o hend ho => step_turnedAway hmarked.numbered hend ho,
      fun n o hend ho => step_overtaken hmarked.numbered hend ho,
      fun n o hend ho => step_unloaded hmarked hend ho, ?_⟩
    rintro raw rfl hkey
    exact step_blank hmarked.numbered hkey
  · intro hs c h hc
    have hfresh : c.Fresh := hc ▸ Contended.Fresh.after (fun _ _ => rfl) hs
    refine ⟨fun n o hend ho => (Contended.ends_of_mem hend).turnedAway hfresh ho,
      fun n o hend ho => (Contended.ends_of_mem hend).overtaken ho,
      fun n o hend ho => (Contended.ends_of_mem hend).unloaded ho, ?_⟩
    rintro raw rfl hkey
    exact hfresh.step_blank hkey

def pageless : Reply
  | .quota _ => .ok ⟨true, none, some {}⟩
  | _ => .error (.transport historyFailed)

theorem outcomes_without_effect_pageless :
    let es : List (Event controller) :=
      [.request (.lookup "a"), .reply 0 pageless, .reply 1 pageless]
    let w := unused.after (es.take 2)
    let o : Outcome := .loaded (.failed (.transport historyFailed))
    let c := ({} : Contended).after
      [.request (.lookup "a"), .reply 0 pageless, .request (.lookup "b")]
    (unused.Happens es 2 w (.reply 1 pageless) ∧
      (0, o) ∈ (w.step (.reply 1 pageless)).2.finished ∧ o.Unloaded ∧
      w.state.view.loadingHistory = true ∧
      (w.step (.reply 1 pageless)).1 = { w.withoutTask 0 with
        state := { w.state with view := { w.state.view with loadingHistory := false } } }) ∧
    (0, Outcome.loaded .superseded) ∈ (c.step (.send 0)).2 ∧
      (c.step (.send 0)).1 = c.without 0 := by
  intro es w o c
  have h : unused.Happens es 2 w (.reply 1 pageless) := ⟨rfl, rfl⟩
  have hend : (0, o) ∈ (w.step (.reply 1 pageless)).2.finished := List.mem_cons_self
  have ho : o.Unloaded := ⟨_, List.mem_cons_self⟩
  have hsent : (0, Outcome.loaded .superseded) ∈ (c.step (.send 0)).2 := List.mem_cons_self
  have hlate : (Outcome.loaded .superseded).Overtaken := by simp [Outcome.Overtaken]
  exact ⟨⟨h, hend, ho, (outcomes_without_effect.1 es 2 w _ h).2.2.1 0 o hend ho⟩,
    hsent, ((outcomes_without_effect.2 _ c (.send 0) rfl).2.1 0 _ hsent hlate).2⟩

end QuotaDesk.Lookup
