import QuotaDesk.Proofs.Lookup.Outcomes
import QuotaDesk.Proofs.Lookup.Verdict

/-! How long a notice is shown. A lookup sets one when it has no key or, if it is the newest, when
it gets its answer; taking the view and accepting a lookup take it down. No other event touches it,
so the notice on show is the last one that was set, unless it has been taken down since. -/

namespace QuotaDesk.Lookup

inductive Sets (es : List (Event controller)) (k : Nat) : Notice → Prop
  | blank {raw : String} (he : es[k]? = some (.request (.lookup raw)))
      (hkey : Text.isBlankText raw = true) : Sets es k ⟨.warning, keyRequired⟩
  | answered {i : Nat} {raw : String} {w : World controller} {t : Task controller} {r : Reply}
      (h : unused.Replies es k w t r) (hnewest : NewestLookup (es.take k) i raw t) :
      Sets es k (verdictNotice (r (.quota (Text.trim raw))))

inductive Clears (es : List (Event controller)) (k : Nat) : Prop
  | taken (he : es[k]? = some (.request .take))
  | accepted {raw : String} {t : Task controller} (h : Accepts es k raw t)

/-- Event `k` set the notice `n`, and no later event has set another or taken it down. -/
structure SetLast (es : List (Event controller)) (k : Nat) (n : Notice) : Prop where
  sets : Sets es k n
  last : ∀ i m, k < i → ¬Sets es i m
  kept : ∀ i, k < i → ¬Clears es i

/-- The task was overtaken, its request was one too many, or it ends with the news of a page. -/
def Outcome.Silent (o : Outcome) : Prop :=
  o = .superseded ∨ o = .inFlight ∨ ∃ h, o = .loaded h ∨ o = .history h

variable {es : List (Event controller)} {k l : Nat} {n : Notice} {w : World controller}
  {e : Event controller}

theorem Sets.lt (h : Sets es k n) : k < es.length := by
  cases h with
  | blank he => exact (List.getElem?_eq_some_iff.mp he).1
  | answered h => exact h.happens.lt

theorem Clears.lt (h : Clears es k) : k < es.length := by
  cases h with
  | taken he => exact (List.getElem?_eq_some_iff.mp he).1
  | accepted h => exact h.2.lt

theorem sets_take_iff (hk : k < l) : Sets (es.take l) k n ↔ Sets es k n := by
  have htake : (es.take l).take k = es.take k := by
    rw [List.take_take, Nat.min_eq_left (Nat.le_of_lt hk)]
  constructor
  · intro h
    cases h with
    | blank he hkey => exact .blank ((List.getElem?_take_of_lt hk).symm.trans he) hkey
    | answered h hnewest => exact .answered (World.replies_take.mp h).2 (htake ▸ hnewest)
  · intro h
    cases h with
    | blank he hkey => exact .blank ((List.getElem?_take_of_lt hk).trans he) hkey
    | answered h hnewest =>
      rw [← htake] at hnewest
      exact .answered (World.replies_take.mpr ⟨hk, h⟩) hnewest

theorem clears_take_iff (hk : k < l) : Clears (es.take l) k ↔ Clears es k := by
  constructor
  · intro h
    cases h with
    | taken he => exact .taken ((List.getElem?_take_of_lt hk).symm.trans he)
    | accepted h => exact .accepted (accepts_take.mp h).2
  · intro h
    cases h with
    | taken he => exact .taken ((List.getElem?_take_of_lt hk).trans he)
    | accepted h => exact .accepted (accepts_take.mpr ⟨hk, h⟩)

theorem SetLast.concat (h : SetLast es k n) (hsets : ∀ m, ¬Sets (es ++ [e]) es.length m)
    (hclears : ¬Clears (es ++ [e]) es.length) : SetLast (es ++ [e]) k n := by
  have hpast : (es ++ [e]).take es.length = es := List.take_left' rfl
  have hlast : ∀ i, i < (es ++ [e]).length → i < es.length ∨ i = es.length := by
    intro i hi
    rw [List.length_append, List.length_singleton] at hi
    exact Nat.lt_or_eq_of_le (Nat.le_of_lt_succ hi)
  refine ⟨?_, fun i m hi hm => ?_, fun i hi hc => ?_⟩
  · rw [← sets_take_iff h.sets.lt, hpast]
    exact h.sets
  · rcases hlast i hm.lt with hlt | rfl
    · rw [← sets_take_iff hlt, hpast] at hm
      exact h.last i m hi hm
    · exact hsets m hm
  · rcases hlast i hc.lt with hlt | rfl
    · rw [← clears_take_iff hlt, hpast] at hc
      exact h.kept i hi hc
    · exact hclears hc

theorem step_take (hw : w.Numbered) :
    w.step (.request .take) =
      ({ w with
          state := { w.state with view := { w.state.view with notice := none } },
          started := w.started + 1 },
        { finished := [(w.started, .view w.state.view)] }) :=
  step_answered hw rfl

theorem Sets.step (h : Sets es k n) (hw : unused.Happens es k w e) :
    (w.step e).1.state.view.notice = some n ∧
      ∀ p ∈ (w.step e).2.finished, ∃ f, p.2 = .refused f := by
  have hnumbered := (marked_of_happens hw).numbered
  cases h with
  | blank he hkey =>
    obtain rfl := Option.some.inj (hw.event.symm.trans he)
    rw [step_blank hnumbered hkey]
    refine ⟨rfl, fun p hp => ?_⟩
    obtain rfl := List.mem_singleton.mp hp
    exact ⟨_, rfl⟩
  | @answered i raw v t r h hnewest =>
    obtain ⟨rfl, rfl⟩ := hw.unique h.happens
    obtain rfl := h.happens.world
    rw [step_verdict hnumbered h.live hnewest.waiting r, verdictNotice]
    cases verdict (r (.quota (Text.trim raw))) with
    | ok summary => exact ⟨rfl, fun p hp => absurd hp List.not_mem_nil⟩
    | error f =>
      refine ⟨rfl, fun p hp => ?_⟩
      obtain rfl := List.mem_singleton.mp hp
      exact ⟨f, rfl⟩

theorem Clears.step (h : Clears es k) (hw : unused.Happens es k w e) :
    (w.step e).1.state.view.notice = none ∧
      ∀ p ∈ (w.step e).2.finished, ∃ v, p.2 = .view v := by
  have hnumbered := (marked_of_happens hw).numbered
  cases h with
  | taken he =>
    obtain rfl := Option.some.inj (hw.event.symm.trans he)
    rw [step_take hnumbered]
    refine ⟨rfl, fun p hp => ?_⟩
    obtain rfl := List.mem_singleton.mp hp
    exact ⟨_, rfl⟩
  | @accepted raw t h =>
    obtain ⟨he, v, f, hv, ht⟩ := h
    obtain ⟨rfl, rfl⟩ := hw.unique hv
    obtain rfl := Option.some.inj (hw.event.symm.trans he)
    have hturn := turn hnumbered (.request (.lookup raw))
    generalize w.step (.request (.lookup raw)) = p at hturn ht ⊢
    cases hturn with
    | accepted => exact ⟨rfl, fun p hp => absurd hp List.not_mem_nil⟩
    | idle | immediate => cases ht

theorem notice_step (hw : unused.Happens es k w e) (hsets : ∀ n, ¬Sets es k n)
    (hclears : ¬Clears es k) : (w.step e).1.state.view.notice = w.state.view.notice := by
  have hmarked : Marked w := marked_of_happens hw
  -- A reply to the newest lookup would set a notice.
  have hanswer : ∀ t ∈ w.tasks, ∀ key r, e = .reply t.callNumber r →
      t.waiting ≠ .summary key w.state.generation := by
    rintro t ht key r rfl hx
    obtain rfl := hw.world
    obtain ⟨i, raw, hnewest⟩ := newestLookup_of_live ht hx
    exact hsets _ (.answered ⟨hw, ht⟩ hnewest)
  have hturn := turn hmarked.numbered e
  generalize hp : w.step e = p at hturn ⊢
  cases hturn with
  | idle | asked | late | landed | failed => rfl
  | @immediate r o m h =>
    generalize hs : { w.state with view := { w.state.view with notice := m } } = s' at h
    cases start_atOnce h with
    | blank hkey =>
      exact absurd (.blank hw.event ((Text.trim_eq_empty_iff _).mp hkey)) (hsets _)
    | take => exact absurd (.taken hw.event) hclears
    | inFlight | skipped | outOfRange | snapshot => rfl
  | @accepted raw t =>
    have hopens : (w.step (.request (.lookup raw))).2.opened = some t := hp ▸ rfl
    exact absurd (.accepted ⟨hw.event, w, _, hw, hopens⟩) hclears
  | summarized ht hx => exact absurd hx (hanswer _ ht _ _ rfl)
  | refused ht hx => exact absurd hx (hanswer _ ht _ _ rfl)
  | @dropped t ht =>
    obtain ⟨busy, loading, heq⟩ := release_eq t.waiting w.state
    exact congrArg (·.view.notice) heq

theorem SetLast.shown (h : SetLast es k n) : (unused.after es).state.view.notice = some n := by
  have hk : k < es.length := h.sets.lt
  have hw : unused.Happens es k (unused.after (es.take k)) es[k] :=
    ⟨List.getElem?_eq_getElem hk, rfl⟩
  have hkept : (unused.after (es.take (k + 1))).state.view.notice =
      (unused.after es).state.view.notice :=
    World.after_take_eq (f := fun w : World controller => w.state.view.notice)
      fun i v e hi hv => notice_step hv (fun m => h.last i m hi) (h.kept i hi)
  rw [← hkept, hw.after_take]
  exact (h.sets.step hw).1

theorem exists_setLast (h : (unused.after es).state.view.notice = some n) :
    ∃ k, SetLast es k n := by
  -- Along the run, by what its last event does to the notice.
  induction es using List.reverseRecOn with
  | nil => cases h
  | append_singleton es e ih =>
    have hw : unused.Happens (es ++ [e]) es.length (unused.after es) e :=
      World.happens_concat.mpr (.inr ⟨rfl, rfl, rfl⟩)
    have hend : ∀ i, es.length < i → ¬i < (es ++ [e]).length := by
      intro i hi
      rw [List.length_append, List.length_singleton]
      omega
    rw [World.after_concat] at h
    by_cases hclears : Clears (es ++ [e]) es.length
    · rw [(hclears.step hw).1] at h
      cases h
    by_cases hsets : ∃ m, Sets (es ++ [e]) es.length m
    · obtain ⟨m, hm⟩ := hsets
      obtain rfl := Option.some.inj ((hm.step hw).1.symm.trans h)
      exact ⟨_, hm, fun i m hi hi' => hend i hi hi'.lt, fun i hi hi' => hend i hi hi'.lt⟩
    · rw [notice_step hw (not_exists.mp hsets) hclears] at h
      obtain ⟨k, hk⟩ := ih h
      exact ⟨k, hk.concat (not_exists.mp hsets) hclears⟩

theorem exists_sets_between {i j : Nat} {v : World controller} (hij : i < j)
    (hi : unused.Happens es i v (.request .take)) (hj : unused.Happens es j w (.request .take))
    (hn : w.state.view.notice = some n) : ∃ k, i < k ∧ k < j ∧ Sets es k n := by
  rw [← hj.world] at hn
  obtain ⟨k, hset⟩ := exists_setLast hn
  have hk : k < j := by
    have hlt := hset.sets.lt
    rw [List.length_take] at hlt
    omega
  have hsets : Sets es k n := (sets_take_iff hk).mp hset.sets
  -- The first of the two would have taken down a notice set before it.
  have hle : i ≤ k := by
    refine Nat.le_of_not_lt fun hlt => hset.kept i hlt ?_
    rw [clears_take_iff hij]
    exact .taken hi.event
  refine ⟨k, Nat.lt_of_le_of_ne hle ?_, hk, hsets⟩
  rintro rfl
  obtain ⟨f, hf⟩ := (hsets.step hi).2 (v.started, .view v.state.view) <| by
    rw [step_take (marked_of_happens hi).numbered]
    exact List.mem_singleton_self _
  cases hf

theorem not_sets_and_not_clears_of_silent (hw : unused.Happens es k w e)
    (h : (∃ t, e = .cancel t) ∨ ∃ p ∈ (w.step e).2.finished, p.2.Silent) :
    (∀ n, ¬Sets es k n) ∧ ¬Clears es k := by
  constructor
  · intro n hn
    rcases h with ⟨t, rfl⟩ | ⟨p, hp, hsilent⟩
    · cases hn with
      | blank he => cases hw.event.symm.trans he
      | answered h => cases hw.event.symm.trans h.happens.event
    · obtain ⟨f, hf⟩ := (hn.step hw).2 p hp
      simp [hf, Outcome.Silent] at hsilent
  · intro hc
    rcases h with ⟨t, rfl⟩ | ⟨p, hp, hsilent⟩
    · cases hc with
      | taken he => cases hw.event.symm.trans he
      | accepted h => cases hw.event.symm.trans h.1
    · obtain ⟨v, hv⟩ := (hc.step hw).2 p hp
      simp [hv, Outcome.Silent] at hsilent

/-- A notice is handed out at most once and lost only to another. The one on show is the last one
that was set, unless the view has been taken or a lookup accepted since. Taking the view hands it
out as it is and leaves it without a notice, so that of two takings the later one finds a notice
only if one was set in between; and a task that is dropped, overtaken or one too many leaves the
notice alone, as does a page. -/
theorem notice_delivered_once (es : List (Event controller)) :
    (∀ n, (unused.after es).state.view.notice = some n ↔ ∃ k, SetLast es k n) ∧
    (∀ k w, unused.Happens es k w (.request .take) →
      w.step (.request .take) =
        ({ w with
            state := { w.state with view := { w.state.view with notice := none } },
            started := w.started + 1 },
          { finished := [(w.started, .view w.state.view)] })) ∧
    (∀ i j v w n, i < j → unused.Happens es i v (.request .take) →
      unused.Happens es j w (.request .take) → w.state.view.notice = some n →
      ∃ k, i < k ∧ k < j ∧ Sets es k n) ∧
    ∀ k w e, unused.Happens es k w e →
      ((∃ t, e = .cancel t) ∨ ∃ p ∈ (w.step e).2.finished, p.2.Silent) →
      (∀ n, ¬Sets es k n) ∧ ¬Clears es k ∧
        (w.step e).1.state.view.notice = w.state.view.notice := by
  refine ⟨fun n => ⟨exists_setLast, fun ⟨k, h⟩ => h.shown⟩,
    fun k w hw => step_take (marked_of_happens hw).numbered,
    fun i j v w n hij hi hj hn => exists_sets_between hij hi hj hn, fun k w e hw h => ?_⟩
  obtain ⟨hsets, hclears⟩ := not_sets_and_not_clears_of_silent hw h
  exact ⟨hsets, hclears, notice_step hw hsets hclears⟩

end QuotaDesk.Lookup
