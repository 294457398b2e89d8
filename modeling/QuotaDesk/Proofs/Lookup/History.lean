import QuotaDesk.Proofs.Lookup.Marked

/-! Lookups and page requests by the events that begin them. The two counters of a
lookup tell how its open calls stand to one another: a call carries the generation, or
the page count, of the event that opened it, and these numbers still agree with the
counters exactly when no later event has raised them. -/

namespace QuotaDesk.Lookup

/-- Event `k` is a lookup of `raw` that is accepted and waits as `t` for its summary. -/
def Accepts (es : List (Event controller)) (k : Nat) (raw : String) (t : Task controller) : Prop :=
  es[k]? = some (.request (.lookup raw)) ∧ unused.Opens es k t

/-- Event `k` sends the page request that `t` waits for. -/
def Dispatches (es : List (Event controller)) (k : Nat) (t : Task controller) : Prop :=
  unused.Opens es k t ∧ ∃ key page size, call t.waiting = .history key page size

/-- The last accepted lookup of the run, at event `k`. -/
def NewestLookup (es : List (Event controller)) (k : Nat) (raw : String) (t : Task controller) :
    Prop :=
  Accepts es k raw t ∧ ∀ i raw' u, k < i → ¬Accepts es i raw' u

/-- The last page request of the run, at event `k`. -/
def NewestFetch (es : List (Event controller)) (k : Nat) (t : Task controller) : Prop :=
  Dispatches es k t ∧ ∀ i u, k < i → ¬Dispatches es i u

section Step

variable {w : World controller} {e : Event controller} {t : Task controller}

theorem opened_cases (hw : w.Numbered) (h : (w.step e).2.opened = some t) :
    (∃ raw, e = .request (.lookup raw) ∧ Text.trim raw ≠ "" ∧
        t.waiting = .summary (Text.trim raw) (w.state.generation + 1) ∧
        (w.step e).1.state = accepted (Text.trim raw) w.state) ∨
      ∃ page chained s, (∀ raw, e ≠ .request (.lookup raw)) ∧ t.waiting = pageCall page chained s ∧
        (w.step e).1.state = asked s ∧ s.generation = w.state.generation ∧
        s.fetch = w.state.fetch := by
  have hturn := turn hw e
  generalize w.step e = p at hturn h ⊢
  cases hturn with
  | @accepted raw u hkey hfree hu =>
    obtain rfl : u = t := Option.some.inj h
    exact .inl ⟨raw, rfl, hkey, hu ▸ rfl, rfl⟩
  | @asked page u hkey hsummary hpage hu =>
    obtain rfl : u = t := Option.some.inj h
    exact .inr ⟨page, false, w.state, nofun, hu ▸ rfl, rfl, rfl, rfl⟩
  | @summarized _ u key r message summary ht hx hr hu =>
    obtain rfl : u = t := Option.some.inj h
    exact .inr ⟨1, true, Lookup.summarized summary w.state, nofun, hu ▸ rfl, rfl, rfl, rfl⟩
  | _ => cases h

theorem counters_of_opened_none (hw : w.Numbered) (h : (w.step e).2.opened = none) :
    (w.step e).1.state.generation = w.state.generation ∧
      (w.step e).1.state.fetch = w.state.fetch := by
  have hturn := turn hw e
  generalize w.step e = p at hturn h ⊢
  cases hturn with
  | accepted | asked | summarized => cases h
  | dropped ht =>
    obtain ⟨busy, loading, heq⟩ := release_eq _ w.state
    exact heq ▸ ⟨rfl, rfl⟩
  | _ => exact ⟨rfl, rfl⟩

theorem generation_step (hw : w.Numbered) (e : Event controller) :
    (w.step e).1.state.generation = w.state.generation ∧
        (∀ raw t, e = .request (.lookup raw) → (w.step e).2.opened ≠ some t) ∨
      (w.step e).1.state.generation = w.state.generation + 1 ∧
        ∃ raw t, e = .request (.lookup raw) ∧ (w.step e).2.opened = some t := by
  cases h : (w.step e).2.opened with
  | none => exact .inl ⟨(counters_of_opened_none hw h).1, nofun⟩
  | some t =>
    rcases opened_cases hw h with ⟨raw, he, _, _, hs⟩ | ⟨page, chained, s, he, _, hs, hg, _⟩
    · exact .inr ⟨hs ▸ rfl, raw, t, he, rfl⟩
    · exact .inl ⟨hs ▸ hg, fun raw _ heq => absurd heq (he raw)⟩

theorem fetch_step (hw : w.Numbered) (e : Event controller) :
    (w.step e).1.state.fetch = w.state.fetch ∧
        (∀ t key page size, (w.step e).2.opened = some t →
          call t.waiting ≠ .history key page size) ∨
      (w.step e).1.state.fetch = w.state.fetch + 1 ∧
        ∃ t key page size, (w.step e).2.opened = some t ∧
          call t.waiting = .history key page size := by
  cases h : (w.step e).2.opened with
  | none => exact .inl ⟨(counters_of_opened_none hw h).2, nofun⟩
  | some t =>
    rcases opened_cases hw h with ⟨raw, _, _, hx, hs⟩ | ⟨page, chained, s, _, hx, hs, _, hf⟩
    · refine .inl ⟨hs ▸ rfl, fun u key page size hu => ?_⟩
      obtain rfl := Option.some.inj hu
      rw [hx]
      exact nofun
    · have hcall : call t.waiting = .history s.view.key page s.view.paging.size := hx ▸ rfl
      exact .inr ⟨hs ▸ hf ▸ rfl, t, _, _, _, rfl, hcall⟩

end Step

variable {es : List (Event controller)} {k n : Nat} {t : Task controller}

theorem accepts_take {raw : String} :
    Accepts (es.take n) k raw t ↔ k < n ∧ Accepts es k raw t := by
  unfold Accepts
  rw [World.opens_take]
  constructor
  · rintro ⟨he, hk, hopens⟩
    exact ⟨hk, by rwa [List.getElem?_take_of_lt hk] at he, hopens⟩
  · rintro ⟨hk, he, hopens⟩
    exact ⟨by rwa [List.getElem?_take_of_lt hk], hk, hopens⟩

theorem dispatches_take : Dispatches (es.take n) k t ↔ k < n ∧ Dispatches es k t := by
  unfold Dispatches
  rw [World.opens_take, and_assoc]

theorem accepts_concat {e : Event controller} {raw : String} :
    Accepts (es ++ [e]) k raw t ↔ Accepts es k raw t ∨
      k = es.length ∧ e = .request (.lookup raw) ∧
        ((unused.after es).step e).2.opened = some t := by
  unfold Accepts
  rw [World.opens_concat]
  constructor
  · rintro ⟨he, hopens | ⟨rfl, hopens⟩⟩
    · rw [List.getElem?_append_left hopens.lt] at he
      exact .inl ⟨he, hopens⟩
    · rw [List.getElem?_concat_length] at he
      exact .inr ⟨rfl, Option.some.inj he, hopens⟩
  · rintro (⟨he, hopens⟩ | ⟨rfl, rfl, hopens⟩)
    · exact ⟨by rwa [List.getElem?_append_left hopens.lt], .inl hopens⟩
    · exact ⟨List.getElem?_concat_length, .inr ⟨rfl, hopens⟩⟩

theorem dispatches_concat {e : Event controller} :
    Dispatches (es ++ [e]) k t ↔ Dispatches es k t ∨
      k = es.length ∧ ((unused.after es).step e).2.opened = some t ∧
        ∃ key page size, call t.waiting = .history key page size := by
  unfold Dispatches
  rw [World.opens_concat, or_and_right, and_assoc]

theorem generation_le_step (es : List (Event controller)) (e : Event controller) :
    (unused.after es).state.generation ≤ ((unused.after es).step e).1.state.generation := by
  rcases generation_step (marked_after es).numbered e with ⟨h, _⟩ | ⟨h, _⟩
  · exact Nat.le_of_eq h.symm
  · exact h ▸ Nat.le_succ _

theorem fetch_le_step (es : List (Event controller)) (e : Event controller) :
    (unused.after es).state.fetch ≤ ((unused.after es).step e).1.state.fetch := by
  rcases fetch_step (marked_after es).numbered e with ⟨h, _⟩ | ⟨h, _⟩
  · exact Nat.le_of_eq h.symm
  · exact h ▸ Nat.le_succ _

theorem generation_eq_iff :
    (unused.after (es.take n)).state.generation = (unused.after es).state.generation ↔
      ∀ i raw t, n ≤ i → ¬Accepts es i raw t := by
  have hstep := fun es e => generation_step (marked_after es).numbered e
  rw [World.measure_eq_iff (f := fun w : World controller => w.state.generation)
    generation_le_step]
  constructor
  -- An accepted lookup raises the counter, and nothing else does.
  · rintro h i raw t hi ⟨he, v, e, hv, ht⟩
    have heq := h i v e hi hv
    obtain rfl := hv.world
    rcases hstep (es.take i) e with ⟨_, hno⟩ | ⟨hsucc, _⟩
    · exact hno raw t (Option.some.inj (hv.event.symm.trans he)) ht
    · omega
  · intro h i v e hi hv
    obtain rfl := hv.world
    rcases hstep (es.take i) e with ⟨heq, _⟩ | ⟨_, raw, t, rfl, ht⟩
    · exact heq
    · exact absurd ⟨hv.event, _, _, hv, ht⟩ (h i raw t hi)

theorem fetch_eq_iff :
    (unused.after (es.take n)).state.fetch = (unused.after es).state.fetch ↔
      ∀ i t, n ≤ i → ¬Dispatches es i t := by
  have hstep := fun es e => fetch_step (marked_after es).numbered e
  rw [World.measure_eq_iff (f := fun w : World controller => w.state.fetch) fetch_le_step]
  constructor
  · rintro h i t hi ⟨⟨v, e, hv, ht⟩, key, page, size, hcall⟩
    have heq := h i v e hi hv
    obtain rfl := hv.world
    rcases hstep (es.take i) e with ⟨_, hno⟩ | ⟨hsucc, _⟩
    · exact hno t key page size ht hcall
    · omega
  · intro h i v e hi hv
    obtain rfl := hv.world
    rcases hstep (es.take i) e with ⟨heq, _⟩ | ⟨_, t, key, page, size, ht, hcall⟩
    · exact heq
    · exact absurd ⟨⟨_, _, hv, ht⟩, key, page, size, hcall⟩ (h i t hi)

theorem accepts_of_opens_summary (h : unused.Opens es k t) {key : String} {generation : Nat}
    (hx : t.waiting = .summary key generation) :
    ∃ raw, Accepts es k raw t ∧ Text.trim raw = key ∧ key ≠ "" ∧
      (unused.after (es.take (k + 1))).state.generation = generation := by
  obtain ⟨v, e, hv, ht⟩ := id h
  have hnum : v.Numbered := (marked_of_happens hv).numbered
  rw [hv.after_take]
  rcases opened_cases hnum ht with ⟨raw, rfl, hkey, hw, hs⟩ | ⟨page, chained, s, _, hw, _⟩
  · rw [hx, Waiting.summary.injEq] at hw
    obtain ⟨rfl, rfl⟩ := hw
    exact ⟨raw, ⟨hv.event, h⟩, rfl, hkey, congrArg State.generation hs⟩
  · rw [hx] at hw
    cases hw

theorem dispatches_of_opens_page (h : unused.Opens es k t) {key : String} {page size : UInt32}
    {generation fetch : Nat} {chained : Bool}
    (hx : t.waiting = .page key page size generation fetch chained) :
    Dispatches es k t ∧ (unused.after (es.take (k + 1))).state.generation = generation ∧
      (unused.after (es.take (k + 1))).state.fetch = fetch := by
  obtain ⟨v, e, hv, ht⟩ := id h
  have hnum : v.Numbered := (marked_of_happens hv).numbered
  rw [hv.after_take]
  rcases opened_cases hnum ht with ⟨raw, _, _, hw, _⟩ | ⟨page', chained', s, _, hw, hs, _, _⟩
  · rw [hx] at hw
    cases hw
  · have hcall : call t.waiting = .history key page size := hx ▸ rfl
    rw [hx, pageCall, Waiting.page.injEq] at hw
    obtain ⟨_, _, _, rfl, rfl, _⟩ := hw
    exact ⟨⟨h, key, page, size, hcall⟩, hs ▸ rfl, hs ▸ rfl⟩

theorem Accepts.waiting {raw : String} (h : Accepts es k raw t) :
    Text.trim raw ≠ "" ∧ t.waiting =
      .summary (Text.trim raw) (unused.after (es.take (k + 1))).state.generation := by
  obtain ⟨he, v, e, hv, ht⟩ := h
  obtain rfl := Option.some.inj (hv.event.symm.trans he)
  have hnum : v.Numbered := (marked_of_happens hv).numbered
  rw [hv.after_take]
  rcases opened_cases hnum ht with ⟨raw', heq, hkey, hx, hs⟩ | ⟨_, _, _, hne, _⟩
  · cases heq
    have hgeneration := congrArg State.generation hs
    exact ⟨hkey, hx.trans (congrArg (Waiting.summary _) hgeneration.symm)⟩
  · exact absurd rfl (hne raw)

theorem Dispatches.waiting (h : Dispatches es k t) : ∃ key page size chained,
    t.waiting = .page key page size (unused.after (es.take (k + 1))).state.generation
      (unused.after (es.take (k + 1))).state.fetch chained := by
  obtain ⟨hopens, key, page, size, hcall⟩ := h
  cases hx : t.waiting with
  | summary key generation =>
    rw [hx] at hcall
    cases hcall
  | page key page size generation fetch chained =>
    obtain ⟨_, rfl, rfl⟩ := dispatches_of_opens_page hopens hx
    exact ⟨key, page, size, chained, rfl⟩

theorem generation_current_iff :
    (unused.after es).state.generation = (unused.after (es.take (k + 1))).state.generation ↔
      ∀ i raw t, k < i → ¬Accepts es i raw t := by
  rw [eq_comm, generation_eq_iff]
  rfl

theorem fetch_current_iff :
    (unused.after es).state.fetch = (unused.after (es.take (k + 1))).state.fetch ↔
      ∀ i t, k < i → ¬Dispatches es i t := by
  rw [eq_comm, fetch_eq_iff]
  rfl

theorem Dispatches.current_iff (h : Dispatches es k t) :
    Waiting.Current (unused.after es).state t.waiting ↔
      (∀ i raw u, k < i → ¬Accepts es i raw u) ∧ ∀ i u, k < i → ¬Dispatches es i u := by
  obtain ⟨key, page, size, chained, hx⟩ := h.waiting
  rw [hx]
  exact and_congr generation_current_iff fetch_current_iff

theorem newestLookup_of_live (ht : t ∈ (unused.after es).tasks) {key : String}
    (hx : t.waiting = .summary key (unused.after es).state.generation) :
    ∃ k raw, NewestLookup es k raw t := by
  obtain ⟨k, hopens⟩ := World.exists_opens (w := unused) rfl es t ht
  obtain ⟨raw, haccepts, _, _, hg⟩ := accepts_of_opens_summary hopens hx
  exact ⟨k, raw, haccepts, generation_current_iff.mp hg.symm⟩

theorem newestFetch_of_live (ht : t ∈ (unused.after es).tasks) {key : String}
    {page size : UInt32} {chained : Bool}
    (hx : t.waiting = .page key page size (unused.after es).state.generation
      (unused.after es).state.fetch chained) :
    ∃ k, NewestFetch es k t ∧ ∀ i raw u, k < i → ¬Accepts es i raw u := by
  obtain ⟨k, hopens⟩ := World.exists_opens (w := unused) rfl es t ht
  obtain ⟨hdispatches, hg, hf⟩ := dispatches_of_opens_page hopens hx
  exact ⟨k, ⟨hdispatches, fetch_current_iff.mp hf.symm⟩,
    generation_current_iff.mp hg.symm⟩

theorem NewestLookup.unique {i : Nat} {raw raw' : String} {u : Task controller}
    (h : NewestLookup es i raw t) (h' : NewestLookup es k raw' u) :
    i = k ∧ raw = raw' ∧ t = u := by
  have hik : i = k := by
    rcases Nat.lt_trichotomy i k with hlt | rfl | hlt
    · exact absurd h'.1 (h.2 k raw' u hlt)
    · rfl
    · exact absurd h.1 (h'.2 i raw t hlt)
  subst hik
  refine ⟨rfl, ?_, h.1.2.unique h'.1.2⟩
  have heq := h.1.1.symm.trans h'.1.1
  simpa using heq

theorem Dispatches.ne_accepts {i : Nat} {raw : String} {u : Task controller}
    (h : Dispatches es k t) (h' : Accepts es i raw u) : i ≠ k := by
  rintro rfl
  obtain ⟨key, page, size, chained, hx⟩ := h.waiting
  rw [h.1.unique h'.2, h'.waiting.2] at hx
  cases hx

end QuotaDesk.Lookup
