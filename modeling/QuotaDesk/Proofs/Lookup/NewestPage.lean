import QuotaDesk.Proofs.Lookup.History

/-! The newest page request wins. However many requests of a lookup are open at once, and
in whatever order they are answered, fail or are dropped, only the newest may land, so
that pages land in the order in which they were asked for. -/

namespace QuotaDesk.Lookup

/-- Event `l` is a success reply with `data` to the request for `page` that `t` waits for, and
the task ends with the page loaded. -/
def Lands (es : List (Event controller)) (l : Nat) (t : Task controller) (page : UInt32)
    (data : Option Ledger.Page) : Prop :=
  ∃ w r key size generation fetch chained message, unused.Replies es l w t r ∧
    t.waiting = .page key page size generation fetch chained ∧
    r (.history key page size) = .ok ⟨true, message, data⟩ ∧
    (w.step (.reply t.callNumber r)).2.finished =
      [(t.number, historyOutcome chained (.loaded page (data.getD {}).records.length))]

section Reply

variable {w : World controller} {t : Task controller}

theorem lateOutcome_ne_loaded (x : Waiting) (chained : Bool) (page : UInt32) (n : Nat) :
    x.lateOutcome ≠ historyOutcome chained (.loaded page n) := by
  cases x with
  | summary key generation => cases chained <;> exact nofun
  | page key page' size generation fetch chained' =>
    cases chained <;> cases chained' <;> exact nofun

theorem current_of_loaded (hw : w.Numbered) (ht : t ∈ w.tasks) {r : Reply} {chained : Bool}
    {page : UInt32} {n : Nat}
    (h : (w.step (.reply t.callNumber r)).2.finished =
      [(t.number, historyOutcome chained (.loaded page n))]) :
    Waiting.Current w.state t.waiting := by
  by_contra hlate
  rw [hw.step_reply ht, resumeTask_late hlate] at h
  have hout := congrArg Prod.snd (List.cons.inj h).1
  exact lateOutcome_ne_loaded _ _ _ _ hout

theorem step_landed (hw : w.Numbered) (ht : t ∈ w.tasks) {key : String} {page size : UInt32}
    {chained : Bool} {r : Reply} {message : Option String} {data : Option Ledger.Page}
    (hx : t.waiting = .page key page size w.state.generation w.state.fetch chained)
    (hr : r (.history key page size) = .ok ⟨true, message, data⟩) :
    w.step (.reply t.callNumber r) =
      ({ w.withoutTask t.number with state := landed page (data.getD {}) w.state },
        { finished := [(t.number,
            historyOutcome chained (.loaded page (data.getD {}).records.length))] }) := by
  rw [hw.step_reply ht]
  rcases resumeTask_page hx r with ⟨message', data', hr', h⟩ | ⟨hno, _⟩
  · rw [hr] at hr'
    cases hr'
    exact h
  · exact absurd hr (hno message data)

end Reply

variable {es : List (Event controller)} {k l k' l' : Nat} {t t' : Task controller}
  {page page' : UInt32} {data data' : Option Ledger.Page}

theorem lands_iff :
    Lands es l t page data ↔ ∃ w r key size chained message, unused.Replies es l w t r ∧
      t.waiting = .page key page size w.state.generation w.state.fetch chained ∧
      r (.history key page size) = .ok ⟨true, message, data⟩ := by
  constructor
  · rintro ⟨w, r, key, size, generation, fetch, chained, message, hreplies, hx, hr, hfinished⟩
    have hnum : w.Numbered := (marked_of_happens hreplies.happens).numbered
    have hcurrent := current_of_loaded hnum hreplies.live hfinished
    rw [hx] at hcurrent
    obtain ⟨rfl, rfl⟩ := hcurrent
    exact ⟨w, r, key, size, chained, message, hreplies, hx, hr⟩
  · rintro ⟨w, r, key, size, chained, message, hreplies, hx, hr⟩
    have hnum : w.Numbered := (marked_of_happens hreplies.happens).numbered
    exact ⟨w, r, key, size, _, _, chained, message, hreplies, hx, hr,
      congrArg (fun p => p.2.finished) (step_landed hnum hreplies.live hx hr)⟩

theorem Lands.step (h : Lands es l t page data) :
    ∃ w r chained, unused.Replies es l w t r ∧ Waiting.Current w.state t.waiting ∧
      w.step (.reply t.callNumber r) =
        ({ w.withoutTask t.number with state := landed page (data.getD {}) w.state },
          { finished := [(t.number,
              historyOutcome chained (.loaded page (data.getD {}).records.length))] }) := by
  obtain ⟨w, r, key, size, chained, message, hreplies, hx, hr⟩ := lands_iff.mp h
  have hnum : w.Numbered := (marked_of_happens hreplies.happens).numbered
  exact ⟨w, r, chained, hreplies, hx ▸ ⟨rfl, rfl⟩, step_landed hnum hreplies.live hx hr⟩

theorem Dispatches.current_at_iff {w : World controller} {r : Reply} (h : Dispatches es k t)
    (hreplies : unused.Replies es l w t r) :
    Waiting.Current w.state t.waiting ↔
      (∀ i raw u, k < i → i < l → ¬Accepts es i raw u) ∧
        ∀ i u, k < i → i < l → ¬Dispatches es i u := by
  have hworld := hreplies.happens.world
  have hkl : k < l := h.1.lt_of_mem marked_unused.numbered (hworld ▸ hreplies.live)
  have hiff := (dispatches_take.mpr ⟨hkl, h⟩).current_iff
  simp only [accepts_take, dispatches_take, hworld, not_and] at hiff
  exact hiff

theorem reply_superseded {w : World controller} {r : Reply} {m : Nat} {u : Task controller}
    (h : Dispatches es k t) (hreplies : unused.Replies es l w t r) (hkm : k < m) (hml : m < l)
    (hm : Dispatches es m u) :
    w.step (.reply t.callNumber r) =
      (w.withoutTask t.number, { finished := [(t.number, Waiting.lateOutcome t.waiting)] }) := by
  have hnum : w.Numbered := (marked_of_happens hreplies.happens).numbered
  rw [hnum.step_reply hreplies.live]
  refine resumeTask_late (fun hcurrent => ?_) _
  exact ((h.current_at_iff hreplies).mp hcurrent).2 m u hkm hml hm

theorem reply_newest {w : World controller} {r : Reply} {key : String} {page size : UInt32}
    {generation fetch : Nat} {chained : Bool} (h : Dispatches es k t)
    (hreplies : unused.Replies es l w t r)
    (hx : t.waiting = .page key page size generation fetch chained)
    (haccepts : ∀ m raw u, k < m → m < l → ¬Accepts es m raw u)
    (hdispatches : ∀ m u, k < m → m < l → ¬Dispatches es m u) :
    (∃ message data, r (.history key page size) = .ok ⟨true, message, data⟩ ∧
        Lands es l t page data) ∨
      (∀ message data, r (.history key page size) ≠ .ok ⟨true, message, data⟩) ∧
        ∃ f, w.step (.reply t.callNumber r) =
          ({ w.withoutTask t.number with state := arrived w.state },
            { finished := [(t.number, historyOutcome chained (.failed f))] }) := by
  have hnum : w.Numbered := (marked_of_happens hreplies.happens).numbered
  have hcurrent := (h.current_at_iff hreplies).mpr ⟨haccepts, hdispatches⟩
  rw [hx] at hcurrent
  obtain ⟨rfl, rfl⟩ := hcurrent
  rcases resumeTask_page hx r with ⟨message, data, hr, _⟩ | hfailed
  · exact .inl ⟨message, data, hr,
      lands_iff.mpr ⟨w, r, key, size, chained, message, hreplies, hx, hr⟩⟩
  · exact .inr (by rwa [hnum.step_reply hreplies.live])

theorem Lands.dispatched (h : Lands es l t page data) : ∃ k, k < l ∧ Dispatches es k t := by
  obtain ⟨w, r, key, size, chained, message, hreplies, hx, hr⟩ := lands_iff.mp h
  have hmem := hreplies.happens.world ▸ hreplies.live
  obtain ⟨k, hopens⟩ := World.exists_opens (w := unused) rfl (es.take l) t hmem
  have hk := dispatches_take.mp (dispatches_of_opens_page hopens hx).1
  exact ⟨k, hk⟩

theorem Lands.order (h : Lands es l t page data) (h' : Lands es l' t' page' data')
    (hk : Dispatches es k t) (hk' : Dispatches es k' t') (hlt : l < l') : k < k' := by
  obtain ⟨w, r, chained, hreplies, _, hstep⟩ := h.step
  obtain ⟨w', r', chained', hreplies', hcurrent, _⟩ := h'.step
  have hworld := hreplies.happens.world
  have hkl : k < l := hk.1.lt_of_mem marked_unused.numbered (hworld ▸ hreplies.live)
  have hle : k ≤ k' := by
    refine Nat.le_of_not_lt fun hlt' => ?_
    exact ((hk'.current_at_iff hreplies').mp hcurrent).2 k t hlt' (by omega) hk
  rcases Nat.lt_or_eq_of_le hle with hlt' | rfl
  · exact hlt'
  -- One request cannot land twice: its call is over after the first landing.
  · obtain rfl : t = t' := hk.1.unique hk'.1
    have hnum : w.Numbered := (marked_of_happens hreplies.happens).numbered
    have hgone : t ∉ (w.step (.reply t.callNumber r)).1.tasks := by
      rw [hstep]
      simp
    have hissued : t.callNumber < (w.step (.reply t.callNumber r)).1.issued := by
      rw [hstep]
      exact hnum.callNumber_lt t hreplies.live
    have hnot := World.not_mem_after (hnum.step _) hissued hgone ((es.take l').drop (l + 1))
    have htake : es.take (l + 1) = (es.take l').take (l + 1) := by
      rw [List.take_take, Nat.min_eq_left hlt]
    rw [← hreplies.happens.after_take, ← World.after_append, htake, List.take_append_drop,
      hreplies'.happens.world] at hnot
    exact absurd hreplies'.live hnot

theorem ledger_step {w : World controller} {e : Event controller}
    (h : unused.Happens es l w e) (haccepts : ∀ raw t, ¬Accepts es l raw t)
    (hlands : ∀ t page data, ¬Lands es l t page data) :
    (w.step e).1.state.view.ledger = w.state.view.ledger := by
  have hnum : w.Numbered := (marked_of_happens h).numbered
  have hturn := turn hnum e
  generalize hp : w.step e = p at hturn ⊢
  cases hturn with
  | @accepted raw t hkey hfree ht =>
    exact absurd ⟨h.event, w, _, h, congrArg (fun p => p.2.opened) hp⟩ (haccepts raw t)
  | landed ht hx hr =>
    exact absurd (lands_iff.mpr ⟨_, _, _, _, _, _, ⟨h, ht⟩, hx, hr⟩) (hlands _ _ _)
  | dropped ht =>
    obtain ⟨busy, loading, heq⟩ := release_eq _ w.state
    exact heq ▸ rfl
  | _ => rfl

theorem ledger_after_take {n : Nat} (haccepts : ∀ i raw u, n ≤ i → ¬Accepts es i raw u)
    (hlands : ∀ i u page data, n ≤ i → ¬Lands es i u page data) :
    (unused.after es).state.view.ledger = (unused.after (es.take n)).state.view.ledger := by
  refine (World.after_take_eq (f := fun w : World controller => w.state.view.ledger) ?_).symm
  intro i w e hi h
  exact ledger_step h (fun raw u => haccepts i raw u hi) fun u page data => hlands i u page data hi

theorem ledger_of_lands (h : Lands es l t page data)
    (haccepts : ∀ i raw u, l < i → ¬Accepts es i raw u)
    (hlast : ∀ i u page data, l < i → ¬Lands es i u page data) :
    (unused.after es).state.view.ledger =
      ((data.getD {}).records, (data.getD {}).total, page) := by
  obtain ⟨w, r, chained, hreplies, _, hstep⟩ := h.step
  rw [ledger_after_take (n := l + 1) haccepts hlast, hreplies.happens.after_take, hstep]
  rfl

theorem unpaged_of_not_lands {raw : String} (h : NewestLookup es k raw t)
    (hnone : ∀ i u page data, k < i → ¬Lands es i u page data) :
    (unused.after es).state.view.Unpaged := by
  obtain ⟨⟨he, w, e, hv, ht⟩, hlast⟩ := h
  obtain rfl := Option.some.inj (hv.event.symm.trans he)
  have hnum : w.Numbered := (marked_of_happens hv).numbered
  unfold View.Unpaged
  rw [ledger_after_take (n := k + 1) hlast hnone, hv.after_take]
  rcases opened_cases hnum ht with ⟨raw', _, _, _, hs⟩ | ⟨_, _, _, hne, _⟩
  · rw [hs]
    rfl
  · exact absurd rfl (hne raw)

/-- The newest page request wins. A request whose reply comes after a later one was sent is
superseded, whatever has become of the later one. One that is still the newest of the
newest lookup lands if the reply is a success, and fails otherwise. Nothing but a landing
changes the ledger of a lookup, pages land in the order in which they were asked for, and
the ledger on show is that of the last landing. -/
theorem newest_page_wins (es : List (Event controller)) :
    (∀ k l t w r, Dispatches es k t → unused.Replies es l w t r →
      ∃ key page size generation fetch chained,
        t.waiting = .page key page size generation fetch chained ∧
        ((∃ m u, k < m ∧ m < l ∧ Dispatches es m u) →
          w.step (.reply t.callNumber r) =
            (w.withoutTask t.number,
              { finished := [(t.number, historyOutcome chained .superseded)] })) ∧
        ((∀ m raw u, k < m → m < l → ¬Accepts es m raw u) →
          (∀ m u, k < m → m < l → ¬Dispatches es m u) →
          (∃ message data, r (.history key page size) = .ok ⟨true, message, data⟩ ∧
              Lands es l t page data) ∨
            (∀ message data, r (.history key page size) ≠ .ok ⟨true, message, data⟩) ∧
              ∃ f, w.step (.reply t.callNumber r) =
                ({ w.withoutTask t.number with state := arrived w.state },
                  { finished := [(t.number, historyOutcome chained (.failed f))] }))) ∧
      (∀ l w e, unused.Happens es l w e → (∀ raw t, ¬Accepts es l raw t) →
        (∀ t page data, ¬Lands es l t page data) →
        (w.step e).1.state.view.ledger = w.state.view.ledger) ∧
      (∀ l t page data, Lands es l t page data → ∃ k, k < l ∧ Dispatches es k t) ∧
      (∀ k k' l l' t t' page page' data data', Lands es l t page data →
        Lands es l' t' page' data' → Dispatches es k t → Dispatches es k' t' → l < l' → k < k') ∧
      (∀ l t page data, Lands es l t page data → (∀ i raw u, l < i → ¬Accepts es i raw u) →
        (∀ i u page data, l < i → ¬Lands es i u page data) →
        (unused.after es).state.view.ledger =
          ((data.getD {}).records, (data.getD {}).total, page)) ∧
      ∀ k raw t, NewestLookup es k raw t → (∀ i u page data, k < i → ¬Lands es i u page data) →
        (unused.after es).state.view.Unpaged := by
  refine ⟨?_, fun l w e => ledger_step, fun l t page data => Lands.dispatched, ?_,
    fun l t page data => ledger_of_lands, fun k raw t => unpaged_of_not_lands⟩
  · intro k l t w r hk hreplies
    obtain ⟨key, page, size, chained, hx⟩ := hk.waiting
    refine ⟨key, page, size, _, _, chained, hx, ?_, fun haccepts hdispatches =>
      reply_newest hk hreplies hx haccepts hdispatches⟩
    rintro ⟨m, u, hkm, hml, hm⟩
    rw [reply_superseded hk hreplies hkm hml hm, hx]
    rfl
  · intro k k' l l' t t' page page' data data' h h' hk hk'
    exact h.order h' hk hk'

def known : Reply
  | .quota _ => .ok ⟨true, none, some {}⟩
  | .history .. => .ok ⟨true, none, none⟩
  | _ => .error (.transport historyFailed)

theorem newest_page_wins_chained :
    let es : List (Event controller) :=
      [.request (.lookup "a"), .reply 0 known, .request (.load 1), .reply 1 known]
    let w := unused.after (es.take 3)
    let t : Task controller := ⟨0, 1, .page "a" 1 10 1 1 true⟩
    let u : Task controller := ⟨1, 2, .page "a" 1 10 1 2 false⟩
    Dispatches es 1 t ∧ Dispatches es 2 u ∧ unused.Replies es 3 w t known ∧
      w.step (.reply 1 known) =
        (w.withoutTask 0, { finished := [(0, .loaded .superseded)] }) := by
  intro es w t u
  have ht : Dispatches es 1 t := ⟨⟨_, _, ⟨rfl, rfl⟩, rfl⟩, "a", 1, 10, rfl⟩
  have hu : Dispatches es 2 u := ⟨⟨_, _, ⟨rfl, rfl⟩, rfl⟩, "a", 1, 10, rfl⟩
  have hreplies : unused.Replies es 3 w t known := ⟨⟨rfl, rfl⟩, List.mem_cons_self⟩
  refine ⟨ht, hu, hreplies, ?_⟩
  obtain ⟨key, page, size, generation, fetch, chained, hx, hlate, _⟩ :=
    (newest_page_wins es).1 1 3 t w known ht hreplies
  cases hx
  exact hlate ⟨2, u, by decide, by decide, hu⟩

end QuotaDesk.Lookup
