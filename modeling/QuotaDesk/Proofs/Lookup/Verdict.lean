import QuotaDesk.Client.Basic
import QuotaDesk.Wire.Encode
import QuotaDesk.Proofs.Json.Print
import QuotaDesk.Proofs.Lookup.InFlight

/-! What the answer about a key comes to. An envelope counts whatever the status it came with, and
the fault that a lookup ends with is the one that its notice is made of. While the newest lookup
waits for the answer, the view holds nothing but its key, so the answer decides all that is shown. -/

namespace QuotaDesk.Lookup

def verdict : Except Fault (Envelope Quota.Summary) → Except Fault Quota.Summary
  | .ok ⟨true, _, some summary⟩ => .ok summary
  | .ok ⟨true, _, none⟩ => .error (.logical queryFailed)
  | .ok ⟨false, some message, _⟩ =>
    .error (.logical (if Text.isBlankText message then queryFailed else message))
  | .ok ⟨false, none, _⟩ => .error (.logical queryFailed)
  | .error _ => .error (.transport queryUnreachable)

def verdictNotice (a : Except Fault (Envelope Quota.Summary)) : Notice :=
  match verdict a with
  | .ok _ => ⟨.success, querySucceeded⟩
  | .error f => .ofFault f

theorem verdict_decode (key : String) (status : Nat) (body : List UInt8) :
    verdict (Client.decode ⟨status, body⟩ (.quota key)) =
      match (Json.Tree.parse? body).bind (Wire.envelope? Wire.summary?) with
      | some e => verdict (.ok e)
      | none => .error (.transport queryUnreachable) := by
  show verdict (Wire.answer Wire.summary? status body) = _
  rw [Wire.answer]
  cases (Json.Tree.parse? body).bind (Wire.envelope? Wire.summary?) with
  | some e => rfl
  | none => by_cases hs : 200 ≤ status ∧ status < 300 <;> simp only [hs, if_false] <;> rfl

theorem settleSummary_verdict (a : Except Fault (Envelope Quota.Summary)) (s : State) :
    settleSummary s.generation a s =
      match verdict a with
      | .ok summary => (summarized summary s, .waiting ⟨1, s.generation, true⟩)
      | .error f => (refused f s, .finished (.refused f)) := by
  have hcurrent : ¬s.generation ≠ s.generation := not_not_intro rfl
  rcases a with f | ⟨_ | _, _ | message, _ | data⟩
  all_goals exact if_neg hcurrent

theorem resume_verdict (key : String) (a : Answer (.quota key)) (s : State) :
    resume (.summary key s.generation) a s =
      match verdict a with
      | .ok summary =>
        (asked (summarized summary s), .waiting (pageCall 1 true (summarized summary s)))
      | .error f => (refused f s, .finished (.refused f)) := by
  refine (congrArg thenFetch (settleSummary_verdict a s)).trans ?_
  cases verdict a with
  | ok summary => exact fetchPage_current 1 true (summarized summary s)
  | error f => rfl

theorem step_verdict {w : World controller} {t : Task controller} {key : String} (hw : w.Numbered)
    (ht : t ∈ w.tasks) (hx : t.waiting = .summary key w.state.generation) (r : Reply) :
    w.step (.reply t.callNumber r) = w.place t.number
      (match verdict (r (.quota key)) with
      | .ok summary => (asked (summarized summary w.state),
          .waiting (pageCall 1 true (summarized summary w.state)))
      | .error f => (refused f w.state, .finished (.refused f))) := by
  rw [hw.step_reply ht]
  obtain ⟨n, c, x⟩ := t
  subst hx
  exact congrArg (World.place n w) (resume_verdict key (r (.quota key)) w.state)

variable {es : List (Event controller)} {k : Nat} {raw : String} {t : Task controller}

theorem NewestLookup.waiting (h : NewestLookup es k raw t) :
    t.waiting = .summary (Text.trim raw) (unused.after es).state.generation := by
  rw [generation_current_iff.mpr h.2]
  exact h.1.waiting.2

theorem view_of_awaits (ht : t ∈ (unused.after es).tasks) (h : NewestLookup es k raw t) :
    (unused.after es).state.view =
      { key := Text.trim raw, busy := true, notice := (unused.after es).state.view.notice } := by
  have hmarked := marked_after es
  have hfits := hmarked.fits t ht
  rw [h.waiting] at hfits
  obtain ⟨hbusy, hkey, hsummary⟩ := hfits.2 rfl
  have hunpaged := hmarked.unpaged hsummary
  have hsize := hmarked.size
  -- A page request that counts would have been sent with a summary.
  have hloading : (unused.after es).state.view.loadingHistory = false := by
    refine Bool.eq_false_iff.mpr fun hl => ?_
    obtain ⟨u, hu, key, page, size, chained, hx⟩ := hmarked.loading hl
    have hpage := hmarked.fits u hu
    rw [hx] at hpage
    exact (hpage.2.2 rfl).2.2.1 hsummary
  generalize (unused.after es).state.view = v at *
  obtain ⟨key, summary, records, ⟨current, size, total⟩, busy, loading, notice⟩ := v
  obtain ⟨rfl, rfl, rfl⟩ : records = [] ∧ total = 0 ∧ current = 1 := by
    simpa [View.Unpaged, View.ledger] using hunpaged
  simp_all [Ledger.pageSize]

/-- With the reply `r`, the lookup that waits as `t` goes on to the first page of its ledger. -/
structure GoesOn (w : World controller) (t : Task controller) (r : Reply) (key : String)
    (summary : Quota.Summary) : Prop where
  view : (w.step (.reply t.callNumber r)).1.state.view =
    { key, summary := some summary, loadingHistory := true,
      notice := some ⟨.success, querySucceeded⟩ }
  calls : (w.step (.reply t.callNumber r)).2.calls = [.history key 1 Ledger.pageSize]
  opened : ∃ u, (w.step (.reply t.callNumber r)).2.opened = some u ∧ u.number = t.number ∧
    call u.waiting = .history key 1 Ledger.pageSize
  finished : (w.step (.reply t.callNumber r)).2.finished = []

/-- With the reply `r`, the lookup that waits as `t` ends with the fault that its notice shows. -/
structure EndsWith (w : World controller) (t : Task controller) (r : Reply) (key : String)
    (f : Fault) : Prop where
  view : (w.step (.reply t.callNumber r)).1.state.view = { key, notice := some (.ofFault f) }
  calls : (w.step (.reply t.callNumber r)).2.calls = []
  finished : (w.step (.reply t.callNumber r)).2.finished = [(t.number, .refused f)]

theorem goesOn_of_verdict (ht : t ∈ (unused.after es).tasks) (h : NewestLookup es k raw t)
    {r : Reply} {summary : Quota.Summary} (hr : verdict (r (.quota (Text.trim raw))) = .ok summary) :
    GoesOn (unused.after es) t r (Text.trim raw) summary := by
  have hstep := step_verdict (marked_after es).numbered ht h.waiting r
  have hview := view_of_awaits ht h
  have hcall : call (pageCall 1 true (summarized summary (unused.after es).state)) =
      .history (Text.trim raw) 1 Ledger.pageSize := by
    show Call.history (unused.after es).state.view.key 1 (unused.after es).state.view.paging.size = _
    rw [hview]
  rw [hr] at hstep
  constructor
  · rw [hstep, World.place_state]
    show { (unused.after es).state.view with
      busy := false, summary := some summary, loadingHistory := true,
      notice := some ⟨.success, querySucceeded⟩ } = _
    rw [hview]
  · rw [hstep, ← hcall]
    rfl
  · rw [hstep]
    exact ⟨_, rfl, rfl, hcall⟩
  · rw [hstep]
    rfl

theorem endsWith_of_verdict (ht : t ∈ (unused.after es).tasks) (h : NewestLookup es k raw t)
    {r : Reply} {f : Fault} (hr : verdict (r (.quota (Text.trim raw))) = .error f) :
    EndsWith (unused.after es) t r (Text.trim raw) f := by
  have hstep := step_verdict (marked_after es).numbered ht h.waiting r
  rw [hr] at hstep
  constructor
  · rw [hstep, World.place_state]
    show { (unused.after es).state.view with busy := false, notice := some (.ofFault f) } = _
    rw [view_of_awaits ht h]
  · rw [hstep]
    rfl
  · rw [hstep]
    rfl

/-- The answer about a key decides what becomes of the newest lookup. An envelope counts whatever
the status it came with: data is shown, and the first page is asked for; without data, or if the
service refuses in its own words or in none, the lookup ends with a logical fault. Anything else
counts as a service that cannot be reached. A lookup that ends shows its key and the notice of its
fault, which is a warning only for a fault that blocks. -/
theorem answer_classified (ht : t ∈ (unused.after es).tasks) (h : NewestLookup es k raw t)
    (r : Reply) :
    let w := unused.after es
    let key := Text.trim raw
    call t.waiting = .quota key ∧
    (∀ status body, r (.quota key) = Client.decode ⟨status, body⟩ (.quota key) →
      match (Json.Tree.parse? body).bind (Wire.envelope? Wire.summary?) with
      | some ⟨true, _, some summary⟩ => GoesOn w t r key summary
      | some ⟨true, _, none⟩ => EndsWith w t r key (.logical queryFailed)
      | some ⟨false, some message, _⟩ =>
        EndsWith w t r key (.logical (if Text.isBlankText message then queryFailed else message))
      | some ⟨false, none, _⟩ => EndsWith w t r key (.logical queryFailed)
      | none => EndsWith w t r key (.transport queryUnreachable)) ∧
    (∀ f, r (.quota key) = .error f → EndsWith w t r key (.transport queryUnreachable)) ∧
    ∀ f, (Notice.ofFault f).level = .warning ↔ f.isBlocking = true := by
  intro w key
  have hcall : call t.waiting = .quota key := by
    rw [h.waiting]
    rfl
  refine ⟨hcall, fun status body hr => ?_, fun f hf => ?_, fun f => ?_⟩
  · have hread := verdict_decode key status body
    rw [← hr] at hread
    rcases hd : (Json.Tree.parse? body).bind (Wire.envelope? Wire.summary?) with
      _ | ⟨_ | _, _ | message, _ | summary⟩
    all_goals rw [hd] at hread
    case refine_1.some.true.none.some | refine_1.some.true.some.some =>
      exact goesOn_of_verdict ht h hread
    all_goals exact endsWith_of_verdict ht h hread
  · exact endsWith_of_verdict ht h (congrArg verdict hf)
  · cases f <;> simp [Notice.ofFault, Fault.isBlocking]

theorem answer_classified_worded :
    let es : List (Event controller) := [.request (.lookup " a ")]
    let t : Task controller := ⟨0, 0, .summary "a" 1⟩
    let body := Wire.bytes (.record [("message", .text " no "), ("success", .bool false)])
    let r : Reply := Client.decode ⟨500, body⟩
    t ∈ (unused.after es).tasks ∧ NewestLookup es 0 " a " t ∧
      EndsWith (unused.after es) t r "a" (.logical " no ") := by
  intro es t body r
  have ht : t ∈ (unused.after es).tasks := List.mem_singleton.mpr rfl
  have h : NewestLookup es 0 " a " t := by
    refine ⟨⟨rfl, unused, _, ⟨rfl, rfl⟩, rfl⟩, fun i raw u hi haccepts => ?_⟩
    have hlt : i < 1 := haccepts.2.lt
    omega
  have hread : (Json.Tree.parse? body).bind (Wire.envelope? Wire.summary?) =
      some ⟨false, some " no ", none⟩ := by
    rw [show Json.Tree.parse? body = _ from Json.Value.parse?_print rfl]
    rfl
  have hclass := (answer_classified ht h r).2.1 500 body rfl
  rw [hread] at hclass
  exact ⟨ht, h, hclass⟩

end QuotaDesk.Lookup
