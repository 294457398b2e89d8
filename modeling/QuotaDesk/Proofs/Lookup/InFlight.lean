import QuotaDesk.Proofs.Lookup.History

/-! The two in-flight markers. They are up exactly while the newest lookup, or the
newest page request of its generation, has a live task that waits for the reply. -/

namespace QuotaDesk.Lookup

/-- The live task `t` is the newest accepted lookup and still waits for its summary. -/
def AwaitsSummary (es : List (Event controller)) (t : Task controller) : Prop :=
  t ∈ (unused.after es).tasks ∧ ∃ k raw, NewestLookup es k raw t

/-- The live task `t` waits for the newest page request, and no lookup has been accepted
since it was sent. -/
def AwaitsPage (es : List (Event controller)) (t : Task controller) : Prop :=
  t ∈ (unused.after es).tasks ∧
    ∃ k, NewestFetch es k t ∧ ∀ i raw u, k < i → ¬Accepts es i raw u

variable {es : List (Event controller)} {t u : Task controller}

theorem awaitsSummary_iff :
    AwaitsSummary es t ↔ t ∈ (unused.after es).tasks ∧
      ∃ key, t.waiting = .summary key (unused.after es).state.generation := by
  refine and_congr_right fun ht => ⟨?_, ?_⟩
  · rintro ⟨k, raw, haccepts, hlast⟩
    rw [generation_current_iff.mpr hlast]
    exact ⟨_, haccepts.waiting.2⟩
  · rintro ⟨key, hx⟩
    exact newestLookup_of_live ht hx

theorem awaitsPage_iff :
    AwaitsPage es t ↔ t ∈ (unused.after es).tasks ∧ ∃ key page size chained,
      t.waiting = .page key page size (unused.after es).state.generation
        (unused.after es).state.fetch chained := by
  refine and_congr_right fun ht => ⟨?_, ?_⟩
  · rintro ⟨k, ⟨hdispatches, hlast⟩, hnone⟩
    rw [generation_current_iff.mpr hnone, fetch_current_iff.mpr hlast]
    exact hdispatches.waiting
  · rintro ⟨key, page, size, chained, hx⟩
    exact newestFetch_of_live ht hx

theorem AwaitsSummary.unique (ht : AwaitsSummary es t) (hu : AwaitsSummary es u) : t = u := by
  obtain ⟨ht, key, hx⟩ := awaitsSummary_iff.mp ht
  obtain ⟨hu, key', hy⟩ := awaitsSummary_iff.mp hu
  refine (marked_after es).apart t ht u hu ?_
  rw [hx, hy]
  rfl

theorem AwaitsPage.unique (ht : AwaitsPage es t) (hu : AwaitsPage es u) : t = u := by
  obtain ⟨ht, key, page, size, chained, hx⟩ := awaitsPage_iff.mp ht
  obtain ⟨hu, key', page', size', chained', hy⟩ := awaitsPage_iff.mp hu
  refine (marked_after es).apart t ht u hu ?_
  rw [hx, hy]
  rfl

theorem busy_iff (es : List (Event controller)) :
    (unused.after es).state.view.busy = true ↔ ∃ t, AwaitsSummary es t := by
  have hmarked := marked_after es
  constructor
  · intro hb
    obtain ⟨t, ht, hx⟩ := hmarked.busy hb
    exact ⟨t, awaitsSummary_iff.mpr ⟨ht, hx⟩⟩
  · rintro ⟨t, h⟩
    obtain ⟨ht, key, hx⟩ := awaitsSummary_iff.mp h
    have hfits := hmarked.fits t ht
    rw [hx] at hfits
    exact (hfits.2 rfl).1

theorem loading_iff (es : List (Event controller)) :
    (unused.after es).state.view.loadingHistory = true ↔ ∃ t, AwaitsPage es t := by
  have hmarked := marked_after es
  constructor
  · intro hl
    obtain ⟨t, ht, hx⟩ := hmarked.loading hl
    exact ⟨t, awaitsPage_iff.mpr ⟨ht, hx⟩⟩
  · rintro ⟨t, h⟩
    obtain ⟨ht, key, page, size, chained, hx⟩ := awaitsPage_iff.mp h
    have hfits := hmarked.fits t ht
    rw [hx] at hfits
    exact (hfits.2.2 rfl).2.2.2 rfl

theorem AwaitsSummary.call_eq (h : AwaitsSummary es t) :
    call t.waiting = .quota (unused.after es).state.view.key := by
  obtain ⟨ht, key, hx⟩ := awaitsSummary_iff.mp h
  have hfits := (marked_after es).fits t ht
  rw [hx] at hfits ⊢
  rw [(hfits.2 rfl).2.1]
  rfl

theorem AwaitsPage.call_eq (h : AwaitsPage es t) :
    ∃ page, call t.waiting = .history (unused.after es).state.view.key page Ledger.pageSize := by
  obtain ⟨ht, key, page, size, chained, hx⟩ := awaitsPage_iff.mp h
  have hfits := (marked_after es).fits t ht
  rw [hx] at hfits ⊢
  obtain ⟨hkey, hsize, _⟩ := hfits.2.2 rfl
  exact ⟨page, by rw [hkey, ← hsize]; rfl⟩

theorem shown_key_of_awaits {k : Nat} {raw : String} (ht : t ∈ (unused.after es).tasks)
    (h : NewestLookup es k raw t) : (unused.after es).state.view.key = Text.trim raw := by
  have hcall := AwaitsSummary.call_eq ⟨ht, k, raw, h⟩
  rw [h.1.waiting.2] at hcall
  exact (Call.quota.inj hcall).symm

theorem start_inFlight_iff {raw : String} {s : State} :
    (start (.lookup raw) s).2 = .finished .inFlight ↔
      Text.trim raw ≠ "" ∧ s.view.busy = true ∧ s.view.key = Text.trim raw := by
  simp only [start, startLookup]
  split
  · next hkey =>
    rw [String.isEmpty_iff] at hkey
    simp [refuse, hkey]
  · next hkey =>
    rw [String.isEmpty_iff] at hkey
    split
    · next hbusy => simpa [hkey] using hbusy
    · next hfree => simpa [hkey] using hfree

theorem inFlight_iff (es : List (Event controller)) (raw : String) :
    ((unused.after es).step (.request (.lookup raw))).2.finished =
        [((unused.after es).started, .inFlight)] ↔
      ∃ t k raw', t ∈ (unused.after es).tasks ∧ NewestLookup es k raw' t ∧
        Text.trim raw' = Text.trim raw := by
  rw [World.finished_request_iff, start_inFlight_iff, busy_iff]
  constructor
  · rintro ⟨_, ⟨t, ht, k, raw', hnewest⟩, hkey⟩
    refine ⟨t, k, raw', ht, hnewest, ?_⟩
    rw [← hkey, ← shown_key_of_awaits ht hnewest]
  · rintro ⟨t, k, raw', ht, hnewest, hkey⟩
    refine ⟨hkey ▸ hnewest.1.waiting.1, ⟨t, ht, k, raw', hnewest⟩, ?_⟩
    rw [← hkey, shown_key_of_awaits ht hnewest]

/-- The markers are exact: each is up if and only if there is a live task, and then only one,
that waits for the reply it stands for. So a lookup is in flight only as long as its task
is, and without live tasks every key can be looked up. -/
theorem markers_exact (es : List (Event controller)) :
    let w := unused.after es
    let v := w.state.view
    ((v.busy = true ↔ ∃ t, AwaitsSummary es t) ∧
        (∀ t u, AwaitsSummary es t → AwaitsSummary es u → t = u) ∧
        ∀ t, AwaitsSummary es t → call t.waiting = .quota v.key) ∧
      ((v.loadingHistory = true ↔ ∃ t, AwaitsPage es t) ∧
        (∀ t u, AwaitsPage es t → AwaitsPage es u → t = u) ∧
        ∀ t, AwaitsPage es t → ∃ page, call t.waiting = .history v.key page Ledger.pageSize) ∧
      (∀ raw, (w.step (.request (.lookup raw))).2.finished = [(w.started, .inFlight)] ↔
        ∃ t k raw', t ∈ w.tasks ∧ NewestLookup es k raw' t ∧ Text.trim raw' = Text.trim raw) ∧
      (w.tasks = [] → v.busy = false ∧ v.loadingHistory = false ∧
        ∀ raw, Text.trim raw ≠ "" → ∃ t, (w.step (.request (.lookup raw))).2.opened = some t ∧
          call t.waiting = .quota (Text.trim raw)) := by
  refine ⟨⟨busy_iff es, fun _ _ ht hu => ht.unique hu, fun _ ht => ht.call_eq⟩,
    ⟨loading_iff es, fun _ _ ht hu => ht.unique hu, fun _ ht => ht.call_eq⟩, inFlight_iff es, ?_⟩
  -- Without live tasks nothing awaits a reply, so both markers are down.
  intro hnone
  have hbusy : (unused.after es).state.view.busy = false := by
    refine Bool.eq_false_iff.mpr fun hb => ?_
    obtain ⟨t, ht, _⟩ := (busy_iff es).mp hb
    exact absurd (hnone ▸ ht) List.not_mem_nil
  have hloading : (unused.after es).state.view.loadingHistory = false := by
    refine Bool.eq_false_iff.mpr fun hl => ?_
    obtain ⟨t, ht, _⟩ := (loading_iff es).mp hl
    exact absurd (hnone ▸ ht) List.not_mem_nil
  refine ⟨hbusy, hloading, fun raw hkey => ?_⟩
  have hstart := congrArg Prod.snd (start_lookup_free hkey hbusy)
  exact ⟨_, World.opened_request_iff.mpr ⟨_, hstart, rfl⟩, rfl⟩

end QuotaDesk.Lookup
