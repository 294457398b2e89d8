import QuotaDesk.Proofs.Lookup.History

/-! Where the parts of a view come from. The key is that of the newest accepted lookup,
the summary came with the reply to the call of that very lookup, and the ledger came
whole with the reply to one page request sent after the summary was stored. -/

namespace QuotaDesk.Lookup

def BringsSummary (es : List (Event controller)) (j : Nat) (t : Task controller) (key : String)
    (summary : Quota.Summary) : Prop :=
  ∃ w r message, unused.Replies es j w t r ∧ r (.quota key) = .ok ⟨true, message, some summary⟩

def BringsPage (es : List (Event controller)) (l : Nat) (t : Task controller) (key : String)
    (page : UInt32) (data : Option Ledger.Page) : Prop :=
  ∃ w r message, unused.Replies es l w t r ∧
    r (.history key page Ledger.pageSize) = .ok ⟨true, message, data⟩

/-- The ledger of `v` came whole with the reply to one request for the page on show, sent at
event `j` or later. -/
def PagedSince (es : List (Event controller)) (j : Nat) (v : View) : Prop :=
  ∃ k l t data, j ≤ k ∧ k < l ∧ Dispatches es k t ∧
    call t.waiting = .history v.key v.paging.current Ledger.pageSize ∧
    BringsPage es l t v.key v.paging.current data ∧
    v.ledger = ((data.getD {}).records, (data.getD {}).total, v.paging.current)

/-- The invariant behind the provenance of a view. While a lookup has no summary it has sent
no page request, so every request of its generation was sent with the summary or later. -/
def Traced (es : List (Event controller)) (v : View) : Prop :=
  ((∀ i raw t, ¬Accepts es i raw t) ∧ v.key = "" ∧ v.summary = none) ∨
    ∃ i raw t, NewestLookup es i raw t ∧ v.key = Text.trim raw ∧
      ((v.summary = none ∧ ∀ k u, Dispatches es k u → k ≤ i) ∨
        ∃ j summary, i < j ∧ BringsSummary es j t v.key summary ∧ v.summary = some summary ∧
          (∀ k u, Dispatches es k u → i < k → j ≤ k) ∧ (v.Unpaged ∨ PagedSince es j v))

variable {es : List (Event controller)} {e : Event controller} {v : View} {j : Nat}

theorem BringsSummary.concat {t : Task controller} {key : String} {summary : Quota.Summary}
    (e : Event controller) (h : BringsSummary es j t key summary) :
    BringsSummary (es ++ [e]) j t key summary := by
  obtain ⟨w, r, message, hreplies, hr⟩ := h
  exact ⟨w, r, message, hreplies.concat e, hr⟩

theorem PagedSince.concat (e : Event controller) (h : PagedSince es j v) :
    PagedSince (es ++ [e]) j v := by
  obtain ⟨k, l, t, data, hjk, hkl, hdispatches, hcall, ⟨w, r, message, hreplies, hr⟩, hv⟩ := h
  exact ⟨k, l, t, data, hjk, hkl, dispatches_concat.mpr (.inl hdispatches), hcall,
    ⟨w, r, message, hreplies.concat e, hr⟩, hv⟩

theorem NewestLookup.concat {i : Nat} {raw : String} {t : Task controller}
    (h : NewestLookup es i raw t)
    (hno : ∀ raw t, e = .request (.lookup raw) → ((unused.after es).step e).2.opened ≠ some t) :
    NewestLookup (es ++ [e]) i raw t := by
  refine ⟨accepts_concat.mpr (.inl h.1), fun i' raw' u hi' h' => ?_⟩
  rcases accepts_concat.mp h' with h' | ⟨_, he, hu⟩
  · exact h.2 i' raw' u hi' h'
  · exact hno raw' u he hu

theorem Traced.keep (h : Traced es v)
    (hno : ∀ raw t, e = .request (.lookup raw) → ((unused.after es).step e).2.opened ≠ some t)
    (hquiet : v.summary = none → ((unused.after es).step e).2.opened = none)
    (busy loading : Bool) (n : Option Notice) :
    Traced (es ++ [e]) { v with busy := busy, loadingHistory := loading, notice := n } := by
  have hnew : ∀ k u, Dispatches (es ++ [e]) k u → Dispatches es k u ∨ k = es.length := by
    intro k u hk
    rcases dispatches_concat.mp hk with hk | ⟨hk, _⟩
    · exact .inl hk
    · exact .inr hk
  rcases h with ⟨hnone, hkey, hsummary⟩ | ⟨i, raw, t, hnewest, hkey, hrest⟩
  · refine .inl ⟨fun i raw t h => ?_, hkey, hsummary⟩
    rcases accepts_concat.mp h with h | ⟨_, he, ht⟩
    · exact hnone i raw t h
    · exact hno raw t he ht
  · refine .inr ⟨i, raw, t, hnewest.concat hno, hkey, ?_⟩
    rcases hrest with ⟨hsummary, hbefore⟩ | ⟨j, summary, hij, hbrings, hsummary, hsince, hledger⟩
    · refine .inl ⟨hsummary, fun k u hk => ?_⟩
      rcases dispatches_concat.mp hk with hk | ⟨_, hopened, _⟩
      · exact hbefore k u hk
      · rw [hquiet hsummary] at hopened
        cases hopened
    · refine .inr ⟨j, summary, hij, hbrings.concat e, hsummary, fun k u hk hik => ?_, ?_⟩
      · rcases hnew k u hk with hk | rfl
        · exact hsince k u hk hik
        · obtain ⟨_, _, _, hreplies, _⟩ := hbrings
          exact Nat.le_of_lt hreplies.happens.lt
      · exact hledger.imp id (PagedSince.concat e)

theorem Traced.accept {raw : String} {t : Task controller} (he : e = .request (.lookup raw))
    (ht : ((unused.after es).step e).2.opened = some t) :
    Traced (es ++ [e]) { key := Text.trim raw, busy := true } := by
  have haccepts : Accepts (es ++ [e]) es.length raw t := accepts_concat.mpr (.inr ⟨rfl, he, ht⟩)
  refine .inr ⟨es.length, raw, t, ⟨haccepts, fun i raw' u hi h => ?_⟩, rfl, .inl ⟨rfl, ?_⟩⟩
  · have := h.2.lt
    rw [List.length_append, List.length_singleton] at this
    omega
  · intro k u hk
    have := hk.1.lt
    rw [List.length_append, List.length_singleton] at this
    omega

theorem replies_concat_self {t : Task controller} (ht : t ∈ (unused.after es).tasks) (r : Reply) :
    unused.Replies (es ++ [.reply t.callNumber r]) es.length (unused.after es) t r :=
  ⟨World.happens_concat.mpr (.inr ⟨rfl, rfl, rfl⟩), ht⟩

theorem Traced.store (h : Traced es (unused.after es).state.view) {t : Task controller}
    {key : String} {r : Reply} {message : Option String} {summary : Quota.Summary}
    (ht : t ∈ (unused.after es).tasks)
    (hx : t.waiting = .summary key (unused.after es).state.generation)
    (hr : r (.quota key) = .ok ⟨true, message, some summary⟩) :
    Traced (es ++ [.reply t.callNumber r])
      (asked (summarized summary (unused.after es).state)).view := by
  have hmarked := marked_after es
  obtain ⟨hkey, hnone⟩ : (unused.after es).state.view.key = key ∧
      (unused.after es).state.view.summary = none :=
    ((hx ▸ hmarked.fits t ht : Waiting.Fits _ (.summary ..)).2 rfl).2
  obtain ⟨k, raw, hnewest⟩ := newestLookup_of_live ht hx
  rcases h with ⟨hnever, _⟩ | ⟨i, raw', t', hnewest', htrim, hrest⟩
  · exact absurd hnewest.1 (hnever k raw t)
  · obtain ⟨rfl, rfl, rfl⟩ := hnewest'.unique hnewest
    rcases hrest with ⟨_, hbefore⟩ | ⟨_, summary', _, _, hsome, _⟩
    · refine .inr ⟨i, raw', t', hnewest'.concat nofun, htrim, .inr ⟨es.length, summary,
        hnewest'.1.2.lt, ⟨_, r, message, replies_concat_self ht r, hkey ▸ hr⟩, rfl, ?_,
        .inl (hmarked.unpaged hnone)⟩⟩
      intro k u hk hik
      -- The lookup has sent no page request before this event.
      rcases dispatches_concat.mp hk with hk | ⟨rfl, _⟩
      · exact absurd (hbefore k u hk) (Nat.not_le_of_lt hik)
      · exact Nat.le_refl _
    · rw [hnone] at hsome
      cases hsome

theorem Traced.land (h : Traced es (unused.after es).state.view) {t : Task controller}
    {key : String} {page size : UInt32} {chained : Bool} {r : Reply} {message : Option String}
    {data : Option Ledger.Page} (ht : t ∈ (unused.after es).tasks)
    (hx : t.waiting = .page key page size (unused.after es).state.generation
      (unused.after es).state.fetch chained)
    (hr : r (.history key page size) = .ok ⟨true, message, data⟩) :
    Traced (es ++ [.reply t.callNumber r])
      (landed page (data.getD {}) (unused.after es).state).view := by
  obtain ⟨hkey, hsize, hsummary, _⟩ :=
    (hx ▸ (marked_after es).fits t ht : Waiting.Fits _ (.page ..)).2.2 rfl
  obtain ⟨k, ⟨hdispatches, _⟩, hcurrent⟩ := newestFetch_of_live ht hx
  subst hkey hsize
  rcases h with ⟨_, _, hnone⟩ | ⟨i, raw, t', hnewest, htrim, hrest⟩
  · exact absurd hnone hsummary
  -- The request was sent after the newest lookup, or its generation would be over.
  · have hik : i < k := by
      have hne := hdispatches.ne_accepts hnewest.1
      have hle : ¬k < i := fun hlt => hcurrent i raw t' hlt hnewest.1
      omega
    rcases hrest with ⟨hnone, _⟩ | ⟨j, summary, hij, hbrings, hsome, hsince, _⟩
    · exact absurd hnone hsummary
    · refine .inr ⟨i, raw, t', hnewest.concat nofun, htrim, .inr ⟨j, summary, hij,
        hbrings.concat _, hsome, fun k u hk hik => ?_, .inr ⟨k, es.length, t, data,
        hsince k t hdispatches hik, hdispatches.1.lt, dispatches_concat.mpr (.inl hdispatches),
        hx ▸ rfl, ⟨_, r, message, replies_concat_self ht r, hr⟩, rfl⟩⟩⟩
      rcases dispatches_concat.mp hk with hk | ⟨rfl, _⟩
      · exact hsince k u hk hik
      · obtain ⟨_, _, _, hreplies, _⟩ := hbrings
        exact Nat.le_of_lt hreplies.happens.lt

theorem traced_after (es : List (Event controller)) : Traced es (unused.after es).state.view := by
  refine World.run_induction (P := fun es w => Traced es w.state.view) unused ?_ ?_ es
  · exact .inl ⟨fun i raw t h => absurd h.2.lt (Nat.not_lt_zero i), rfl, rfl⟩
  · intro es e h
    have hturn := turn (marked_after es).numbered e
    have hkeep := h.keep (e := e)
    generalize hp : (unused.after es).step e = p at hturn hkeep ⊢
    cases hturn with
    | accepted hkey hfree ht => exact Traced.accept rfl (congrArg (fun q => q.2.opened) hp)
    | summarized ht hx hr hu => exact h.store ht hx hr
    | landed ht hx hr => exact h.land ht hx hr
    | asked hkey hsummary hpage ht => exact hkeep nofun (fun hnone => absurd hnone hsummary) _ _ _
    | dropped ht =>
      obtain ⟨busy, loading, heq⟩ := release_eq _ (unused.after es).state
      exact heq ▸ hkeep nofun (fun _ => rfl) _ _ _
    | idle | immediate | late | refused | failed =>
      exact hkeep (fun _ _ _ => nofun) (fun _ => rfl) _ _ _

/-- No view mixes data of two keys, two lookups or two pages. The key is the trimmed key of
the newest accepted lookup. A summary was brought by a success reply to the call of that
lookup. A ledger was brought whole, by a success reply to one request for the page on show,
sent for the same key in the same generation once the summary was stored. -/
theorem view_provenance (es : List (Event controller)) :
    let v := (unused.after es).state.view
    ((∀ i raw t, ¬Accepts es i raw t) ∧ v.key = "" ∧ v.summary = none ∧ v.Unpaged) ∨
      ∃ i raw t, NewestLookup es i raw t ∧ v.key = Text.trim raw ∧ call t.waiting = .quota v.key ∧
        ((v.summary = none ∧ v.Unpaged) ∨
          ∃ j summary, i < j ∧ BringsSummary es j t v.key summary ∧ v.summary = some summary ∧
            (v.Unpaged ∨ PagedSince es j v)) := by
  have hunpaged := (marked_after es).unpaged
  rcases traced_after es with ⟨hnever, hkey, hnone⟩ | ⟨i, raw, t, hnewest, hkey, hrest⟩
  · exact .inl ⟨hnever, hkey, hnone, hunpaged hnone⟩
  · have hcall : call t.waiting = .quota (unused.after es).state.view.key := by
      rw [hnewest.1.waiting.2, hkey]
      rfl
    refine .inr ⟨i, raw, t, hnewest, hkey, hcall, ?_⟩
    rcases hrest with ⟨hnone, _⟩ | ⟨j, summary, hij, hbrings, hsome, _, hledger⟩
    · exact .inl ⟨hnone, hunpaged hnone⟩
    · exact .inr ⟨j, summary, hij, hbrings, hsome, hledger⟩

end QuotaDesk.Lookup
