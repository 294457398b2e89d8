import QuotaDesk.Proofs.Controller.Overlay
import QuotaDesk.Proofs.Lookup.History

/-! The newest lookup wins. From the event that accepts it the lookup goes on as if it were
the first one ever made: what the older tasks receive, and whether they are dropped, is
seen neither in the view nor in the outcome of any newer task. -/

namespace QuotaDesk.Lookup

def State.moved (g f : Nat) (s : State) : State :=
  { s with generation := g + s.generation, fetch := f + s.fetch }

def Waiting.moved (g f : Nat) : Waiting → Waiting
  | .summary key generation => .summary key (g + generation)
  | .page key n size generation fetch chained =>
    .page key n size (g + generation) (f + fetch) chained

def PageRequest.moved (g : Nat) (r : PageRequest) : PageRequest :=
  { r with generation := g + r.generation }

theorem fetchPage_moved (g f : Nat) (r : PageRequest) (s : State) :
    fetchPage (r.moved g) (s.moved g f) =
      renamed (State.moved g f) (Waiting.moved g f) (fetchPage r s) := by
  simp only [fetchPage]
  rw [apply_ite (renamed _ _)]
  exact if_congr (not_congr Nat.add_left_cancel_iff) rfl rfl

theorem thenFetch_moved (g f : Nat) (p : State × Progress PageRequest Outcome) :
    thenFetch (renamed (State.moved g f) (PageRequest.moved g) p) =
      renamed (State.moved g f) (Waiting.moved g f) (thenFetch p) := by
  obtain ⟨s, r | o⟩ := p
  · exact fetchPage_moved g f r s
  · rfl

theorem admitLoad_moved (g f : Nat) (page : UInt32) (s : State) :
    admitLoad page (s.moved g f) =
      renamed (State.moved g f) (PageRequest.moved g) (admitLoad page s) := by
  simp only [admitLoad]
  rw [apply_ite (renamed _ _), apply_ite (renamed _ _)]
  exact if_congr Iff.rfl rfl (if_congr Iff.rfl rfl rfl)

theorem start_moved (g f : Nat) (r : Request) (s : State) :
    start r (s.moved g f) = renamed (State.moved g f) (Waiting.moved g f) (start r s) := by
  cases r with
  | lookup raw =>
    simp only [start, startLookup]
    rw [apply_ite (renamed _ _), apply_ite (renamed _ _)]
    exact if_congr Iff.rfl rfl (if_congr Iff.rfl rfl rfl)
  | load page =>
    rw [start, start, startLoad, startLoad, admitLoad_moved, thenFetch_moved]
  | take => rfl
  | snapshot => rfl

theorem settleSummary_moved (g f generation : Nat) (a : Except Fault (Envelope Quota.Summary))
    (s : State) :
    settleSummary (g + generation) a (s.moved g f) =
      renamed (State.moved g f) (PageRequest.moved g) (settleSummary generation a s) := by
  simp only [settleSummary]
  rw [apply_ite (renamed _ _)]
  refine if_congr (not_congr Nat.add_left_cancel_iff) rfl ?_
  rcases settle a queryFailed queryUnreachable with _ | _ | _ <;> rfl

theorem resumeSummary_moved (g f generation : Nat) (a : Except Fault (Envelope Quota.Summary))
    (s : State) :
    resumeSummary (g + generation) a (s.moved g f) =
      renamed (State.moved g f) (Waiting.moved g f) (resumeSummary generation a s) := by
  rw [resumeSummary, resumeSummary, settleSummary_moved, thenFetch_moved]

theorem resumePage_moved (g f : Nat) (page : UInt32) (generation fetch : Nat) (chained : Bool)
    (a : Except Fault (Envelope Ledger.Page)) (s : State) :
    resumePage page (g + generation) (f + fetch) chained a (s.moved g f) =
      renamed (State.moved g f) (Waiting.moved g f)
        (resumePage page generation fetch chained a s) := by
  have hlate : g + s.generation ≠ g + generation ∨ f + s.fetch ≠ f + fetch ↔
      s.generation ≠ generation ∨ s.fetch ≠ fetch :=
    or_congr (not_congr Nat.add_left_cancel_iff) (not_congr Nat.add_left_cancel_iff)
  simp only [resumePage]
  rw [apply_ite (renamed _ _)]
  refine if_congr hlate rfl ?_
  rcases settle a historyFailed historyFailed with _ | _ <;> rfl

theorem resume_moved (g f : Nat) (x : Waiting) (r : Reply) (s : State) :
    resume (x.moved g f) (r (call (x.moved g f))) (s.moved g f) =
      renamed (State.moved g f) (Waiting.moved g f) (resume x (r (call x)) s) := by
  cases x with
  | summary key generation => exact resumeSummary_moved g f generation _ s
  | page key page size generation fetch chained =>
    exact resumePage_moved g f page generation fetch chained _ s

theorem release_moved (g f : Nat) (x : Waiting) (s : State) :
    release (x.moved g f) (s.moved g f) = (release x s).moved g f := by
  cases x with
  | summary key generation =>
    simp only [release]
    rw [apply_ite (State.moved g f)]
    exact if_congr Nat.add_left_cancel_iff rfl rfl
  | page key page size generation fetch chained =>
    simp only [release]
    rw [apply_ite (State.moved g f)]
    exact if_congr Nat.add_left_cancel_iff rfl rfl

def counting (s : State) : Renaming controller where
  state := State.moved s.generation s.fetch
  waiting := Waiting.moved s.generation s.fetch
  start_eq := start_moved s.generation s.fetch
  resume_eq := resume_moved s.generation s.fetch
  release_eq := release_moved s.generation s.fetch

theorem loading_of_fetch_zero (es : List (Event controller)) :
    (unused.after es).state.fetch = 0 → (unused.after es).state.view.loadingHistory = false := by
  refine World.run_induction
    (P := fun _ (w : World controller) => w.state.fetch = 0 → w.state.view.loadingHistory = false)
    unused ?_ ?_ es
  · exact fun _ => rfl
  · intro es e h
    have hturn := turn (marked_after es).numbered e
    generalize (unused.after es).step e = p at hturn ⊢
    cases hturn with
    | accepted | landed | failed => exact fun _ => rfl
    | asked | summarized => exact fun hzero => absurd hzero (Nat.succ_ne_zero _)
    | @dropped t ht =>
      intro hzero
      obtain ⟨busy, loading, heq⟩ := release_eq t.waiting (unused.after es).state
      refine Bool.eq_false_iff.mpr fun hl => ?_
      have hbefore := h (by simpa only [heq] using hzero)
      rw [(loading_of_release hl).1] at hbefore
      cases hbefore
    | _ => exact h

theorem inert_moved {b s : State} {x : Waiting} (hx : x.Fits b) (hs : s.generation ≠ 0)
    (hloading : s.fetch = 0 → s.view.loadingHistory = false) :
    World.Inert (C := controller) Waiting.lateOutcome (s.moved b.generation b.fetch) x := by
  constructor
  · refine fun a => resume_late (fun hcurrent => ?_) a
    rcases hcurrent.cases with ⟨key, rfl⟩ | ⟨key, page, size, chained, rfl⟩ <;>
      · have hle := hx.1
        simp only [State.moved] at hle
        omega
  · cases x with
    | summary key generation =>
      refine if_neg fun heq => ?_
      have hle := hx.1
      simp only [State.moved] at heq
      omega
    | page key page size generation fetch chained =>
      simp only [release]
      split
      -- The page counts can agree only while the newer run has asked for no page. Its marker
      -- is down then, and taking it down changes nothing.
      · next heq =>
        have hle := hx.2.1
        have hzero : s.fetch = 0 := by
          simp only [State.moved] at heq
          omega
        have hview : s.view = { s.view with loadingHistory := false } := by
          rw [← hloading hzero]
        simp only [State.moved]
        rw [← hview]
      · rfl

def lookedUp (raw : String) (w : World controller) : World controller :=
  (w.step (.request (.lookup raw))).1

theorem after_lookup (raw : String) (w : World controller) (es : List (Event controller)) :
    w.after (.request (.lookup raw) :: es) = (lookedUp raw w).after es :=
  World.after_cons w _ es

theorem lookedUp_eq {w : World controller} (hw : w.Numbered) {raw : String} {t : Task controller}
    (h : (w.step (.request (.lookup raw))).2.opened = some t) :
    Text.trim raw ≠ "" ∧ lookedUp raw w =
      { state := accepted (Text.trim raw) w.state,
        tasks := w.tasks ++
          [⟨w.started, w.issued, .summary (Text.trim raw) (w.state.generation + 1)⟩],
        started := w.started + 1, issued := w.issued + 1 } := by
  have hturn := turn hw (.request (.lookup raw))
  unfold lookedUp
  generalize w.step (.request (.lookup raw)) = p at hturn h ⊢
  cases hturn with
  | accepted hkey hfree ht => exact ⟨hkey, ht ▸ rfl⟩
  | idle | immediate => cases h

theorem lookedUp_unused {raw : String} (hkey : Text.trim raw ≠ "") :
    lookedUp raw unused =
      { state := accepted (Text.trim raw) {}, tasks := [⟨0, 0, .summary (Text.trim raw) 1⟩],
        started := 1, issued := 1 } := by
  have hstart : (start (.lookup raw) unused.state).2 = .waiting (.summary (Text.trim raw) 1) := by
    rw [start_lookup_free hkey rfl]
    rfl
  have hopened : (unused.step (.request (.lookup raw))).2.opened =
      some ⟨0, 0, .summary (Text.trim raw) 1⟩ := World.opened_request_iff.mpr ⟨_, hstart, rfl⟩
  exact (lookedUp_eq marked_unused.numbered hopened).2

theorem lookedUp_eq_overlay {b : World controller} (hb : b.Numbered) {raw : String}
    {t : Task controller} (h : (b.step (.request (.lookup raw))).2.opened = some t) :
    lookedUp raw b = World.overlay (counting b.state) b b.tasks (lookedUp raw unused) := by
  obtain ⟨hkey, hb'⟩ := lookedUp_eq hb h
  rw [hb', lookedUp_unused hkey]
  rfl

theorem generation_ne_zero {raw : String} (hkey : Text.trim raw ≠ "")
    (es : List (Event controller)) : ((lookedUp raw unused).after es).state.generation ≠ 0 := by
  have hmono := World.measure_mono (f := fun w : World controller => w.state.generation)
    generation_le_step [.request (.lookup raw)] es
  rw [World.after_append, after_lookup, World.after_nil, lookedUp_unused hkey] at hmono
  rw [lookedUp_unused hkey]
  exact Nat.ne_of_gt hmono

def Overtaken (w v : World controller) (es : List (Event controller)) : Prop :=
  (∀ n o, (n, o) ∈ v.outcomes es → n < w.started →
      ∃ t ∈ w.tasks, t.number = n ∧ o = Waiting.lateOutcome t.waiting) ∧
    ∀ t ∈ (v.after es).tasks, t.number < w.started → t ∈ w.tasks

theorem overtaken_overlay {b fresh : World controller} (hb : Marked b)
    (hgeneration : ∀ es, (fresh.after es).state.generation ≠ 0)
    (hloading : ∀ es, (fresh.after es).state.fetch = 0 →
      (fresh.after es).state.view.loadingHistory = false)
    (xs : List (Event controller)) :
    ((World.overlay (counting b.state) b b.tasks fresh).after xs).state.view =
        (fresh.after (xs.filterMap b.later)).state.view ∧
      ((World.overlay (counting b.state) b b.tasks fresh).outcomes xs).filterMap b.laterOutcome =
        fresh.outcomes (xs.filterMap b.later) ∧
      Overtaken b (World.overlay (counting b.state) b b.tasks fresh) xs := by
  obtain ⟨⟨rest, hsub, hafter⟩, houtcomes, hended⟩ :=
    World.after_overlay (ρ := counting b.state) xs fresh b.tasks hb.numbered.older fun es t ht =>
      inert_moved (hb.fits t ht) (hgeneration es) (hloading es)
  refine ⟨by rw [hafter]; rfl, houtcomes, fun n o hmem hlt => ?_, fun t ht hlt => ?_⟩
  · obtain ⟨t, ht, heq⟩ := hended (n, o) hmem hlt
    obtain ⟨rfl, rfl⟩ := Prod.mk.inj heq
    exact ⟨t, ht, rfl, rfl⟩
  · rw [hafter] at ht
    exact hsub (World.mem_olds ht (.inl hlt))

theorem follows_unused (past xs : List (Event controller)) {raw : String} {t : Task controller}
    (h : Accepts (past ++ [.request (.lookup raw)]) past.length raw t) :
    ((lookedUp raw (unused.after past)).after xs).state.view =
        ((lookedUp raw unused).after (xs.filterMap (unused.after past).later)).state.view ∧
      ((lookedUp raw (unused.after past)).outcomes xs).filterMap (unused.after past).laterOutcome =
        (lookedUp raw unused).outcomes (xs.filterMap (unused.after past).later) ∧
      Overtaken (unused.after past) (lookedUp raw (unused.after past)) xs := by
  have hopened : ((unused.after past).step (.request (.lookup raw))).2.opened = some t := by
    rcases accepts_concat.mp h with h | ⟨_, _, h⟩
    · exact absurd h.2.lt (Nat.lt_irrefl _)
    · exact h
  have hb := marked_after past
  -- What follows the lookup in an unused world is a run of its own.
  have hloading := fun es => loading_of_fetch_zero (.request (.lookup raw) :: es)
  simp only [after_lookup] at hloading
  rw [lookedUp_eq_overlay hb.numbered hopened]
  exact overtaken_overlay hb (generation_ne_zero (lookedUp_eq hb.numbered hopened).1) hloading xs

/-- The newest lookup wins. Take two runs that accept a lookup of the same text, whatever
came before it, and that agree from there on in all but the replies to older tasks and the
cancellations of such. Both show the same view and end the newer tasks alike, and every
older task that ends is superseded. -/
theorem newest_lookup_wins {raw : String} {past₁ past₂ xs₁ xs₂ : List (Event controller)}
    {t₁ t₂ : Task controller}
    (h₁ : Accepts (past₁ ++ [.request (.lookup raw)]) past₁.length raw t₁)
    (h₂ : Accepts (past₂ ++ [.request (.lookup raw)]) past₂.length raw t₂)
    (hsame : xs₁.filterMap (unused.after past₁).later = xs₂.filterMap (unused.after past₂).later) :
    (unused.after (past₁ ++ .request (.lookup raw) :: xs₁)).state.view =
        (unused.after (past₂ ++ .request (.lookup raw) :: xs₂)).state.view ∧
      ((lookedUp raw (unused.after past₁)).outcomes xs₁).filterMap
          (unused.after past₁).laterOutcome =
        ((lookedUp raw (unused.after past₂)).outcomes xs₂).filterMap
          (unused.after past₂).laterOutcome ∧
      Overtaken (unused.after past₁) (lookedUp raw (unused.after past₁)) xs₁ ∧
      Overtaken (unused.after past₂) (lookedUp raw (unused.after past₂)) xs₂ := by
  obtain ⟨hview₁, houtcomes₁, hovertaken₁⟩ := follows_unused past₁ xs₁ h₁
  obtain ⟨hview₂, houtcomes₂, hovertaken₂⟩ := follows_unused past₂ xs₂ h₂
  rw [World.after_append, World.after_append, after_lookup, after_lookup]
  refine ⟨?_, ?_, hovertaken₁, hovertaken₂⟩
  · rw [hview₁, hview₂, hsame]
  · rw [houtcomes₁, houtcomes₂, hsame]

def summaryOnly (summary : Quota.Summary) : Reply
  | .quota _ => .ok ⟨true, none, some summary⟩
  | _ => .error (.transport historyFailed)

theorem newest_lookup_wins_stale_summary :
    Accepts ([] ++ [.request (.lookup "b")]) 0 "b" ⟨0, 0, .summary "b" 1⟩ ∧
      Accepts ([.request (.lookup "a")] ++ [.request (.lookup "b")]) 1 "b"
        ⟨1, 1, .summary "b" 2⟩ ∧
      (unused.after ([] ++ .request (.lookup "b") ::
          [.reply 0 (summaryOnly { total := some 2 })])).state.view =
        (unused.after ([.request (.lookup "a")] ++ .request (.lookup "b") ::
          [.reply 0 (summaryOnly { total := some 1 }),
            .reply 1 (summaryOnly { total := some 2 })])).state.view := by
  have h₁ : Accepts ([] ++ [.request (.lookup "b")]) 0 "b" ⟨0, 0, .summary "b" 1⟩ :=
    ⟨rfl, _, _, ⟨rfl, rfl⟩, rfl⟩
  have h₂ : Accepts ([.request (.lookup "a")] ++ [.request (.lookup "b")]) 1 "b"
      ⟨1, 1, .summary "b" 2⟩ := ⟨rfl, _, _, ⟨rfl, rfl⟩, rfl⟩
  exact ⟨h₁, h₂, (newest_lookup_wins h₁ h₂ rfl).1⟩

end QuotaDesk.Lookup
