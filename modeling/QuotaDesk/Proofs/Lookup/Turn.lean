import QuotaDesk.Lookup.Controller
import QuotaDesk.Proofs.Controller.Live

/-! What one event can do to a lookup. The cases below are the only place where the
rules of the controller are taken apart; everything about runs goes through them. -/

namespace QuotaDesk

theorem settle_eq_ok_iff {α : Type} {a : Except Fault (Envelope α)} {fallback unreachable : String}
    {d : Option α} :
    settle a fallback unreachable = .ok d ↔ ∃ message, a = .ok ⟨true, message, d⟩ := by
  rcases a with f | ⟨success, message, data⟩
  · simp [settle]
  · cases success <;> simp [settle]

namespace Lookup

def accepted (key : String) (s : State) : State :=
  { s with view := { key, busy := true }, generation := s.generation + 1 }

def summarized (summary : Quota.Summary) (s : State) : State :=
  withNotice ⟨.success, querySucceeded⟩
    { s with view := { s.view with busy := false, summary := some summary } }

def refused (f : Fault) (s : State) : State :=
  withNotice (.ofFault f) { s with view := { s.view with busy := false } }

def asked (s : State) : State :=
  { s with view := { s.view with loadingHistory := true }, fetch := s.fetch + 1 }

def arrived (s : State) : State :=
  { s with view := { s.view with loadingHistory := false } }

def landed (page : UInt32) (data : Ledger.Page) (s : State) : State :=
  { s with view := landPage page data { s.view with loadingHistory := false } }

def pageCall (page : UInt32) (chained : Bool) (s : State) : Waiting :=
  .page s.view.key page s.view.paging.size s.generation (s.fetch + 1) chained

namespace Waiting

/-- The call belongs to the newest lookup, or to its newest page request. -/
def Current (s : State) : Waiting → Prop
  | .summary _ generation => s.generation = generation
  | .page _ _ _ generation fetch _ => s.generation = generation ∧ s.fetch = fetch

theorem Current.cases {s : State} {x : Waiting} (h : x.Current s) :
    (∃ key, x = .summary key s.generation) ∨
      ∃ key page size chained, x = .page key page size s.generation s.fetch chained := by
  cases x with
  | summary key generation =>
    obtain rfl : s.generation = generation := h
    exact .inl ⟨key, rfl⟩
  | page key page size generation fetch chained =>
    obtain ⟨rfl, rfl⟩ : s.generation = generation ∧ s.fetch = fetch := h
    exact .inr ⟨key, page, size, chained, rfl⟩

def lateOutcome : Waiting → Outcome
  | .summary .. => .superseded
  | .page _ _ _ _ _ chained => historyOutcome chained .superseded

end Waiting

variable {s s' : State} {x : Waiting} {o : Outcome}

theorem start_lookup_new {raw : String} {s : State} (hkey : Text.trim raw ≠ "")
    (hfree : ¬(s.view.busy = true ∧ s.view.key = Text.trim raw)) :
    start (.lookup raw) s = (accepted (Text.trim raw) s,
      .waiting (.summary (Text.trim raw) (s.generation + 1))) := by
  have hkey' : ¬(Text.trim raw).isEmpty = true := by rwa [String.isEmpty_iff]
  have hfree' : ¬(s.view.busy && s.view.key == Text.trim raw) = true := by
    rwa [Bool.and_eq_true, beq_iff_eq]
  simp only [start, startLookup, if_neg hkey', if_neg hfree']
  rfl

theorem start_lookup_free {raw : String} {s : State} (hkey : Text.trim raw ≠ "")
    (hfree : s.view.busy = false) :
    start (.lookup raw) s = (accepted (Text.trim raw) s,
      .waiting (.summary (Text.trim raw) (s.generation + 1))) :=
  start_lookup_new hkey fun h => Bool.false_ne_true (hfree.symm.trans h.1)

inductive AtOnce (s : State) : Request → State → Outcome → Prop
  | blank {raw : String} (hkey : Text.trim raw = "") :
      AtOnce s (.lookup raw) (withNotice (.ofFault (.validation keyRequired)) s)
        (.refused (.validation keyRequired))
  | inFlight {raw : String} (hkey : Text.trim raw ≠ "") (hbusy : s.view.busy = true)
      (hshown : s.view.key = Text.trim raw) : AtOnce s (.lookup raw) s .inFlight
  | skipped {page : UInt32} (h : s.view.key = "" ∨ s.view.summary = none) :
      AtOnce s (.load page) s (.history .skipped)
  | outOfRange {page : UInt32} (h : s.view.paging.accepts page = false) :
      AtOnce s (.load page) s (.history .outOfRange)
  | take : AtOnce s .take (taken s) (.view s.view)
  | snapshot : AtOnce s .snapshot s (.view s.view)

theorem fetchPage_current (page : UInt32) (chained : Bool) (s : State) :
    fetchPage ⟨page, s.generation, chained⟩ s = (asked s, .waiting (pageCall page chained s)) :=
  if_neg (not_not.mpr rfl)

theorem fetchPage_late {r : PageRequest} (h : s.generation ≠ r.generation) :
    fetchPage r s = (s, .finished (historyOutcome r.chained .superseded)) :=
  if_pos h

theorem admitLoad_cases (page : UInt32) (s : State) :
    (∃ o, AtOnce s (.load page) s o ∧ admitLoad page s = (s, .finished o)) ∨
      (s.view.key ≠ "" ∧ s.view.summary ≠ none ∧ s.view.paging.accepts page = true) ∧
        admitLoad page s = (s, .waiting ⟨page, s.generation, false⟩) := by
  unfold admitLoad
  split
  · next hshown => exact .inl ⟨_, .skipped (by simpa using hshown), rfl⟩
  · next hshown =>
    simp only [Bool.or_eq_true, String.isEmpty_iff, Option.isNone_iff_eq_none, not_or] at hshown
    split
    · next hpage => exact .inl ⟨_, .outOfRange (by simpa using hpage), rfl⟩
    · next hpage => exact .inr ⟨⟨hshown.1, hshown.2, by simpa using hpage⟩, rfl⟩

theorem start_load_cases (page : UInt32) (s : State) :
    (∃ o, AtOnce s (.load page) s o ∧ start (.load page) s = (s, .finished o)) ∨
      (s.view.key ≠ "" ∧ s.view.summary ≠ none ∧ s.view.paging.accepts page = true) ∧
        start (.load page) s = (asked s, .waiting (pageCall page false s)) := by
  rw [start, startLoad]
  rcases admitLoad_cases page s with ⟨o, ho, h⟩ | ⟨hpage, h⟩
  · rw [h]
    exact .inl ⟨o, ho, rfl⟩
  · rw [h]
    exact .inr ⟨hpage, fetchPage_current page false s⟩

theorem start_load_shown {page : UInt32} (hkey : s.view.key ≠ "")
    (hsummary : s.view.summary ≠ none) (hpage : s.view.paging.accepts page = true) :
    start (.load page) s = (asked s, .waiting (pageCall page false s)) := by
  rcases start_load_cases page s with ⟨o, ho, -⟩ | ⟨-, h⟩
  · cases ho with
    | skipped h => exact absurd h (not_or.mpr ⟨hkey, hsummary⟩)
    | outOfRange h => exact Bool.noConfusion (hpage.symm.trans h)
  · exact h

theorem start_load_rejected {page : UInt32} (hkey : s.view.key ≠ "")
    (hsummary : s.view.summary ≠ none) (hpage : s.view.paging.accepts page = false) :
    start (.load page) s = (s, .finished (.history .outOfRange)) := by
  rcases start_load_cases page s with ⟨o, ho, hstart⟩ | ⟨⟨_, _, haccepts⟩, -⟩
  · cases ho with
    | skipped h => exact absurd h (not_or.mpr ⟨hkey, hsummary⟩)
    | outOfRange => exact hstart
  · exact Bool.noConfusion (hpage.symm.trans haccepts)

theorem start_blank {raw : String} (hkey : Text.trim raw = "") (s : State) :
    start (.lookup raw) s = (withNotice (.ofFault (.validation keyRequired)) s,
      .finished (.refused (.validation keyRequired))) :=
  if_pos (String.isEmpty_iff.mpr hkey)

theorem start_atOnce {r : Request} (h : start r s = (s', .finished o)) : AtOnce s r s' o := by
  cases r with
  | lookup raw =>
    by_cases hkey : Text.trim raw = ""
    · rw [start_blank hkey] at h
      cases h
      exact .blank hkey
    by_cases hbusy : s.view.busy = true ∧ s.view.key = Text.trim raw
    · have hsame : (s.view.busy && s.view.key == Text.trim raw) = true := by simpa using hbusy
      simp only [start, startLookup, String.isEmpty_iff, if_neg hkey, if_pos hsame] at h
      cases h
      exact .inFlight hkey hbusy.1 hbusy.2
    · rw [start_lookup_new hkey hbusy] at h
      cases h
  | load page =>
    rcases start_load_cases page s with ⟨o', ho, heq⟩ | ⟨-, heq⟩
    · rw [heq] at h
      cases h
      exact ho
    · rw [heq] at h
      cases h
  | take =>
    cases h
    exact .take
  | snapshot =>
    cases h
    exact .snapshot

theorem start_finished {r : Request} (h : start r s = (s', .finished o)) :
    ∃ n, s' = { s with view := { s.view with notice := n } } := by
  cases start_atOnce h with
  | blank | inFlight | skipped | outOfRange | snapshot => exact ⟨_, rfl⟩
  | take => exact ⟨none, rfl⟩

theorem start_waiting {r : Request} (h : start r s = (s', .waiting x)) :
    (∃ raw, r = .lookup raw ∧ Text.trim raw ≠ "" ∧
        ¬(s.view.busy = true ∧ s.view.key = Text.trim raw) ∧
        s' = accepted (Text.trim raw) s ∧ x = .summary (Text.trim raw) (s.generation + 1)) ∨
      ∃ page, r = .load page ∧ s.view.key ≠ "" ∧ s.view.summary ≠ none ∧
        s.view.paging.accepts page = true ∧ s' = asked s ∧ x = pageCall page false s := by
  cases r with
  | lookup raw =>
    simp only [start, startLookup] at h
    split at h
    · cases h
    · next hkey =>
      split at h
      · cases h
      · next hfree =>
        cases h
        exact .inl ⟨raw, rfl, by simpa using hkey, by simpa using hfree, rfl, rfl⟩
  | load page =>
    rcases start_load_cases page s with ⟨o, -, heq⟩ | ⟨⟨hkey, hsummary, hpage⟩, heq⟩
    · rw [heq] at h
      cases h
    · rw [heq] at h
      cases h
      exact .inr ⟨page, rfl, hkey, hsummary, hpage, rfl, rfl⟩
  | take => cases h
  | snapshot => cases h

theorem settleSummary_late {generation : Nat} (h : s.generation ≠ generation)
    (a : Except Fault (Envelope Quota.Summary)) :
    settleSummary generation a s = (s, .finished .superseded) :=
  if_pos h

theorem resume_late (h : ¬x.Current s) (a : Answer (call x)) :
    resume x a s = (s, .finished x.lateOutcome) := by
  cases x with
  | summary key generation => exact congrArg thenFetch (settleSummary_late h a)
  | page key page size generation fetch chained =>
    have hor : s.generation ≠ generation ∨ s.fetch ≠ fetch := by
      simpa only [Waiting.Current, not_and_or] using h
    exact if_pos hor

theorem release_eq (x : Waiting) (s : State) :
    ∃ busy loading, release x s =
      { s with view := { s.view with busy := busy, loadingHistory := loading } } := by
  cases x with
  | summary key generation =>
    simp only [release]
    split
    · exact ⟨false, s.view.loadingHistory, rfl⟩
    · exact ⟨s.view.busy, s.view.loadingHistory, rfl⟩
  | page key page size generation fetch chained =>
    simp only [release]
    split
    · exact ⟨s.view.busy, false, rfl⟩
    · exact ⟨s.view.busy, s.view.loadingHistory, rfl⟩

theorem busy_of_release (h : (release x s).view.busy = true) :
    s.view.busy = true ∧ ∀ key, x ≠ .summary key s.generation := by
  cases x with
  | summary key generation =>
    simp only [release] at h
    split at h
    · cases h
    · next hne => exact ⟨h, by rintro key' ⟨⟩; exact hne rfl⟩
  | page key page size generation fetch chained =>
    simp only [release] at h
    split at h <;> exact ⟨h, nofun⟩

theorem loading_of_release (h : (release x s).view.loadingHistory = true) :
    s.view.loadingHistory = true ∧
      ∀ key page size generation chained, x ≠ .page key page size generation s.fetch chained := by
  cases x with
  | summary key generation =>
    simp only [release] at h
    split at h <;> exact ⟨h, nofun⟩
  | page key page size generation fetch chained =>
    simp only [release] at h
    split at h
    · cases h
    · next hne => exact ⟨h, by rintro _ _ _ _ _ ⟨⟩; exact hne rfl⟩

theorem settleSummary_cases (a : Except Fault (Envelope Quota.Summary)) (s : State) :
    (∃ message summary, a = .ok ⟨true, message, some summary⟩ ∧
        settleSummary s.generation a s =
          (summarized summary s, .waiting ⟨1, s.generation, true⟩)) ∨
      (∀ message summary, a ≠ .ok ⟨true, message, some summary⟩) ∧
        ∃ f, settleSummary s.generation a s = (refused f s, .finished (.refused f)) := by
  have hsettle : ∀ d, settle a queryFailed queryUnreachable = .ok d ↔
      ∃ message, a = .ok ⟨true, message, d⟩ := fun _ => settle_eq_ok_iff
  simp only [settleSummary, ne_eq, not_true_eq_false, if_false]
  rcases hs : settle a queryFailed queryUnreachable with f | _ | summary
  · refine .inr ⟨fun message summary ha => ?_, f, rfl⟩
    rw [(hsettle _).mpr ⟨message, ha⟩] at hs
    cases hs
  · refine .inr ⟨fun message summary ha => ?_, _, rfl⟩
    rw [(hsettle _).mpr ⟨message, ha⟩] at hs
    cases hs
  · obtain ⟨message, ha⟩ := (hsettle _).mp hs
    exact .inl ⟨message, summary, ha, rfl⟩

theorem resume_summary (key : String) (a : Answer (.quota key)) (s : State) :
    (∃ message summary, a = .ok ⟨true, message, some summary⟩ ∧
        resume (.summary key s.generation) a s =
          (asked (summarized summary s), .waiting (pageCall 1 true (summarized summary s)))) ∨
      (∀ message summary, a ≠ .ok ⟨true, message, some summary⟩) ∧
        ∃ f, resume (.summary key s.generation) a s = (refused f s, .finished (.refused f)) := by
  have hresume : resume (.summary key s.generation) a s =
      thenFetch (settleSummary s.generation a s) := rfl
  rw [hresume]
  rcases settleSummary_cases a s with ⟨message, summary, ha, h⟩ | ⟨ha, f, h⟩
  · rw [h]
    exact .inl ⟨message, summary, ha, fetchPage_current 1 true (summarized summary s)⟩
  · rw [h]
    exact .inr ⟨ha, f, rfl⟩

theorem resume_page (key : String) (page size : UInt32) (chained : Bool)
    (a : Answer (.history key page size)) (s : State) :
    (∃ message data, a = .ok ⟨true, message, data⟩ ∧
        resume (.page key page size s.generation s.fetch chained) a s =
          (landed page (data.getD {}) s,
            .finished (historyOutcome chained (.loaded page (data.getD {}).records.length)))) ∨
      (∀ message data, a ≠ .ok ⟨true, message, data⟩) ∧
        ∃ f, resume (.page key page size s.generation s.fetch chained) a s =
          (arrived s, .finished (historyOutcome chained (.failed f))) := by
  have hsettle : ∀ d, settle a historyFailed historyFailed = .ok d ↔
      ∃ message, a = .ok ⟨true, message, d⟩ := fun _ => settle_eq_ok_iff
  simp only [resume, resumePage, ne_eq, not_true_eq_false, or_self, if_false]
  rcases hs : settle a historyFailed historyFailed with f | data
  · refine .inr ⟨fun message data ha => ?_, f, rfl⟩
    rw [(hsettle _).mpr ⟨message, ha⟩] at hs
    cases hs
  · obtain ⟨message, ha⟩ := (hsettle _).mp hs
    exact .inl ⟨message, data, ha, rfl⟩

section Replies

variable {w : World controller} {t : Task controller}

theorem resumeTask_late (h : ¬Waiting.Current w.state t.waiting) (a : Answer (call t.waiting)) :
    w.resumeTask t a =
      (w.withoutTask t.number, { finished := [(t.number, Waiting.lateOutcome t.waiting)] }) :=
  congrArg (World.place t.number w) (resume_late h a)

theorem resumeTask_summary {key : String} (hx : t.waiting = .summary key w.state.generation)
    (r : Reply) :
    (∃ message summary, r (.quota key) = .ok ⟨true, message, some summary⟩ ∧
        w.resumeTask t (r (call t.waiting)) =
          w.place t.number (asked (summarized summary w.state),
            .waiting (pageCall 1 true (summarized summary w.state)))) ∨
      (∀ message summary, r (.quota key) ≠ .ok ⟨true, message, some summary⟩) ∧
        ∃ f, w.resumeTask t (r (call t.waiting)) =
          ({ w.withoutTask t.number with state := refused f w.state },
            { finished := [(t.number, .refused f)] }) := by
  obtain ⟨n, c, x⟩ := t
  subst hx
  rcases resume_summary key (r (.quota key)) w.state with ⟨message, summary, hr, h⟩ | ⟨hr, f, h⟩
  · exact .inl ⟨message, summary, hr, congrArg (World.place n w) h⟩
  · exact .inr ⟨hr, f, congrArg (World.place n w) h⟩

theorem resumeTask_page {key : String} {page size : UInt32} {chained : Bool}
    (hx : t.waiting = .page key page size w.state.generation w.state.fetch chained) (r : Reply) :
    (∃ message data, r (.history key page size) = .ok ⟨true, message, data⟩ ∧
        w.resumeTask t (r (call t.waiting)) =
          ({ w.withoutTask t.number with state := landed page (data.getD {}) w.state },
            { finished := [(t.number,
                historyOutcome chained (.loaded page (data.getD {}).records.length))] })) ∨
      (∀ message data, r (.history key page size) ≠ .ok ⟨true, message, data⟩) ∧
        ∃ f, w.resumeTask t (r (call t.waiting)) =
          ({ w.withoutTask t.number with state := arrived w.state },
            { finished := [(t.number, historyOutcome chained (.failed f))] }) := by
  obtain ⟨n, c, x⟩ := t
  subst hx
  rcases resume_page key page size chained (r (.history key page size)) w.state with
    ⟨message, data, hr, h⟩ | ⟨hr, f, h⟩
  · exact .inl ⟨message, data, hr, congrArg (World.place n w) h⟩
  · exact .inr ⟨hr, f, congrArg (World.place n w) h⟩

end Replies

/-- Everything that one event can do to a world of lookups. -/
inductive Turn (w : World controller) :
    Event controller → World controller × Trace controller → Prop
  | idle (e : Event controller) : Turn w e (w, {})
  | immediate {r : Request} {o : Outcome} {n : Option Notice}
      (h : start r w.state =
        ({ w.state with view := { w.state.view with notice := n } }, .finished o)) :
      Turn w (.request r)
        ({ w with
            state := { w.state with view := { w.state.view with notice := n } },
            started := w.started + 1 },
          { finished := [(w.started, o)] })
  | accepted {raw : String} {t : Task controller} (hkey : Text.trim raw ≠ "")
      (hfree : ¬(w.state.view.busy = true ∧ w.state.view.key = Text.trim raw))
      (ht : t = ⟨w.started, w.issued, .summary (Text.trim raw) (w.state.generation + 1)⟩) :
      Turn w (.request (.lookup raw))
        ({ state := accepted (Text.trim raw) w.state, tasks := w.tasks ++ [t],
            started := w.started + 1, issued := w.issued + 1 },
          { calls := [call t.waiting], opened := some t })
  | asked {page : UInt32} {t : Task controller} (hkey : w.state.view.key ≠ "")
      (hsummary : w.state.view.summary ≠ none)
      (hpage : w.state.view.paging.accepts page = true)
      (ht : t = ⟨w.started, w.issued, pageCall page false w.state⟩) :
      Turn w (.request (.load page))
        ({ state := asked w.state, tasks := w.tasks ++ [t],
            started := w.started + 1, issued := w.issued + 1 },
          { calls := [call t.waiting], opened := some t })
  | late {t : Task controller} {r : Reply} (ht : t ∈ w.tasks)
      (hlate : ¬Waiting.Current w.state t.waiting) :
      Turn w (.reply t.callNumber r)
        (w.withoutTask t.number, { finished := [(t.number, Waiting.lateOutcome t.waiting)] })
  | summarized {t u : Task controller} {key : String} {r : Reply} {message : Option String}
      {summary : Quota.Summary} (ht : t ∈ w.tasks)
      (hx : t.waiting = .summary key w.state.generation)
      (hr : r (.quota key) = .ok ⟨true, message, some summary⟩)
      (hu : u = ⟨t.number, w.issued, pageCall 1 true (summarized summary w.state)⟩) :
      Turn w (.reply t.callNumber r)
        ({ w with
            state := asked (summarized summary w.state), tasks := World.insertTask u w.tasks,
            issued := w.issued + 1 },
          { calls := [call u.waiting], opened := some u })
  | refused {t : Task controller} {key : String} {r : Reply} {f : Fault} (ht : t ∈ w.tasks)
      (hx : t.waiting = .summary key w.state.generation)
      (hr : ∀ message summary, r (.quota key) ≠ .ok ⟨true, message, some summary⟩) :
      Turn w (.reply t.callNumber r)
        ({ w.withoutTask t.number with state := refused f w.state },
          { finished := [(t.number, .refused f)] })
  | landed {t : Task controller} {key : String} {page size : UInt32} {chained : Bool} {r : Reply}
      {message : Option String} {data : Option Ledger.Page} (ht : t ∈ w.tasks)
      (hx : t.waiting = .page key page size w.state.generation w.state.fetch chained)
      (hr : r (.history key page size) = .ok ⟨true, message, data⟩) :
      Turn w (.reply t.callNumber r)
        ({ w.withoutTask t.number with state := landed page (data.getD {}) w.state },
          { finished := [(t.number,
              historyOutcome chained (.loaded page (data.getD {}).records.length))] })
  | failed {t : Task controller} {key : String} {page size : UInt32} {chained : Bool} {r : Reply}
      {f : Fault} (ht : t ∈ w.tasks)
      (hx : t.waiting = .page key page size w.state.generation w.state.fetch chained)
      (hr : ∀ message data, r (.history key page size) ≠ .ok ⟨true, message, data⟩) :
      Turn w (.reply t.callNumber r)
        ({ w.withoutTask t.number with state := arrived w.state },
          { finished := [(t.number, historyOutcome chained (.failed f))] })
  | dropped {t : Task controller} (ht : t ∈ w.tasks) :
      Turn w (.cancel t.number)
        ({ w.withoutTask t.number with state := release t.waiting w.state }, {})

theorem turn_reply {w : World controller} {t : Task controller} (ht : t ∈ w.tasks) (r : Reply) :
    Turn w (.reply t.callNumber r) (w.resumeTask t (r (call t.waiting))) := by
  by_cases hc : Waiting.Current w.state t.waiting
  · rcases hc.cases with ⟨key, hx⟩ | ⟨key, page, size, chained, hx⟩
    · rcases resumeTask_summary hx r with ⟨message, summary, hr, h⟩ | ⟨hr, f, h⟩
      · exact h ▸ .summarized ht hx hr rfl
      · exact h ▸ .refused ht hx hr
    · rcases resumeTask_page hx r with ⟨message, data, hr, h⟩ | ⟨hr, f, h⟩
      · exact h ▸ .landed ht hx hr
      · exact h ▸ .failed ht hx hr
  · rw [resumeTask_late hc]
    exact .late ht hc

theorem turn {w : World controller} (hw : w.Numbered) (e : Event controller) :
    Turn w e (w.step e) := by
  have hm := hw.move e
  generalize hp : w.step e = p at hm ⊢
  cases hm with
  | idle => exact .idle e
  | answered h =>
    obtain ⟨n, rfl⟩ := start_finished h
    exact .immediate h
  | began h =>
    rcases start_waiting h with ⟨raw, rfl, hkey, hfree, rfl, rfl⟩ |
      ⟨page, rfl, hkey, hsummary, hpage, rfl, rfl⟩
    · exact .accepted hkey hfree rfl
    · exact .asked hkey hsummary hpage rfl
  | ended ht h => exact hp ▸ hw.step_reply ht _ ▸ turn_reply ht _
  | continued ht h => exact hp ▸ hw.step_reply ht _ ▸ turn_reply ht _
  | dropped ht => exact .dropped ht

end Lookup
end QuotaDesk
