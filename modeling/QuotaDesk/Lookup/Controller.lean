import QuotaDesk.Controller.Basic
import QuotaDesk.Lookup.View

/-! Lookup of a key with a paged ledger.

Every accepted lookup starts a new generation, and a reply of an older one is
dropped without touching the view. A summary is followed by the first page of
the ledger. Page requests carry a count of their own, so that only the newest
one lands. -/

namespace QuotaDesk.Lookup

def keyRequired : String := "key required"
def querySucceeded : String := "query succeeded"
def queryFailed : String := "query failed"
def queryUnreachable : String := "query failed, please check your network connection"
def historyFailed : String := "failed to load usage history"

/-- The counts have 64 bits in a running program; they are taken not to run out. -/
structure State where
  view : View := {}
  generation : Nat := 0
  fetch : Nat := 0
  deriving DecidableEq, Repr

inductive Request
  | lookup (key : String)
  | load (page : UInt32)
  | take
  | snapshot
  deriving DecidableEq, Repr

/-- A page request that follows a summary is part of its lookup. -/
inductive Waiting
  | summary (key : String) (generation : Nat)
  | page (key : String) (page size : UInt32) (generation fetch : Nat) (chained : Bool)
  deriving DecidableEq, Repr

inductive History
  | loaded (page : UInt32) (records : Nat)
  | skipped
  | outOfRange
  | superseded
  | failed (f : Fault)
  deriving DecidableEq, Repr

inductive Outcome
  | loaded (h : History)
  | inFlight
  | superseded
  | refused (f : Fault)
  | history (h : History)
  | view (v : View)
  deriving DecidableEq, Repr

def call : Waiting → Call
  | .summary key _ => .quota key
  | .page key page size _ _ _ => .history key page size

/-- A page request on its way to the service, with the generation in which it was admitted. -/
structure PageRequest where
  page : UInt32
  generation : Nat
  chained : Bool
  deriving DecidableEq, Repr

def historyOutcome (chained : Bool) (h : History) : Outcome :=
  if chained then .loaded h else .history h

/-- Sends a page request for the key on show, unless a lookup has started since it was admitted. -/
def fetchPage (r : PageRequest) (s : State) : State × Progress Waiting Outcome :=
  if s.generation ≠ r.generation then (s, .finished (historyOutcome r.chained .superseded))
  else
    let fetch := s.fetch + 1
    ({ s with view := { s.view with loadingHistory := true }, fetch },
      .waiting (.page s.view.key r.page s.view.paging.size r.generation fetch r.chained))

def thenFetch : State × Progress PageRequest Outcome → State × Progress Waiting Outcome
  | (s, .waiting r) => fetchPage r s
  | (s, .finished o) => (s, .finished o)

def withNotice (n : Notice) (s : State) : State :=
  { s with view := { s.view with notice := some n } }

def refuse {ω : Type} (f : Fault) (s : State) : State × Progress ω Outcome :=
  (withNotice (.ofFault f) s, .finished (.refused f))

def startLookup (raw : String) (s : State) : State × Progress Waiting Outcome :=
  let key := Text.trim raw
  if key.isEmpty then refuse (.validation keyRequired) s
  else if s.view.busy && s.view.key == key then (s, .finished .inFlight)
  else
    let generation := s.generation + 1
    ({ s with view := { key, busy := true }, generation }, .waiting (.summary key generation))

def admitLoad (page : UInt32) (s : State) : State × Progress PageRequest Outcome :=
  if s.view.key.isEmpty || s.view.summary.isNone then (s, .finished (.history .skipped))
  else if !s.view.paging.accepts page then (s, .finished (.history .outOfRange))
  else (s, .waiting ⟨page, s.generation, false⟩)

def startLoad (page : UInt32) (s : State) : State × Progress Waiting Outcome :=
  thenFetch (admitLoad page s)

def taken (s : State) : State :=
  { s with view := { s.view with notice := none } }

def start : Request → State → State × Progress Waiting Outcome
  | .lookup key, s => startLookup key s
  | .load page, s => startLoad page s
  | .take, s => (taken s, .finished (.view s.view))
  | .snapshot, s => (s, .finished (.view s.view))

def settleSummary (generation : Nat) (a : Except Fault (Envelope Quota.Summary)) (s : State) :
    State × Progress PageRequest Outcome :=
  if s.generation ≠ generation then (s, .finished .superseded)
  else
    let s := { s with view := { s.view with busy := false } }
    match settle a queryFailed queryUnreachable with
    | .ok (some summary) =>
      (withNotice ⟨.success, querySucceeded⟩
        { s with view := { s.view with summary := some summary } }, .waiting ⟨1, generation, true⟩)
    | .ok none => refuse (.logical queryFailed) s
    | .error f => refuse f s

def resumeSummary (generation : Nat) (a : Except Fault (Envelope Quota.Summary)) (s : State) :
    State × Progress Waiting Outcome :=
  thenFetch (settleSummary generation a s)

def landPage (page : UInt32) (data : Ledger.Page) (v : View) : View :=
  { v with
    records := data.records
    paging := { v.paging with total := data.total, current := page } }

def resumePage (page : UInt32) (generation fetch : Nat) (chained : Bool)
    (a : Except Fault (Envelope Ledger.Page)) (s : State) : State × Progress Waiting Outcome :=
  if s.generation ≠ generation ∨ s.fetch ≠ fetch then
    (s, .finished (historyOutcome chained .superseded))
  else
    let s := { s with view := { s.view with loadingHistory := false } }
    match settle a historyFailed historyFailed with
    | .ok data =>
      let data := data.getD {}
      ({ s with view := landPage page data s.view },
        .finished (historyOutcome chained (.loaded page data.records.length)))
    | .error f => (s, .finished (historyOutcome chained (.failed f)))

def resume : (w : Waiting) → Answer (call w) → State → State × Progress Waiting Outcome
  | .summary _ generation, a, s => resumeSummary generation a s
  | .page _ page _ generation fetch chained, a, s => resumePage page generation fetch chained a s

def release : Waiting → State → State
  | .summary _ generation, s =>
    if s.generation = generation then { s with view := { s.view with busy := false } } else s
  | .page _ _ _ _ fetch _, s =>
    if s.fetch = fetch then { s with view := { s.view with loadingHistory := false } } else s

def rank : Waiting → Nat
  | .summary .. => 2
  | .page .. => 1

theorem rank_thenFetch {p : State × Progress PageRequest Outcome} {w : Waiting}
    (h : (thenFetch p).2 = .waiting w) : rank w = 1 := by
  obtain ⟨s, r | o⟩ := p
  · simp only [thenFetch, fetchPage] at h
    split at h
    · cases h
    · cases h
      rfl
  · cases h

theorem rank_lt (w : Waiting) (a : Answer (call w)) (s : State) (w' : Waiting)
    (h : (resume w a s).2 = .waiting w') : rank w' < rank w := by
  cases w with
  | summary key generation =>
    rw [rank_thenFetch h]
    exact Nat.lt_succ_self 1
  | page key page size generation fetch chained =>
    simp only [resume, resumePage] at h
    split at h
    · simp at h
    · split at h <;> simp at h

abbrev controller : Controller where
  State := State
  Request := Request
  Waiting := Waiting
  Outcome := Outcome
  call := call
  start := start
  resume := resume
  release := release
  rank := rank
  rank_lt := rank_lt

end QuotaDesk.Lookup
