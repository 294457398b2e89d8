import QuotaDesk.Proofs.Controller.Strand
import QuotaDesk.Proofs.Dashboard.Registry
import QuotaDesk.Proofs.Dashboard.Turn

/-! What the requests of one session and those of all others do to the lookups. Beside the state
of the dashboard stands that of a dashboard which only this session uses. -/

namespace QuotaDesk.Dashboard

open Application

/-- The session that a request for a lookup page belongs to: the one that its cookie names, or
the one that it begins. -/
def session? (site : Site) (r : Request) (s : State) : Option Nat :=
  if asksLookup site r then
    (r.visitor.filter fun v => s.known.contains v).or ((lookupWork? site r).map fun _ => s.visitors)
  else none

def lookupOf? (v : Nat) (s : State) : Option Lookup.State :=
  (s.registry.entries.find? fun e => e.visitor == v).map fun e => s.registry.lookup e.slot

namespace Sessions

/-- Session `v` has not begun, or the state `u` of session `v` alone holds its lookup. -/
inductive Shown (v : Nat) (s u : State) : Prop
  | before (hs : s.visitors ≤ v) (hregistry : u.registry = {}) (hvisitors : u.visitors = v)
      (hknown : u.known = [])
  | during (hs : v < s.visitors) {slot lastSeen : Nat}
      (hmem : ⟨v, slot, lastSeen⟩ ∈ s.registry.entries)
      (hregistry : u.registry = .only v lastSeen (s.registry.lookup slot))
      (hvisitors : u.visitors = v + 1) (hknown : ∀ n, n ∈ u.known ↔ n = v ∧ v ∈ s.known)

structure Alike (v : Nat) (s u : State) : Prop where
  tidy : s.registry.Tidy s.visitors
  known_lt : ∀ n ∈ s.known, n < s.visitors
  shown : Shown v s u

def Own (v : Nat) (s : State) (x : Waiting) : Prop :=
  (∀ n, x.ticket.fresh = some n → n = v) ∧
    ∃ slot y, x.stage = .lookup slot y ∧ s.registry.Has v slot

def Other (v : Nat) (s : State) (x : Waiting) : Prop :=
  (∀ n, x.ticket.fresh = some n → n ≠ v ∧ n < s.visitors) ∧
    ∀ slot y, x.stage = .lookup slot y →
      slot < s.registry.lookups.length ∧ ¬s.registry.Has v slot

def moved : Waiting → Waiting
  | ⟨t, .lookup _ y⟩ => ⟨t, .lookup 0 y⟩
  | x => x

def strand (site : Site) (v : Nat) : Strand (application site) where
  mine r s := session? site r s == some v
  Fine r s := s.registry.Awake site.idle v r.now
  Alike := Alike v
  Own := Own v
  Other := Other v
  moved := moved

variable {site : Site} {v : Nat} {s s' u u' : State}

theorem keeps_of_later (hvisitors : s.visitors ≤ s'.visitors)
    (h : s.registry.Later v s'.registry) : (strand site v).Keeps s s' where
  own := by
    rintro x ⟨hfresh, slot, y, hstage, hslot⟩
    exact ⟨hfresh, slot, y, hstage, h.keeps slot hslot⟩
  other := by
    rintro x ⟨hfresh, hstage⟩
    refine ⟨fun n hn => ⟨(hfresh n hn).1, Nat.lt_of_lt_of_le (hfresh n hn).2 hvisitors⟩, ?_⟩
    intro slot y hx
    obtain ⟨hlt, hnot⟩ := hstage slot y hx
    refine ⟨Nat.lt_of_lt_of_le hlt h.length_le, fun hslot => ?_⟩
    rcases h.adds slot hslot with hslot | hle
    · exact hnot hslot
    · exact Nat.not_lt_of_le hle hlt

theorem Alike.visitor_lt (h : Alike v s u) {slot : Nat} (hslot : s.registry.Has v slot) :
    v < s.visitors := by
  obtain ⟨_, hmem⟩ := hslot
  exact h.tidy.visitor_lt _ hmem

theorem Alike.set_own (h : Alike v s u) {slot : Nat} (hslot : s.registry.Has v slot)
    (l : Lookup.State) :
    Alike v { s with registry := s.registry.setLookup slot l }
      { u with registry := u.registry.setLookup 0 l } where
  tidy := h.tidy.setLookup l
  known_lt := h.known_lt
  shown := by
    cases h.shown with
    | before hs hregistry hvisitors hknown => exact absurd (h.visitor_lt hslot) (Nat.not_lt_of_le hs)
    | @during hs slot' lastSeen hmem hregistry hvisitors hknown =>
      obtain rfl := h.tidy.slot_eq hslot ⟨_, hmem⟩
      refine @Shown.during _ _ _ hs slot lastSeen hmem ?_ hvisitors hknown
      simp only [Registry.lookup_setLookup (h.tidy.slot_lt _ hmem), hregistry]
      rfl

theorem Alike.set_other (h : Alike v s u) {slot : Nat} (hslot : ¬s.registry.Has v slot)
    (l : Lookup.State) : Alike v { s with registry := s.registry.setLookup slot l } u where
  tidy := h.tidy.setLookup l
  known_lt := h.known_lt
  shown := by
    cases h.shown with
    | before hs hregistry hvisitors hknown => exact .before hs hregistry hvisitors hknown
    | @during hs slot' lastSeen hmem hregistry hvisitors hknown =>
      have hne : slot ≠ slot' := fun heq => hslot ⟨lastSeen, heq ▸ hmem⟩
      refine @Shown.during _ _ _ hs slot' lastSeen hmem ?_ hvisitors hknown
      rw [Registry.lookup_setLookup_of_ne hne, hregistry]

theorem Alike.know_own (h : Alike v s u) (hv : v < s.visitors) {fresh : Option Nat}
    (hfresh : ∀ n, fresh = some n → n = v) :
    Alike v { s with known := fresh.toList ++ s.known }
      { u with known := fresh.toList ++ u.known } where
  tidy := h.tidy
  known_lt := by
    intro n hn
    rcases List.mem_append.mp hn with hn | hn
    · exact hfresh n (Option.mem_toList.mp hn) ▸ hv
    · exact h.known_lt n hn
  shown := by
    cases h.shown with
    | before hs hregistry hvisitors hknown => exact absurd hv (Nat.not_lt_of_le hs)
    | @during hs slot lastSeen hmem hregistry hvisitors hknown =>
      refine @Shown.during _ _ _ hs slot lastSeen hmem hregistry hvisitors fun n => ?_
      have hn : n ∈ fresh.toList ↔ n = v ∧ v ∈ fresh.toList := by
        simp only [Option.mem_toList]
        constructor
        · intro h
          exact ⟨hfresh n h, hfresh n h ▸ h⟩
        · rintro ⟨rfl, h⟩
          exact h
      simp only [List.mem_append, hn, hknown]
      tauto

theorem Alike.know_other (h : Alike v s u) {fresh : Option Nat}
    (hfresh : ∀ n, fresh = some n → n ≠ v ∧ n < s.visitors) :
    Alike v { s with known := fresh.toList ++ s.known } u where
  tidy := h.tidy
  known_lt := by
    intro n hn
    rcases List.mem_append.mp hn with hn | hn
    · exact (hfresh n (Option.mem_toList.mp hn)).2
    · exact h.known_lt n hn
  shown := by
    cases h.shown with
    | before hs hregistry hvisitors hknown => exact .before hs hregistry hvisitors hknown
    | @during hs slot lastSeen hmem hregistry hvisitors hknown =>
      have hv : v ∈ fresh.toList ++ s.known ↔ v ∈ s.known := by
        rw [List.mem_append]
        exact or_iff_right fun hn => (hfresh v (Option.mem_toList.mp hn)).1 rfl
      exact @Shown.during _ _ _ hs slot lastSeen hmem hregistry hvisitors fun n => by
        rw [hknown, hv]

theorem Alike.set_panel (h : Alike v s u) (panel panel' : Backup.Panel.State) :
    Alike v { s with panel } { u with panel := panel' } where
  tidy := h.tidy
  known_lt := h.known_lt
  shown := by
    cases h.shown with
    | before hs hregistry hvisitors hknown => exact .before hs hregistry hvisitors hknown
    | during hs hmem hregistry hvisitors hknown => exact .during hs hmem hregistry hvisitors hknown

theorem together_afterLookup (h : Alike v s u) {t : Ticket} {slot : Nat}
    (hslot : s.registry.Has v slot) (hfresh : ∀ n, t.fresh = some n → n = v)
    (p : Lookup.State × Progress Lookup.Waiting Lookup.Outcome) :
    (strand site v).Together s (afterLookup site t slot s p) (afterLookup site t 0 u p) := by
  obtain ⟨l, x | o⟩ := p
  · exact .waits (h.set_own hslot l) (keeps_of_later (Nat.le_refl _) (Registry.later_setLookup l))
      ⟨hfresh, slot, x, rfl, hslot⟩
  · have hset := h.set_own hslot (Lookup.taken l)
    have hkeeps : ∀ known, (strand site v).Keeps s
        { s with registry := s.registry.setLookup slot (Lookup.taken l), known } := fun known =>
      keeps_of_later (Nat.le_refl _) (Registry.later_setLookup _)
    simp only [afterLookup, showView]
    split
    · exact .ends (hset.know_own (h.visitor_lt hslot) hfresh) (hkeeps _)
    · exact .ends hset (hkeeps _)

theorem apart_afterLookup (h : Alike v s u) {t : Ticket} {slot : Nat}
    (hslot : ¬s.registry.Has v slot) (hlt : slot < s.registry.lookups.length)
    (hfresh : ∀ n, t.fresh = some n → n ≠ v ∧ n < s.visitors)
    (p : Lookup.State × Progress Lookup.Waiting Lookup.Outcome) :
    (strand site v).Apart s u (afterLookup site t slot s p) := by
  obtain ⟨l, x | o⟩ := p
  · refine .waits (h.set_other hslot l)
      (keeps_of_later (Nat.le_refl _) (Registry.later_setLookup l)) ⟨hfresh, ?_⟩
    rintro slot' y hstage
    cases hstage
    exact ⟨by simpa [Registry.setLookup] using hlt, hslot⟩
  · have hset := h.set_other hslot (Lookup.taken l)
    rw [afterLookup]
    rcases showView_cases site t slot l s with ⟨response, hstep⟩ | hstep
    · exact hstep ▸ .ends (hset.know_other hfresh)
        (keeps_of_later (Nat.le_refl _) (Registry.later_setLookup _))
    · exact hstep ▸ .ends hset (keeps_of_later (Nat.le_refl _) (Registry.later_setLookup _))

theorem apart_backed (h : Alike v s u) {t : Ticket} {p : Step}
    (hfresh : ∀ n, t.fresh = some n → n ≠ v ∧ n < s.visitors) (hp : Backed t s p) :
    (strand site v).Apart s u p := by
  cases hp with
  | answered r =>
    exact .ends (h.know_other hfresh) (keeps_of_later (Nat.le_refl _) (.refl _ _))
  | waits hlookup hcall =>
    refine .waits h (keeps_of_later (Nat.le_refl _) (.refl _ _)) ⟨hfresh, fun slot y hstage => ?_⟩
    exact absurd ⟨slot, y, hstage⟩ hlookup
  | raised c hs =>
    refine .waits (h.set_panel _ u.panel) (keeps_of_later (Nat.le_refl _) (.refl _ _)) ⟨hfresh, ?_⟩
    exact nofun

theorem visit_cases (r : Request) (s : State) :
    (∃ n, r.visitor = some n ∧ n ∈ s.known ∧ visit r s = (n, none, s)) ∨
      (∀ n, r.visitor = some n → n ∉ s.known) ∧
        visit r s = (s.visitors, some s.visitors, { s with visitors := s.visitors + 1 }) := by
  unfold visit
  split
  · next n hn =>
    obtain ⟨hvisitor, hknown⟩ := Option.filter_eq_some_iff.mp hn
    exact .inl ⟨n, hvisitor, List.contains_iff_mem.mp hknown, rfl⟩
  · next hnone =>
    refine .inr ⟨fun n hn hknown => ?_, rfl⟩
    rw [hn, Option.filter_some, List.contains_iff_mem.mpr hknown] at hnone
    cases hnone

theorem session?_of_work {r : Request} {work : Option Lookup.Request}
    (hwork : lookupWork? site r = some work) (s : State) :
    session? site r s = some (visit r s).1 := by
  have hasks : asksLookup site r = true := by
    unfold lookupWork? at hwork
    unfold asksLookup
    split at hwork
    · next heq => simp [heq]
    · next heq => simp [heq]
    · cases hwork
  rw [session?, if_pos hasks, hwork]
  unfold visit
  cases r.visitor.filter fun v => s.known.contains v <;> rfl

def arrive (site : Site) (r : Request) (s : State) : Nat × State :=
  let g := (visit r s).2.2.registry.checkout site.idle r.now (visit r s).1
  (g.1, { (visit r s).2.2 with registry := g.2 })

theorem withLookup_eq (r : Request) (work : Option Lookup.Request) (s : State) :
    withLookup site r work s = afterLookup site ⟨r.isHead, (visit r s).2.1⟩ (arrive site r s).1
      (arrive site r s).2 (Lookup.start (work.getD .snapshot)
        ((arrive site r s).2.registry.lookup (arrive site r s).1)) :=
  rfl

structure Welcomed (site : Site) (v : Nat) (r : Request) (s u : State) : Prop where
  alike : Alike v (arrive site r s).2 (arrive site r u).2
  has : (arrive site r s).2.registry.Has v (arrive site r s).1
  slot_eq : (arrive site r u).1 = 0
  fresh_eq : (visit r u).2.1 = (visit r s).2.1
  fresh_own : ∀ n, (visit r s).2.1 = some n → n = v
  visitors_le : s.visitors ≤ (arrive site r s).2.visitors
  later : s.registry.Later v (arrive site r s).2.registry

theorem welcomed_known (h : Alike v s u) {r : Request} (hvisitor : r.visitor = some v)
    (hknown : v ∈ s.known) (hvisit : visit r s = (v, none, s))
    (hawake : s.registry.Awake site.idle v r.now) : Welcomed site v r s u := by
  have hlt := h.known_lt v hknown
  cases h.shown with
  | before hs => exact absurd hlt (Nat.not_lt_of_le hs)
  | @during _ slot lastSeen hmem hregistry hvisitors hknown' =>
    have hvisit' : visit r u = (v, none, u) := by
      rcases visit_cases r u with ⟨n, hn, _, heq⟩ | ⟨hnew, _⟩
      · obtain rfl := Option.some.inj (hvisitor.symm.trans hn)
        exact heq
      · exact absurd ((hknown' v).mpr ⟨rfl, hknown⟩) (hnew v hvisitor)
    have hp := Registry.visited site.idle r.now v s.registry
    obtain ⟨hslot, hmem'⟩ := Registry.checkout_of_mem h.tidy hmem hawake
    have harrive : arrive site r s = (slot,
        { s with registry := (s.registry.checkout site.idle r.now v).2 }) := by
      rw [arrive, hvisit, ← hslot]
    have harrive' : arrive site r u = (0,
        { u with registry := .only v r.now (s.registry.lookup slot) }) := by
      rw [arrive, hvisit', hregistry, Registry.checkout_only (hawake _ hmem rfl)]
    constructor
    · rw [harrive, harrive']
      refine ⟨hp.tidy h.tidy hlt, h.known_lt, .during hlt hmem' ?_ hvisitors hknown'⟩
      rw [hp.lookup]
    · rw [harrive]
      exact ⟨_, hmem'⟩
    · rw [harrive']
    · rw [hvisit, hvisit']
    · rw [hvisit]
      exact nofun
    · exact Nat.le_of_eq (by rw [harrive])
    · rw [harrive]
      exact hp.later hawake

theorem welcomed_new (h : Alike v s u) {r : Request} (hv : s.visitors = v)
    (hvisit : visit r s = (v, some v, { s with visitors := v + 1 }))
    (hawake : s.registry.Awake site.idle v r.now) : Welcomed site v r s u := by
  subst hv
  cases h.shown with
  | during hs => exact absurd hs (Nat.lt_irrefl _)
  | before _ hregistry hvisitors hknown =>
    have hvisit' : visit r u =
        (s.visitors, some s.visitors, { u with visitors := s.visitors + 1 }) := by
      rcases visit_cases r u with ⟨n, _, hn, _⟩ | ⟨_, heq⟩
      · rw [hknown] at hn
        exact absurd hn List.not_mem_nil
      · rw [heq, hvisitors]
    have hp := Registry.visited site.idle r.now s.visitors s.registry
    obtain ⟨hslot, hmem⟩ := Registry.checkout_of_new h.tidy site.idle r.now
    have hunused : s.registry.lookup s.registry.lookups.length = {} := by simp [Registry.lookup]
    have harrive : arrive site r s = (s.registry.lookups.length, { s with
        registry := (s.registry.checkout site.idle r.now s.visitors).2,
        visitors := s.visitors + 1 }) := by
      rw [arrive, hvisit, ← hslot]
    have harrive' : arrive site r u = (0, { u with
        registry := .only s.visitors r.now {}, visitors := s.visitors + 1 }) := by
      rw [arrive, hvisit', hregistry, Registry.checkout_empty]
    constructor
    · rw [harrive, harrive']
      refine ⟨hp.tidy (h.tidy.mono (Nat.le_succ _)) (Nat.lt_succ_self _),
        fun n hn => Nat.lt_succ_of_lt (h.known_lt n hn), .during (Nat.lt_succ_self _) hmem ?_ rfl ?_⟩
      · rw [hp.lookup, hunused]
      · intro n
        simp only [hknown, List.not_mem_nil, false_iff, not_and]
        exact fun _ hmem => Nat.lt_irrefl _ (h.known_lt _ hmem)
    · rw [harrive]
      exact ⟨_, hmem⟩
    · rw [harrive']
    · rw [hvisit, hvisit']
    · rw [hvisit]
      exact fun n hn => (Option.some.inj hn).symm
    · rw [harrive]
      exact Nat.le_succ _
    · rw [harrive]
      exact hp.later hawake

theorem welcomed (h : Alike v s u) {r : Request} (hv : (visit r s).1 = v)
    (hawake : s.registry.Awake site.idle v r.now) : Welcomed site v r s u := by
  rcases visit_cases r s with ⟨n, hn, hknown, hvisit⟩ | ⟨_, hvisit⟩
  · obtain rfl : n = v := by rw [← hv, hvisit]
    exact welcomed_known h hn hknown hvisit hawake
  · have hvisitors : s.visitors = v := by rw [← hv, hvisit]
    exact welcomed_new h hvisitors (hvisitors ▸ hvisit) hawake

structure Passed (site : Site) (v : Nat) (r : Request) (s u : State) : Prop where
  alike : Alike v (arrive site r s).2 u
  not_has : ¬(arrive site r s).2.registry.Has v (arrive site r s).1
  slot_lt : (arrive site r s).1 < (arrive site r s).2.registry.lookups.length
  fresh_other : ∀ n, (visit r s).2.1 = some n → n ≠ v ∧ n < (arrive site r s).2.visitors
  visitors_le : s.visitors ≤ (arrive site r s).2.visitors
  later : s.registry.Later v (arrive site r s).2.registry

theorem passed (h : Alike v s u) {r : Request} (hv : (visit r s).1 ≠ v)
    (hawake : s.registry.Awake site.idle v r.now) : Passed site v r s u := by
  have hp := Registry.visited site.idle r.now (visit r s).1 s.registry
  -- Whether the session is new or not, it is another one and its number has been given.
  have hgiven : ∃ m, s.visitors ≤ m ∧ (s.visitors ≤ v → m ≤ v) ∧ (visit r s).1 < m ∧
      (visit r s).2.2 = { s with visitors := m } ∧
      ∀ n, (visit r s).2.1 = some n → n = (visit r s).1 := by
    rcases visit_cases r s with ⟨n, _, hknown, hvisit⟩ | ⟨_, hvisit⟩
    · rw [hvisit]
      exact ⟨s.visitors, Nat.le_refl _, id, h.known_lt n hknown, rfl, nofun⟩
    · rw [hvisit] at hv ⊢
      exact ⟨s.visitors + 1, Nat.le_succ _, fun hle => Nat.lt_of_le_of_ne hle hv,
        Nat.lt_succ_self _, rfl, fun n hn => (Option.some.inj hn).symm⟩
  obtain ⟨m, hle, hbefore, hlt, hstate, hfresh⟩ := hgiven
  have htidy := hp.tidy (h.tidy.mono hle) hlt
  have harrive : arrive site r s = ((s.registry.checkout site.idle r.now (visit r s).1).1, { s with
      registry := (s.registry.checkout site.idle r.now (visit r s).1).2, visitors := m }) := by
    rw [arrive, hstate]
  constructor
  · rw [harrive]
    refine ⟨htidy, fun n hn => Nat.lt_of_lt_of_le (h.known_lt n hn) hle, ?_⟩
    cases h.shown with
    | before hs hregistry hvisitors hknown =>
      exact .before (hbefore hs) hregistry hvisitors hknown
    | during hs hmem hregistry hvisitors hknown =>
      refine .during (Nat.lt_of_lt_of_le hs hle) (hp.mem_of_ne hawake hv hmem) ?_ hvisitors hknown
      rw [hp.lookup, hregistry]
  · rw [harrive]
    exact hp.not_has_of_ne htidy hv
  · rw [harrive]
    obtain ⟨_, hmem⟩ := hp.has
    exact htidy.slot_lt _ hmem
  · rw [harrive]
    intro n hn
    rw [hfresh n hn]
    exact ⟨hv, hlt⟩
  · rw [harrive]
    exact hle
  · rw [harrive]
    exact hp.later hawake

end Sessions
end QuotaDesk.Dashboard
