import Mathlib.Data.List.Nodup
import QuotaDesk.Dashboard.Registry

/-! The registry of the sessions' lookups. Every session has a slot of its own, which it keeps
while it is not idle, and a slot is never given out a second time. -/

namespace QuotaDesk.Dashboard.Registry

variable {idle now n v slot : Nat} {g : Registry}

def Has (v slot : Nat) (g : Registry) : Prop :=
  ∃ seen, ⟨v, slot, seen⟩ ∈ g.entries

structure Tidy (n : Nat) (g : Registry) : Prop where
  visitor_lt : ∀ e ∈ g.entries, e.visitor < n
  slot_lt : ∀ e ∈ g.entries, e.slot < g.lookups.length
  visitors_nodup : (g.entries.map Entry.visitor).Nodup
  slots_nodup : (g.entries.map Entry.slot).Nodup

def Awake (idle v now : Nat) (g : Registry) : Prop :=
  ∀ e ∈ g.entries, e.visitor = v → now - e.lastSeen < idle

def Since (lo : Nat) (g : Registry) : Prop :=
  ∀ e ∈ g.entries, lo ≤ e.lastSeen

structure Later (v : Nat) (g g' : Registry) : Prop where
  length_le : g.lookups.length ≤ g'.lookups.length
  keeps : ∀ slot, g.Has v slot → g'.Has v slot
  adds : ∀ slot, g'.Has v slot → g.Has v slot ∨ g.lookups.length ≤ slot

theorem Later.refl (v : Nat) (g : Registry) : Later v g g :=
  ⟨Nat.le_refl _, fun _ => id, fun _ => .inl⟩

theorem later_setLookup (l : Lookup.State) : Later v g (g.setLookup slot l) :=
  ⟨by simp [setLookup], fun _ => id, fun _ => .inl⟩

theorem lookup_setLookup (h : slot < g.lookups.length) (l : Lookup.State) :
    (g.setLookup slot l).lookup slot = l := by
  simp [lookup, setLookup, h]

theorem lookup_setLookup_of_ne {slot' : Nat} (h : slot' ≠ slot) (l : Lookup.State) :
    (g.setLookup slot' l).lookup slot = g.lookup slot := by
  simp [lookup, setLookup, List.getElem?_set_ne h]

theorem Tidy.setLookup (h : g.Tidy n) (l : Lookup.State) : (g.setLookup slot l).Tidy n where
  visitor_lt := h.visitor_lt
  slot_lt e he := by simpa [Registry.setLookup] using h.slot_lt e he
  visitors_nodup := h.visitors_nodup
  slots_nodup := h.slots_nodup

theorem Tidy.mono {m : Nat} (h : g.Tidy n) (hnm : n ≤ m) : g.Tidy m :=
  ⟨fun e he => Nat.lt_of_lt_of_le (h.visitor_lt e he) hnm, h.slot_lt, h.visitors_nodup,
    h.slots_nodup⟩

theorem Tidy.visitor_inj (h : g.Tidy n) {e e' : Entry} (he : e ∈ g.entries) (he' : e' ∈ g.entries)
    (heq : e.visitor = e'.visitor) : e = e' :=
  List.inj_on_of_nodup_map h.visitors_nodup he he' heq

theorem Tidy.slot_inj (h : g.Tidy n) {e e' : Entry} (he : e ∈ g.entries) (he' : e' ∈ g.entries)
    (heq : e.slot = e'.slot) : e = e' :=
  List.inj_on_of_nodup_map h.slots_nodup he he' heq

theorem Tidy.slot_eq (h : g.Tidy n) {slot' : Nat} (hs : g.Has v slot) (hs' : g.Has v slot') :
    slot = slot' := by
  obtain ⟨_, hs⟩ := hs
  obtain ⟨_, hs'⟩ := hs'
  exact congrArg Entry.slot (h.visitor_inj hs hs' rfl)

inductive Visited (idle now v : Nat) (g : Registry) : Nat × Registry → Prop
  | found {e : Entry} (he : e ∈ g.entries) (hv : e.visitor = v) (hidle : now - e.lastSeen < idle) :
      Visited idle now v g (e.slot, ⟨g.lookups, (g.evict idle now).entries.map (seen now v)⟩)
  | new (hnone : ∀ e ∈ g.entries, now - e.lastSeen < idle → e.visitor ≠ v) :
      Visited idle now v g (g.lookups.length,
        ⟨g.lookups ++ [({} : Lookup.State)], (g.evict idle now).entries ++ [⟨v, g.lookups.length, now⟩]⟩)

theorem mem_evict {e : Entry} :
    e ∈ (g.evict idle now).entries ↔ e ∈ g.entries ∧ now - e.lastSeen < idle := by
  simp [evict]

theorem visited (idle now v : Nat) (g : Registry) : Visited idle now v g (g.checkout idle now v) := by
  simp only [checkout]
  split
  · next e hfind =>
    have he := mem_evict.mp (List.mem_of_find?_eq_some hfind)
    have hv := List.find?_some hfind
    exact .found he.1 (beq_iff_eq.mp hv) he.2
  · next hfind =>
    refine .new fun e he hidle hv => ?_
    exact List.find?_eq_none.mp hfind e (mem_evict.mpr ⟨he, hidle⟩) (beq_iff_eq.mpr hv)

@[simp] theorem seen_visitor (now v : Nat) (e : Entry) : (seen now v e).visitor = e.visitor := by
  unfold seen
  split <;> rfl

@[simp] theorem seen_slot (now v : Nat) (e : Entry) : (seen now v e).slot = e.slot := by
  unfold seen
  split <;> rfl

theorem Tidy.evict (h : g.Tidy n) (idle now : Nat) : (g.evict idle now).Tidy n where
  visitor_lt e he := h.visitor_lt e (mem_evict.mp he).1
  slot_lt e he := h.slot_lt e (mem_evict.mp he).1
  visitors_nodup := h.visitors_nodup.sublist (List.filter_sublist.map _)
  slots_nodup := h.slots_nodup.sublist (List.filter_sublist.map _)

theorem Visited.tidy {p : Nat × Registry} (hp : Visited idle now v g p) (h : g.Tidy n) (hv : v < n) :
    p.2.Tidy n := by
  have hevict := h.evict idle now
  cases hp with
  | found he hv' hidle =>
    constructor
    · simpa only [List.forall_mem_map, seen_visitor] using hevict.visitor_lt
    · simp only [List.forall_mem_map, seen_slot]
      exact hevict.slot_lt
    · simpa only [List.map_map, Function.comp_def, seen_visitor] using hevict.visitors_nodup
    · simpa only [List.map_map, Function.comp_def, seen_slot] using hevict.slots_nodup
  | new hnone =>
    have hvisitor : v ∉ (g.evict idle now).entries.map Entry.visitor := by
      rw [List.mem_map]
      rintro ⟨e, he, hv'⟩
      exact hnone e (mem_evict.mp he).1 (mem_evict.mp he).2 hv'
    have hslot : g.lookups.length ∉ (g.evict idle now).entries.map Entry.slot := by
      rw [List.mem_map]
      rintro ⟨e, he, heq⟩
      exact Nat.ne_of_lt (hevict.slot_lt e he) heq
    constructor
    · intro e he
      rcases List.mem_append.mp he with he | he
      · exact hevict.visitor_lt e he
      · exact List.mem_singleton.mp he ▸ hv
    · intro e he
      rw [List.length_append, List.length_singleton]
      rcases List.mem_append.mp he with he | he
      · exact Nat.lt_succ_of_lt (hevict.slot_lt e he)
      · exact List.mem_singleton.mp he ▸ Nat.lt_succ_self _
    · rw [List.map_append, List.map_singleton, ← List.concat_eq_append]
      exact hevict.visitors_nodup.concat hvisitor
    · rw [List.map_append, List.map_singleton, ← List.concat_eq_append]
      exact hevict.slots_nodup.concat hslot

theorem Visited.has {p : Nat × Registry} (hp : Visited idle now v g p) : p.2.Has v p.1 := by
  cases hp with
  | @found e he hv hidle =>
    have hseen : seen now v e = ⟨v, e.slot, now⟩ := by
      rw [seen, if_pos hv, hv]
    exact ⟨now, List.mem_map.mpr ⟨e, mem_evict.mpr ⟨he, hidle⟩, hseen⟩⟩
  | new hnone => exact ⟨now, List.mem_append_right _ (List.mem_singleton_self _)⟩

theorem Visited.since {lo : Nat} {p : Nat × Registry} (hp : Visited idle now v g p)
    (h : g.Since lo) (hnow : lo ≤ now) : p.2.Since lo := by
  cases hp with
  | found he hv hidle =>
    refine List.forall_mem_map.mpr fun e he => ?_
    unfold seen
    split
    · exact hnow
    · exact h e (mem_evict.mp he).1
  | new hnone =>
    intro e he
    rcases List.mem_append.mp he with he | he
    · exact h e (mem_evict.mp he).1
    · exact List.mem_singleton.mp he ▸ hnow

theorem Visited.lookup {p : Nat × Registry} (hp : Visited idle now v g p) (slot : Nat) :
    p.2.lookup slot = g.lookup slot := by
  cases hp with
  | found he hv hidle => rfl
  | new hnone =>
    simp only [Registry.lookup]
    rcases Nat.lt_trichotomy slot g.lookups.length with h | rfl | h
    · rw [List.getElem?_append_left h]
    · simp
    · rw [List.getElem?_eq_none (by rw [List.length_append]; exact h),
        List.getElem?_eq_none (Nat.le_of_lt h)]

section Awake

variable {v' : Nat} {p : Nat × Registry}

theorem Visited.later (hp : Visited idle now v' g p) (hawake : g.Awake idle v now) :
    Later v g p.2 := by
  cases hp with
  | found he hv hidle =>
    refine ⟨Nat.le_refl _, ?_, ?_⟩
    · rintro slot ⟨lastSeen, hmem⟩
      have hkept : seen now v' ⟨v, slot, lastSeen⟩ ∈ (g.evict idle now).entries.map (seen now v') :=
        List.mem_map_of_mem (mem_evict.mpr ⟨hmem, hawake _ hmem rfl⟩)
      refine ⟨(seen now v' ⟨v, slot, lastSeen⟩).lastSeen, ?_⟩
      -- A visit changes at most when an entry was last seen.
      have heta : seen now v' ⟨v, slot, lastSeen⟩ =
          ⟨v, slot, (seen now v' ⟨v, slot, lastSeen⟩).lastSeen⟩ := by
        unfold seen
        split <;> rfl
      exact heta ▸ hkept
    · rintro slot ⟨lastSeen, hmem⟩
      obtain ⟨e, he, heq⟩ := List.mem_map.mp hmem
      have hvisitor : e.visitor = v := by rw [← seen_visitor now v' e, heq]
      have hslot : e.slot = slot := by rw [← seen_slot now v' e, heq]
      exact .inl ⟨e.lastSeen, hvisitor ▸ hslot ▸ (mem_evict.mp he).1⟩
  | new hnone =>
    refine ⟨by simp, ?_, ?_⟩
    · rintro slot ⟨lastSeen, hmem⟩
      exact ⟨lastSeen, List.mem_append_left _ (mem_evict.mpr ⟨hmem, hawake _ hmem rfl⟩)⟩
    · rintro slot ⟨lastSeen, hmem⟩
      rcases List.mem_append.mp hmem with hmem | hmem
      · exact .inl ⟨lastSeen, (mem_evict.mp hmem).1⟩
      · exact .inr (Nat.le_of_eq (congrArg Entry.slot (List.mem_singleton.mp hmem)).symm)

theorem Visited.mem_of_ne (hp : Visited idle now v' g p) (hawake : g.Awake idle v now)
    (hv : v' ≠ v) {slot lastSeen : Nat} (h : ⟨v, slot, lastSeen⟩ ∈ g.entries) :
    ⟨v, slot, lastSeen⟩ ∈ p.2.entries := by
  have hmem := mem_evict.mpr ⟨h, hawake _ h rfl⟩
  cases hp with
  | found he hv' hidle =>
    exact List.mem_map.mpr ⟨_, hmem, if_neg hv.symm⟩
  | new hnone => exact List.mem_append_left _ hmem

theorem Visited.not_has_of_ne (hp : Visited idle now v' g p) (h : p.2.Tidy n) (hv : v' ≠ v) :
    ¬p.2.Has v p.1 := by
  obtain ⟨lastSeen', hmem'⟩ := hp.has
  rintro ⟨lastSeen, hmem⟩
  exact hv (congrArg Entry.visitor (h.slot_inj hmem' hmem rfl))

theorem checkout_of_mem (h : g.Tidy n) {slot lastSeen : Nat} (hmem : ⟨v, slot, lastSeen⟩ ∈ g.entries)
    (hawake : g.Awake idle v now) :
    (g.checkout idle now v).1 = slot ∧ ⟨v, slot, now⟩ ∈ (g.checkout idle now v).2.entries := by
  have hp := visited idle now v g
  generalize g.checkout idle now v = p at hp
  cases hp with
  | @found e he hv hidle =>
    obtain rfl := h.visitor_inj he hmem hv
    exact ⟨rfl, List.mem_map.mpr ⟨_, mem_evict.mpr ⟨hmem, hidle⟩, if_pos rfl⟩⟩
  | new hnone => exact absurd rfl (hnone _ hmem (hawake _ hmem rfl))

end Awake

theorem checkout_of_new (h : g.Tidy v) (idle now : Nat) :
    (g.checkout idle now v).1 = g.lookups.length ∧
      ⟨v, g.lookups.length, now⟩ ∈ (g.checkout idle now v).2.entries := by
  have hp := visited idle now v g
  generalize g.checkout idle now v = p at hp
  cases hp with
  | found he hv hidle => exact absurd hv (Nat.ne_of_lt (h.visitor_lt _ he))
  | new hnone => exact ⟨rfl, List.mem_append_right _ (List.mem_singleton_self _)⟩

def only (v lastSeen : Nat) (l : Lookup.State) : Registry :=
  ⟨[l], [⟨v, 0, lastSeen⟩]⟩

theorem checkout_only {lastSeen : Nat} {l : Lookup.State} (h : now - lastSeen < idle) :
    (only v lastSeen l).checkout idle now v = (0, only v now l) := by
  simp [only, checkout, evict, seen, h]

theorem checkout_empty : ({} : Registry).checkout idle now v = (0, only v now {}) :=
  rfl

end QuotaDesk.Dashboard.Registry
