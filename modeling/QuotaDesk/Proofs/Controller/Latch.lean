import QuotaDesk.Proofs.Controller.Issued

/-! A flag that guards a call. The rules of the controller raise it only to issue the call,
take it down with the reply or when the task is dropped, and otherwise leave it alone, so
it is up exactly while the call is open, and the call is never open twice. -/

namespace QuotaDesk

variable {C : Controller}

inductive Guarded (up : C.State → Bool) (c : Call) (s : C.State) :
    C.State × Progress C.Waiting C.Outcome → Prop
  | raised {s' : C.State} {x : C.Waiting} (hx : C.call x = c) (hs : up s = false)
      (hs' : up s' = true) : Guarded up c s (s', .waiting x)
  | waits {s' : C.State} {x : C.Waiting} (hx : C.call x ≠ c) (hs' : up s' = up s) :
      Guarded up c s (s', .waiting x)
  | ends {s' : C.State} {o : C.Outcome} (hs' : up s' = up s) : Guarded up c s (s', .finished o)

structure Latch (C : Controller) (up : C.State → Bool) (c : Call) : Prop where
  start_guarded : ∀ r s, Guarded up c s (C.start r s)
  resume_guarded : ∀ x a s, C.call x ≠ c → Guarded up c s (C.resume x a s)
  resume_lowers : ∀ x a s, C.call x = c →
    up (C.resume x a s).1 = false ∧ ∀ y, (C.resume x a s).2 = .waiting y → C.call y ≠ c
  release_keeps : ∀ x s, C.call x ≠ c → up (C.release x s) = up s
  release_lowers : ∀ x s, C.call x = c → up (C.release x s) = false

namespace World

variable {up : C.State → Bool} {c : Call} {w : World C} {t : Task C}

def Pending (w : World C) (c : Call) (t : Task C) : Prop :=
  t ∈ w.tasks ∧ C.call t.waiting = c

/-- The flag is up exactly while the call is open, which it is at most once. -/
structure Latched (up : C.State → Bool) (c : Call) (w : World C) : Prop where
  numbered : w.Numbered
  up_iff : up w.state = true ↔ ∃ t, w.Pending c t
  unique : ∀ t u, w.Pending c t → w.Pending c u → t = u

namespace Latched

theorem down (h : Latched up c w) (hup : up w.state = false) : ¬w.Pending c t := by
  intro ht
  rw [h.up_iff.mpr ⟨t, ht⟩] at hup
  cases hup

theorem remove (h : Latched up c w) (ht : t ∈ w.tasks) {s : C.State}
    (hkeep : C.call t.waiting ≠ c → up s = up w.state)
    (hlower : C.call t.waiting = c → up s = false) :
    Latched up c { w.withoutTask t.number with state := s } := by
  have hold : ∀ u, ({ w.withoutTask t.number with state := s } : World C).Pending c u ↔
      w.Pending c u ∧ u ≠ t := by
    intro u
    have hnum : u ∈ w.tasks → (u.number ≠ t.number ↔ u ≠ t) := fun hu =>
      not_congr ⟨fun heq => h.numbered.number_inj hu ht heq, fun heq => heq ▸ rfl⟩
    simp only [Pending, mem_withoutTask]
    constructor
    · rintro ⟨⟨hu, hne⟩, hc⟩
      exact ⟨⟨hu, hc⟩, (hnum hu).mp hne⟩
    · rintro ⟨⟨hu, hc⟩, hne⟩
      exact ⟨⟨hu, (hnum hu).mpr hne⟩, hc⟩
  refine ⟨h.numbered.withoutTask t.number s, ?_, fun u v hu hv =>
    h.unique u v ((hold u).mp hu).1 ((hold v).mp hv).1⟩
  by_cases hc : C.call t.waiting = c
  -- The holder is gone, and there was no other.
  · refine iff_of_false (by rw [hlower hc]; exact Bool.false_ne_true) ?_
    rintro ⟨u, hu⟩
    obtain ⟨hu, hne⟩ := (hold u).mp hu
    exact hne (h.unique u t hu ⟨ht, hc⟩)
  · rw [hkeep hc, h.up_iff]
    refine exists_congr fun u => Iff.trans ⟨fun hu => ⟨hu, ?_⟩, And.left⟩ (hold u).symm
    rintro rfl
    exact hc hu.2

theorem add (h : Latched up c w) {s : C.State} {w' : World C} (hnum : w'.Numbered)
    (hstate : w'.state = s) (hmem : ∀ u, u ∈ w'.tasks ↔ u ∈ w.tasks ∨ u = t)
    (hguarded : Guarded up c w.state (s, .waiting t.waiting)) : Latched up c w' := by
  have hpending : ∀ u, w'.Pending c u ↔ w.Pending c u ∨ u = t ∧ C.call t.waiting = c := by
    intro u
    simp only [Pending, hmem, or_and_right]
    exact or_congr_right ⟨fun ⟨heq, hu⟩ => ⟨heq, heq ▸ hu⟩, fun ⟨heq, hu⟩ => ⟨heq, heq ▸ hu⟩⟩
  cases hguarded with
  | raised hx hs hs' =>
    have hnew : ∀ u, w'.Pending c u ↔ u = t := fun u =>
      (hpending u).trans ((or_iff_right (h.down hs)).trans (and_iff_left hx))
    refine ⟨hnum, ?_, fun u v hu hv => ((hnew u).mp hu).trans ((hnew v).mp hv).symm⟩
    rw [hstate]
    exact iff_of_true hs' ⟨t, (hnew t).mpr rfl⟩
  | waits hx hs' =>
    have hsame : ∀ u, w'.Pending c u ↔ w.Pending c u := fun u =>
      (hpending u).trans (or_iff_left fun h => hx h.2)
    refine ⟨hnum, ?_, fun u v hu hv => h.unique u v ((hsame u).mp hu) ((hsame v).mp hv)⟩
    rw [hstate, hs', h.up_iff]
    exact exists_congr fun u => (hsame u).symm

theorem step (L : Latch C up c) (h : Latched up c w) (e : Event C) :
    Latched up c (w.step e).1 := by
  have hnum := h.numbered.step e
  have hm := h.numbered.move e
  generalize w.step e = p at hnum hm ⊢
  cases hm with
  | idle => exact h
  | answered hstart =>
    have hguarded := hstart ▸ L.start_guarded _ w.state
    cases hguarded with
    | ends hs' => exact ⟨hnum, hs' ▸ h.up_iff, h.unique⟩
  | @began r s x hstart =>
    exact h.add (t := ⟨w.started, w.issued, x⟩) hnum rfl (by simp)
      (hstart ▸ L.start_guarded r w.state)
  | @ended t r s o ht hresume =>
    refine h.remove ht (fun hc => ?_) (fun hc => ?_)
    · have hguarded := hresume ▸ L.resume_guarded _ _ w.state hc
      cases hguarded with
      | ends hs' => exact hs'
    · have hlowers := (L.resume_lowers _ (r (C.call t.waiting)) w.state hc).1
      rwa [hresume] at hlowers
  | @continued t r s x ht hresume =>
    -- The task ends its wait and comes back with another.
    have hmem : ∀ u, u ∈ insertTask ⟨t.number, w.issued, x⟩ w.tasks ↔
        u ∈ (w.withoutTask t.number).tasks ∨ u = ⟨t.number, w.issued, x⟩ := fun u => by
      rw [mem_insertTask h.numbered.sorted, mem_withoutTask, or_comm]
    by_cases hc : C.call t.waiting = c
    · obtain ⟨hdown, hother⟩ := L.resume_lowers _ (r (C.call t.waiting)) w.state hc
      rw [hresume] at hdown hother
      have hremoved : Latched up c { w.withoutTask t.number with state := s } :=
        h.remove ht (absurd hc) fun _ => hdown
      exact hremoved.add hnum rfl hmem (.waits (hother x rfl) rfl)
    · have hremoved : Latched up c { w.withoutTask t.number with state := w.state } :=
        h.remove ht (fun _ => rfl) (absurd · hc)
      exact hremoved.add hnum rfl hmem (hresume ▸ L.resume_guarded _ _ w.state hc)
  | dropped ht => exact h.remove ht (L.release_keeps _ _) (L.release_lowers _ _)

theorem after (L : Latch C up c) (h : Latched up c w) (es : List (Event C)) :
    Latched up c (w.after es) :=
  run_induction (P := fun _ v => Latched up c v) w h (fun _ e h => h.step L e) es

end Latched

theorem latched_of_tasks_nil (htasks : w.tasks = []) (hup : up w.state = false) :
    Latched up c w where
  numbered := numbered_of_tasks_nil htasks
  up_iff := by simp [Pending, htasks, hup]
  unique := by simp [Pending, htasks]

theorem Latched.lowered_iff (L : Latch C up c) (h : Latched up c w) (ht : w.Pending c t)
    (e : Event C) : up (w.step e).1.state = false ↔
      (∃ r, e = .reply t.callNumber r) ∨ e = .cancel t.number := by
  have hup : up w.state = true := h.up_iff.mpr ⟨t, ht⟩
  have hkept : ∀ {s}, up s = up w.state → up s ≠ false := fun hs => by
    rw [hs, hup]
    exact nofun
  constructor
  · intro hdown
    have hm := h.numbered.move e
    generalize w.step e = p at hm hdown
    cases hm with
    | idle => exact absurd hdown (hkept rfl)
    | answered hstart =>
      have hguarded := hstart ▸ L.start_guarded _ w.state
      cases hguarded with
      | ends hs' => exact absurd hdown (hkept hs')
    | began hstart =>
      have hguarded := hstart ▸ L.start_guarded _ w.state
      cases hguarded with
      | raised _ _ hs' => exact absurd (hs'.symm.trans hdown) nofun
      | waits _ hs' => exact absurd hdown (hkept hs')
    | @ended u r s o hu hresume =>
      by_cases hc : C.call u.waiting = c
      · exact .inl ⟨r, by rw [h.unique u t ⟨hu, hc⟩ ht]⟩
      · have hguarded := hresume ▸ L.resume_guarded _ _ w.state hc
        cases hguarded with
        | ends hs' => exact absurd hdown (hkept hs')
    | @continued u r s x hu hresume =>
      by_cases hc : C.call u.waiting = c
      · exact .inl ⟨r, by rw [h.unique u t ⟨hu, hc⟩ ht]⟩
      · have hguarded := hresume ▸ L.resume_guarded _ _ w.state hc
        cases hguarded with
        | raised _ _ hs' => exact absurd (hs'.symm.trans hdown) nofun
        | waits _ hs' => exact absurd hdown (hkept hs')
    | @dropped u hu =>
      by_cases hc : C.call u.waiting = c
      · exact .inr (by rw [h.unique u t ⟨hu, hc⟩ ht])
      · exact absurd hdown (hkept (L.release_keeps _ _ hc))
  · rintro (⟨r, rfl⟩ | rfl)
    · rw [h.numbered.step_reply ht.1, resumeTask, place_state]
      exact (L.resume_lowers _ _ _ ht.2).1
    · rw [h.numbered.step_cancel ht.1]
      exact L.release_lowers _ _ ht.2

end World
end QuotaDesk
