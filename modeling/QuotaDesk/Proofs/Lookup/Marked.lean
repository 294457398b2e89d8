import QuotaDesk.Proofs.Lookup.Turn

/-! The invariant of a lookup. Every live task has taken its numbers from the counters
and agrees with the view as long as its call is current, and the two markers are up
only for a live task whose call is current. -/

namespace QuotaDesk.Lookup

namespace Waiting

/-- What a live call says about the state. -/
def Fits (s : State) : Waiting → Prop
  | .summary key generation =>
    generation ≤ s.generation ∧ (s.generation = generation →
      s.view.busy = true ∧ s.view.key = key ∧ s.view.summary = none)
  | .page key _ size generation fetch _ =>
    generation ≤ s.generation ∧ fetch ≤ s.fetch ∧ (s.generation = generation →
      s.view.key = key ∧ size = Ledger.pageSize ∧ s.view.summary ≠ none ∧
        (s.fetch = fetch → s.view.loadingHistory = true))

def Clash : Waiting → Waiting → Prop
  | .summary _ generation, .summary _ generation' => generation = generation'
  | .page _ _ _ _ fetch _, .page _ _ _ _ fetch' _ => fetch = fetch'
  | _, _ => False

variable {s : State} {x y : Waiting}

theorem Clash.symm (h : x.Clash y) : y.Clash x := by
  cases x <;> cases y <;> first | exact Eq.symm h | exact h

theorem Fits.notice (n : Option Notice) (h : x.Fits s) :
    x.Fits { s with view := { s.view with notice := n } } := by
  cases x <;> exact h

theorem Fits.accepted (key : String) (h : x.Fits s) : x.Fits (accepted key s) := by
  cases x with
  | summary key' generation =>
    refine ⟨Nat.le_succ_of_le h.1, fun heq => ?_⟩
    simp only [Lookup.accepted] at heq
    have := h.1
    omega
  | page key' page size generation fetch chained =>
    refine ⟨Nat.le_succ_of_le h.1, h.2.1, fun heq => ?_⟩
    simp only [Lookup.accepted] at heq
    have := h.1
    omega

theorem Fits.asked (h : x.Fits s) : x.Fits (asked s) := by
  cases x with
  | summary key generation => exact h
  | page key page size generation fetch chained =>
    refine ⟨h.1, Nat.le_succ_of_le h.2.1, fun heq => ?_⟩
    obtain ⟨hkey, hsize, hsummary, _⟩ := h.2.2 heq
    exact ⟨hkey, hsize, hsummary, fun _ => rfl⟩

theorem Fits.summarized {key : String} (summary : Quota.Summary) (h : x.Fits s)
    (hx : ¬Clash (.summary key s.generation) x) : x.Fits (summarized summary s) := by
  cases x with
  | summary key' generation => exact ⟨h.1, fun heq => absurd heq hx⟩
  | page key' page size generation fetch chained =>
    refine ⟨h.1, h.2.1, fun heq => ?_⟩
    obtain ⟨hkey, hsize, _, hloading⟩ := h.2.2 heq
    exact ⟨hkey, hsize, Option.some_ne_none summary, hloading⟩

theorem Fits.unbusy {key : String} (h : x.Fits s) (hx : ¬Clash (.summary key s.generation) x) :
    x.Fits { s with view := { s.view with busy := false } } := by
  cases x with
  | summary key' generation => exact ⟨h.1, fun heq => absurd heq hx⟩
  | page key' page size generation fetch chained => exact h

theorem Fits.arrived {key : String} {page size : UInt32} {chained : Bool} {generation : Nat}
    (h : x.Fits s) (hx : ¬Clash (.page key page size generation s.fetch chained) x) :
    x.Fits (arrived s) := by
  cases x with
  | summary key' generation' => exact h
  | page key' page' size' generation' fetch chained' =>
    refine ⟨h.1, h.2.1, fun heq => ?_⟩
    obtain ⟨hkey, hsize, hsummary, _⟩ := h.2.2 heq
    exact ⟨hkey, hsize, hsummary, fun hfetch => absurd hfetch hx⟩

theorem Fits.landed {key : String} {page size : UInt32} {chained : Bool} {generation : Nat}
    (page' : UInt32) (data : Ledger.Page) (h : x.Fits s)
    (hx : ¬Clash (.page key page size generation s.fetch chained) x) :
    x.Fits (landed page' data s) := by
  have h := h.arrived hx
  cases x <;> exact h

theorem Fits.release (h : x.Fits s) (hx : ¬Clash y x) : x.Fits (release y s) := by
  cases y with
  | summary key generation =>
    simp only [Lookup.release]
    split
    · next heq =>
      subst heq
      exact h.unbusy hx
    · exact h
  | page key page size generation fetch chained =>
    simp only [Lookup.release]
    split
    · next heq =>
      subst heq
      exact h.arrived hx
    · exact h

end Waiting

def View.ledger (v : View) : List Ledger.Record × UInt64 × UInt32 :=
  (v.records, v.paging.total, v.paging.current)

def View.Unpaged (v : View) : Prop :=
  v.ledger = ([], 0, 1)

structure Marked (w : World controller) : Prop where
  numbered : w.Numbered
  fits : ∀ t ∈ w.tasks, Waiting.Fits w.state t.waiting
  apart : ∀ t ∈ w.tasks, ∀ u ∈ w.tasks, Waiting.Clash t.waiting u.waiting → t = u
  busy : w.state.view.busy = true →
    ∃ t ∈ w.tasks, ∃ key, t.waiting = .summary key w.state.generation
  loading : w.state.view.loadingHistory = true →
    ∃ t ∈ w.tasks, ∃ key page size chained,
      t.waiting = .page key page size w.state.generation w.state.fetch chained
  size : w.state.view.paging.size = Ledger.pageSize
  unpaged : w.state.view.summary = none → w.state.view.Unpaged

namespace Marked

variable {w : World controller} {t : Task controller}

theorem remove (h : Marked w) (ht : t ∈ w.tasks) {s : State}
    (hfits : ∀ x, Waiting.Fits w.state x → ¬Waiting.Clash t.waiting x → Waiting.Fits s x)
    (hgeneration : s.generation = w.state.generation) (hfetch : s.fetch = w.state.fetch)
    (hbusy : s.view.busy = true →
      w.state.view.busy = true ∧ ∀ key, t.waiting ≠ .summary key w.state.generation)
    (hloading : s.view.loadingHistory = true →
      w.state.view.loadingHistory = true ∧ ∀ key page size chained,
        t.waiting ≠ .page key page size w.state.generation w.state.fetch chained)
    (hsize : s.view.paging.size = w.state.view.paging.size)
    (hunpaged : s.view.summary = none → s.view.Unpaged) :
    Marked { w.withoutTask t.number with state := s } where
  numbered := h.numbered.withoutTask t.number s
  fits u hu := by
    obtain ⟨hu, hne⟩ := World.mem_withoutTask.mp hu
    exact hfits _ (h.fits u hu) fun hclash => hne (h.apart t ht u hu hclash ▸ rfl)
  apart u hu v hv := h.apart u (World.mem_withoutTask.mp hu).1 v (World.mem_withoutTask.mp hv).1
  -- The task behind a marker that is still up is not the one that is over.
  busy hb := by
    obtain ⟨hb, hne⟩ := hbusy hb
    obtain ⟨u, hu, key, hx⟩ := h.busy hb
    refine ⟨u, World.mem_withoutTask.mpr ⟨hu, fun hnum => hne key ?_⟩, key, hgeneration ▸ hx⟩
    rw [← h.numbered.number_inj hu ht hnum, hx]
  loading hl := by
    obtain ⟨hl, hne⟩ := hloading hl
    obtain ⟨u, hu, key, page, size, chained, hx⟩ := h.loading hl
    refine ⟨u, World.mem_withoutTask.mpr ⟨hu, fun hnum => hne key page size chained ?_⟩,
      key, page, size, chained, ?_⟩
    · rw [← h.numbered.number_inj hu ht hnum, hx]
    · rw [hx, hgeneration, hfetch]
  size := hsize.trans h.size
  unpaged := hunpaged

theorem drop (h : Marked w) (ht : t ∈ w.tasks) :
    Marked { w.withoutTask t.number with state := release t.waiting w.state } := by
  have hbusy := busy_of_release (s := w.state) (x := t.waiting)
  have hloading := loading_of_release (s := w.state) (x := t.waiting)
  have hfits : ∀ x, Waiting.Fits w.state x → ¬Waiting.Clash t.waiting x →
      Waiting.Fits (release t.waiting w.state) x := fun x hx => hx.release
  obtain ⟨busy, loading, heq⟩ := release_eq t.waiting w.state
  rw [heq] at hbusy hloading hfits ⊢
  exact h.remove ht hfits rfl rfl hbusy
    (fun hl => ⟨(hloading hl).1, fun key page size => (hloading hl).2 key page size _⟩) rfl
    h.unpaged

theorem add (h : Marked w) {w' : World controller} (hnum : w'.Numbered)
    (hmem : ∀ u, u ∈ w'.tasks ↔ u ∈ w.tasks ∨ u = t)
    (hfits : ∀ x, Waiting.Fits w.state x → Waiting.Fits w'.state x)
    (ht : Waiting.Fits w'.state t.waiting)
    (hapart : ∀ x, Waiting.Fits w.state x → ¬Waiting.Clash x t.waiting)
    (hbusy : w'.state.view.busy = true →
      (w.state.view.busy = true ∧ w'.state.generation = w.state.generation) ∨
        ∃ key, t.waiting = .summary key w'.state.generation)
    (hloading : w'.state.view.loadingHistory = true → ∃ key page size chained,
      t.waiting = .page key page size w'.state.generation w'.state.fetch chained)
    (hsize : w'.state.view.paging.size = Ledger.pageSize)
    (hunpaged : w'.state.view.summary = none → w'.state.view.Unpaged) : Marked w' where
  numbered := hnum
  fits u hu := by
    rcases (hmem u).mp hu with hu | rfl
    · exact hfits _ (h.fits u hu)
    · exact ht
  apart u hu v hv hclash := by
    rcases (hmem u).mp hu with hu | rfl <;> rcases (hmem v).mp hv with hv | rfl
    · exact h.apart u hu v hv hclash
    · exact absurd hclash (hapart _ (h.fits u hu))
    · exact absurd hclash.symm (hapart _ (h.fits v hv))
    · rfl
  busy hb := by
    rcases hbusy hb with ⟨hb, hg⟩ | ⟨key, hx⟩
    · obtain ⟨u, hu, key, hx⟩ := h.busy hb
      exact ⟨u, (hmem u).mpr (.inl hu), key, hg ▸ hx⟩
    · exact ⟨t, (hmem t).mpr (.inr rfl), key, hx⟩
  loading hl := ⟨t, (hmem t).mpr (.inr rfl), hloading hl⟩
  size := hsize
  unpaged := hunpaged

theorem ask (h : Marked w) {w' : World controller} (hnum : w'.Numbered) {page : UInt32}
    {chained : Bool} (hstate : w'.state = asked w.state)
    (ht : t.waiting = pageCall page chained w.state)
    (hmem : ∀ u, u ∈ w'.tasks ↔ u ∈ w.tasks ∨ u = t) (hsummary : w.state.view.summary ≠ none) :
    Marked w' := by
  refine h.add hnum hmem (fun x hx => hstate ▸ hx.asked) ?_ ?_ ?_ ?_ ?_ ?_
  · rw [ht, hstate]
    exact ⟨Nat.le_refl _, Nat.le_refl _, fun _ => ⟨rfl, h.size, hsummary, fun _ => rfl⟩⟩
  · intro x hx hclash
    rw [ht] at hclash
    cases x with
    | summary key generation => exact hclash
    | page key page' size generation fetch chained' =>
      exact absurd (hclash ▸ hx.2.1) (Nat.not_succ_le_self _)
  · rw [hstate]
    exact fun hb => .inl ⟨hb, rfl⟩
  · rw [hstate, ht]
    exact fun _ => ⟨_, _, _, _, rfl⟩
  · rw [hstate]
    exact h.size
  · rw [hstate]
    exact fun hnone => absurd hnone hsummary

theorem step (h : Marked w) (e : Event controller) : Marked (w.step e).1 := by
  have hnum := h.numbered.step e
  have hturn := turn h.numbered e
  generalize w.step e = p at hnum hturn ⊢
  cases hturn with
  | idle => exact h
  | immediate =>
    exact ⟨hnum, fun t ht => (h.fits t ht).notice _, h.apart, h.busy, h.loading, h.size, h.unpaged⟩
  | @accepted raw t hkey hfree ht =>
    have hx : t.waiting = .summary (Text.trim raw) (w.state.generation + 1) := ht ▸ rfl
    refine h.add (t := t) hnum (by simp) (fun x hx => hx.accepted _) ?_ ?_ ?_ ?_ rfl ?_
    · rw [hx]
      exact ⟨Nat.le_refl _, fun _ => ⟨rfl, rfl, rfl⟩⟩
    · rw [hx]
      intro x hx hclash
      cases x with
      | summary key generation => exact absurd (hclash ▸ hx.1) (Nat.not_succ_le_self _)
      | page key page size generation fetch chained => exact hclash
    · exact fun _ => .inr ⟨_, hx⟩
    · exact nofun
    · exact fun _ => rfl
  | @asked page t hkey hsummary hpage ht =>
    have hx : t.waiting = pageCall page false w.state := ht ▸ rfl
    exact h.ask (t := t) hnum rfl hx (by simp) hsummary
  | late ht hlate =>
    refine h.remove ht (fun x hx _ => hx) rfl rfl (fun hb => ⟨hb, fun key hx => hlate ?_⟩)
      (fun hl => ⟨hl, fun key page size chained hx => hlate ?_⟩) rfl h.unpaged
    · exact hx ▸ rfl
    · exact hx ▸ ⟨rfl, rfl⟩
  | @summarized t u key r message summary ht hx hr hu =>
    -- The lookup ends as a wait for a summary and comes back as a page request.
    have hremove : Marked { w.withoutTask t.number with state := summarized summary w.state } :=
      h.remove ht (fun x hfits hclash => hfits.summarized summary (hx ▸ hclash)) rfl rfl nofun
        (fun hl => ⟨hl, by simp [hx]⟩) rfl nofun
    have hmem : ∀ v, v ∈ World.insertTask u w.tasks ↔
        v ∈ (w.withoutTask t.number).tasks ∨ v = u := fun v => by
      rw [World.mem_insertTask h.numbered.sorted, World.mem_withoutTask, or_comm, hu]
    have hcall : u.waiting = pageCall 1 true (summarized summary w.state) := hu ▸ rfl
    exact hremove.ask (t := u) hnum rfl hcall hmem nofun
  | refused ht hx hr =>
    exact h.remove ht (fun x hfits hclash => (hfits.unbusy (hx ▸ hclash)).notice _) rfl rfl nofun
      (fun hl => ⟨hl, by simp [hx]⟩) rfl h.unpaged
  | landed ht hx hr =>
    have hsummary := ((hx ▸ h.fits _ ht : Waiting.Fits w.state (.page ..)).2.2 rfl).2.2.1
    exact h.remove ht (fun x hfits hclash => hfits.landed _ _ (hx ▸ hclash)) rfl rfl
      (fun hb => ⟨hb, by simp [hx]⟩) nofun rfl (fun hnone => absurd hnone hsummary)
  | failed ht hx hr =>
    exact h.remove ht (fun x hfits hclash => hfits.arrived (hx ▸ hclash)) rfl rfl
      (fun hb => ⟨hb, by simp [hx]⟩) nofun rfl h.unpaged
  | dropped ht => exact h.drop ht

end Marked

def unused : World controller :=
  { state := {} }

theorem marked_unused : Marked unused where
  numbered := World.numbered_of_tasks_nil rfl
  fits := nofun
  apart := nofun
  busy := nofun
  loading := nofun
  size := rfl
  unpaged _ := rfl

theorem marked_after (es : List (Event controller)) : Marked (unused.after es) :=
  World.run_induction (P := fun _ w => Marked w) unused marked_unused (fun _ e h => h.step e) es

theorem marked_of_happens {es : List (Event controller)} {k : Nat} {w : World controller}
    {e : Event controller} (h : unused.Happens es k w e) : Marked w :=
  h.world ▸ marked_after (es.take k)

end QuotaDesk.Lookup
