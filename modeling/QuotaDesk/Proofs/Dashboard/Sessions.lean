import QuotaDesk.Proofs.Dashboard.SingleFlight
import QuotaDesk.Proofs.Dashboard.Visits

/-! The sessions keep apart. What a session sees of its lookup is what it would see if nobody
else used the dashboard. -/

namespace QuotaDesk.Dashboard

open Application

namespace Sessions

variable {site : Site} {v : Nat} {s u : State}

theorem Alike.lookup_eq (h : Alike v s u) {slot : Nat} (hslot : s.registry.Has v slot) :
    u.registry.lookup 0 = s.registry.lookup slot := by
  cases h.shown with
  | before hs => exact absurd (h.visitor_lt hslot) (Nat.not_lt_of_le hs)
  | during hs hmem hregistry =>
    obtain rfl := h.tidy.slot_eq hslot ⟨_, hmem⟩
    rw [hregistry]
    rfl

theorem start_mine (h : Alike v s u) {r : Request} (hawake : s.registry.Awake site.idle v r.now)
    (hmine : session? site r s = some v) :
    (strand site v).Together s (start site r s) (start site r u) := by
  cases received site r with
  | looked work hwork hstart =>
    have hv : (visit r s).1 = v := Option.some.inj ((session?_of_work hwork s).symm.trans hmine)
    have hw := welcomed h hv hawake
    rw [hstart, hstart, withLookup_eq, withLookup_eq, hw.slot_eq, hw.fresh_eq,
      hw.alike.lookup_eq hw.has]
    exact (together_afterLookup hw.alike hw.has hw.fresh_own _).after
      (keeps_of_later hw.visitors_le hw.later)
  | refused response hwork hstart =>
    rw [hstart, hstart]
    exact .ends h (keeps_of_later (Nat.le_refl _) (.refl _ _))
  | backed hasks hwork hstart =>
    rw [session?, hasks] at hmine
    cases hmine

theorem start_other (h : Alike v s u) {r : Request} (hawake : s.registry.Awake site.idle v r.now)
    (hother : session? site r s ≠ some v) : (strand site v).Apart s u (start site r s) := by
  cases received site r with
  | looked work hwork hstart =>
    have hv : (visit r s).1 ≠ v := fun hv => hother (hv ▸ session?_of_work hwork s)
    have hp := passed h hv hawake
    rw [hstart, withLookup_eq]
    exact (apart_afterLookup hp.alike hp.not_has hp.slot_lt hp.fresh_other _).after
      (keeps_of_later hp.visitors_le hp.later)
  | refused response hwork hstart =>
    rw [hstart]
    exact .ends h (keeps_of_later (Nat.le_refl _) (.refl _ _))
  | backed hasks hwork hstart =>
    refine apart_backed h ?_ (hstart s)
    rintro n ⟨⟩

theorem resume_own (h : Alike v s u) {x : Waiting} (hx : Own v s x) (r : Reply) :
    (strand site v).Together s (resume site x (r (call x)) s)
      (resume site (moved x) (r (call (moved x))) u) := by
  obtain ⟨t, stage⟩ := x
  obtain ⟨hfresh, slot, y, rfl, hslot⟩ := hx
  simp only [moved, resume, h.lookup_eq hslot]
  exact together_afterLookup h hslot hfresh _

theorem resume_other (h : Alike v s u) {x : Waiting} (hx : Other v s x) (a : Answer (call x)) :
    (strand site v).Apart s u (resume site x a s) := by
  obtain ⟨hfresh, hstage⟩ := hx
  by_cases hlookup : x.OnLookup
  · obtain ⟨t, stage⟩ := x
    obtain ⟨slot, y, rfl⟩ := hlookup
    obtain ⟨hlt, hnot⟩ := hstage slot y rfl
    exact apart_afterLookup h hnot hlt hfresh _
  · by_cases hcall : call x = .trigger
    · obtain ⟨t, stage⟩ := x
      obtain ⟨c, hrunning⟩ := call_eq_trigger_iff.mp hcall
      obtain rfl : stage = .running c .trigger := hrunning
      have hlowered : Alike v { s with panel.syncing := false } u := h.set_panel _ u.panel
      have hkeeps : (strand site v).Keeps s { s with panel.syncing := false } :=
        keeps_of_later (Nat.le_refl _) (.refl _ _)
      exact (apart_backed hlowered hfresh (backed_resume_running site t c a s)).after hkeeps
    · exact apart_backed h hfresh (backed_resume site x a s hlookup hcall)

theorem release_own (h : Alike v s u) {x : Waiting} (hx : Own v s x) :
    Alike v (release x s) (release (moved x) u) ∧ (strand site v).Keeps s (release x s) := by
  obtain ⟨t, stage⟩ := x
  obtain ⟨_, slot, y, rfl, hslot⟩ := hx
  simp only [moved, release, h.lookup_eq hslot]
  exact ⟨h.set_own hslot _, keeps_of_later (Nat.le_refl _) (Registry.later_setLookup _)⟩

theorem release_other (h : Alike v s u) {x : Waiting} (hx : Other v s x) :
    Alike v (release x s) u ∧ (strand site v).Keeps s (release x s) := by
  by_cases hlookup : x.OnLookup
  · obtain ⟨t, stage⟩ := x
    obtain ⟨slot, y, rfl⟩ := hlookup
    obtain ⟨_, hnot⟩ := hx.2 slot y rfl
    exact ⟨h.set_other hnot _, keeps_of_later (Nat.le_refl _) (Registry.later_setLookup _)⟩
  · obtain ⟨panel, hrelease⟩ := release_backed x s hlookup
    rw [hrelease]
    exact ⟨h.set_panel panel u.panel, keeps_of_later (Nat.le_refl _) (.refl _ _)⟩

theorem session?_alone (h : Alike v s u) {r : Request} (hmine : session? site r s = some v) :
    session? site r u = some v := by
  rw [session?] at hmine ⊢
  split at hmine
  · next hasks =>
    rw [if_pos hasks]
    cases h.shown with
    | before hs hregistry hvisitors hknown =>
      have hnone : (r.visitor.filter fun v => u.known.contains v) = none := by
        simp [hknown]
      rcases Option.or_eq_some_iff.mp hmine with hcookie | ⟨_, hnew⟩
      · have hmem := (Option.filter_eq_some_iff.mp hcookie).2
        exact absurd (h.known_lt v (List.contains_iff_mem.mp hmem)) (Nat.not_lt_of_le hs)
      · obtain ⟨work, hwork, _⟩ := Option.map_eq_some_iff.mp hnew
        rw [hnone, hwork, Option.none_or, Option.map_some, hvisitors]
    | during hs hmem hregistry hvisitors hknown =>
      rcases Option.or_eq_some_iff.mp hmine with hcookie | ⟨_, hnew⟩
      · obtain ⟨hvisitor, hcontains⟩ := Option.filter_eq_some_iff.mp hcookie
        have hmem := (hknown v).mpr ⟨rfl, List.contains_iff_mem.mp hcontains⟩
        rw [hvisitor, Option.filter_some, List.contains_iff_mem.mpr hmem]
        rfl
      · obtain ⟨work, _, heq⟩ := Option.map_eq_some_iff.mp hnew
        exact absurd heq (Nat.ne_of_gt hs)
  · cases hmine

theorem lawful (site : Site) (v : Nat) : (strand site v).Lawful where
  call_moved := by
    rintro s ⟨t, stage⟩ ⟨_, slot, y, rfl, _⟩
    rfl
  mine_alone r s u h hmine := beq_iff_eq.mpr (session?_alone h (beq_iff_eq.mp hmine))
  start_mine r s u h hawake hmine := start_mine h hawake (beq_iff_eq.mp hmine)
  start_other r s u h hawake hother := start_other h hawake (beq_eq_false_iff_ne.mp hother)
  resume_own x s u r h hx := resume_own h hx r
  resume_other x s u a h hx := resume_other h hx a
  release_own x s u h hx := release_own h hx
  release_other x s u h hx := release_other h hx

theorem Alike.lookupOf?_eq (h : Alike v s u) : lookupOf? v u = lookupOf? v s := by
  cases h.shown with
  | before hs hregistry =>
    have hnone : s.registry.entries.find? (fun e => e.visitor == v) = none :=
      List.find?_eq_none.mpr fun e he heq =>
        Nat.not_lt_of_le hs (beq_iff_eq.mp heq ▸ h.tidy.visitor_lt e he)
    rw [lookupOf?, lookupOf?, hnone, hregistry]
    rfl
  | @during hs slot lastSeen hmem hregistry =>
    have hfind : s.registry.entries.find? (fun e => e.visitor == v) = some ⟨v, slot, lastSeen⟩ := by
      cases hf : s.registry.entries.find? fun e => e.visitor == v with
      | none => exact absurd (beq_self_eq_true v) (List.find?_eq_none.mp hf _ hmem)
      | some e =>
        have hv : e.visitor = v := by simpa using List.find?_some hf
        rw [h.tidy.visitor_inj (List.mem_of_find?_eq_some hf) hmem hv]
    rw [lookupOf?, lookupOf?, hfind, hregistry]
    simp [Registry.only, Registry.lookup]

theorem entries_afterLookup (t : Ticket) (slot : Nat) (s : State)
    (p : Lookup.State × Progress Lookup.Waiting Lookup.Outcome) :
    (afterLookup site t slot s p).1.registry.entries = s.registry.entries := by
  rcases p with ⟨l, x | o⟩
  · rfl
  · rcases showView_cases site t slot l s with ⟨response, h⟩ | h <;>
      exact congrArg (fun p => p.1.registry.entries) h

theorem registry_of_backed {t : Ticket} {p : Step} (h : Backed t s p) :
    p.1.registry = s.registry := by
  cases h <;> rfl

theorem since_start {lo : Nat} (h : s.registry.Since lo) {r : Request} (hnow : lo ≤ r.now) :
    (start site r s).1.registry.Since lo := by
  cases received site r with
  | looked work hwork hstart =>
    have hvisit : (visit r s).2.2.registry = s.registry := by
      rcases visit_cases r s with ⟨n, _, _, heq⟩ | ⟨_, heq⟩ <;> rw [heq]
    have harrive : (arrive site r s).2.registry.Since lo :=
      (Registry.visited site.idle r.now _ _).since (hvisit ▸ h) hnow
    rw [hstart, withLookup_eq, Registry.Since, entries_afterLookup]
    exact harrive
  | refused response hwork hstart => exact hstart s ▸ h
  | backed hasks hwork hstart => exact (registry_of_backed (hstart s)).symm ▸ h

theorem since_resume {lo : Nat} (h : s.registry.Since lo) (x : Waiting) (a : Answer (call x)) :
    (resume site x a s).1.registry.Since lo := by
  by_cases hlookup : x.OnLookup
  · obtain ⟨t, stage⟩ := x
    obtain ⟨slot, y, rfl⟩ := hlookup
    rw [resume, Registry.Since, entries_afterLookup]
    exact h
  · by_cases hcall : call x = .trigger
    · obtain ⟨t, stage⟩ := x
      obtain ⟨c, hrunning⟩ := call_eq_trigger_iff.mp hcall
      obtain rfl : stage = .running c .trigger := hrunning
      exact (registry_of_backed (backed_resume_running site t c a s)).symm ▸ h
    · exact (registry_of_backed (backed_resume site x a s hlookup hcall)).symm ▸ h

theorem since_release {lo : Nat} (h : s.registry.Since lo) (x : Waiting) :
    (release x s).registry.Since lo := by
  by_cases hlookup : x.OnLookup
  · obtain ⟨t, stage⟩ := x
    obtain ⟨slot, y, rfl⟩ := hlookup
    exact h
  · obtain ⟨panel, hrelease⟩ := release_backed x s hlookup
    exact hrelease ▸ h

theorem since_after {lo : Nat} (es : List (Event (application site)))
    (hes : ∀ r, .request r ∈ es → lo ≤ r.now) :
    ((unvisited site).after es).state.registry.Since lo := by
  induction es using List.reverseRecOn with
  | nil => exact nofun
  | append_singleton es e ih =>
    have h := ih fun r hr => hes r (List.mem_append_left _ hr)
    rw [World.after_concat]
    refine World.state_step (C := application site) (I := fun s => State.registry s |>.Since lo)
      (numbered_unvisited.after es) e h (fun r he => ?_) (since_resume h) (since_release h)
    exact since_start h (hes r (List.mem_append_right _ (List.mem_singleton.mpr he.symm)))

theorem awake_of_within {lo : Nat} {es : List (Event (application site))}
    (hes : ∀ r, .request r ∈ es → lo ≤ r.now ∧ r.now < lo + site.idle) {k : Nat}
    {w : World (application site)} {r : Request}
    (h : (unvisited site).Happens es k w (.request r)) (v : Nat) :
    w.state.registry.Awake site.idle v r.now := by
  have hsince := since_after (es.take k) fun r hr => (hes r (List.mem_of_mem_take hr)).1
  rw [h.world] at hsince
  have hnow := hes r (List.mem_of_getElem? h.event)
  intro e he _
  have := hsince e he
  omega

end Sessions

open Sessions

/-- A dashboard that nobody has visited yet and whose first session will be `v`. -/
def alone (site : Site) (v : Nat) : World (application site) :=
  { state := { visitors := v } }

/-- The sessions keep apart. Take any run in which session `v` is never found idle for too long,
and give a dashboard with no other visitor the requests of session `v`, the replies to its
calls and the drops of its tasks. All of these are requests of session `v` there, too. The
session sees the same calls and responses in the same order, and its lookup is in the same
state. -/
theorem sessions_apart (site : Site) (v : Nat) (es : List (Event (application site)))
    (hawake : ∀ k w r, (unvisited site).Happens es k w (.request r) →
      w.state.registry.Awake site.idle v r.now) :
    let watched := (unvisited site).watch (fun r s => session? site r s == some v) es
    (∀ k w r, (alone site v).Happens watched.script k w (.request r) →
        session? site r w.state = some v) ∧
      (alone site v).sights watched.script = watched.sights ∧
      lookupOf? v ((alone site v).after watched.script).state =
        lookupOf? v ((unvisited site).after es).state := by
  intro watched
  have halike : Alike v (unvisited site).state (alone site v).state :=
    ⟨⟨nofun, nofun, List.nodup_nil, List.nodup_nil⟩, nofun, .before (Nat.zero_le v) rfl rfl rfl⟩
  obtain ⟨hworld, hfollows, hsights, hmine⟩ :=
    (lawful site v).watch rfl rfl rfl rfl halike es hawake
  have hlookup := Alike.lookupOf?_eq (v := v) hfollows.alike
  rw [hworld] at hlookup
  exact ⟨fun k w r h => beq_iff_eq.mp (hmine k w r h), hsights, hlookup⟩

def keyForm (key : String) : Request where
  method := "POST"
  target := "/query"
  contentType := some "application/x-www-form-urlencoded"
  body := Text.Utf8.encode ("key=" ++ key).toList

theorem sessions_apart_second :
    let site : Site := ⟨⟨"/", [.char '/'], by decide⟩, "", 1⟩
    let silent : Reply := fun _ => .error (.transport "")
    let es : List (Event (application site)) :=
      [.request (keyForm "a"), .request (keyForm "b"), .reply 1 silent, .cancel 0]
    let watched := (unvisited site).watch (fun r s => session? site r s == some 1) es
    (∀ r, .request r ∈ es → 0 ≤ r.now ∧ r.now < 0 + site.idle) ∧
      (watched.tasks = [1] ∧ watched.calls = [1] ∧ watched.script.length = 2) ∧
      (alone site 1).sights watched.script = watched.sights ∧
      lookupOf? 1 ((alone site 1).after watched.script).state =
        lookupOf? 1 ((unvisited site).after es).state := by
  intro site silent es watched
  have hwithin : ∀ r, .request r ∈ es → 0 ≤ r.now ∧ r.now < 0 + site.idle := by
    intro r hr
    simp only [es, List.mem_cons, List.not_mem_nil, or_false, reduceCtorEq] at hr
    rcases hr with hr | hr
    · cases hr
      decide
    · cases hr
      decide
  have hapart := sessions_apart site 1 es fun k w r h => awake_of_within hwithin h 1
  exact ⟨hwithin, by decide +kernel, hapart.2⟩

end QuotaDesk.Dashboard
