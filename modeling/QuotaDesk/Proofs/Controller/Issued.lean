import QuotaDesk.Proofs.Controller.Live

/-! The calls that a run issues for one task. Every event issues at most one call, for the
task that it leaves waiting, so the calls of a task are told by the events that open them. -/

namespace QuotaDesk.World

variable {C : Controller}

def Trace.issuedFor (number : Nat) (trace : Trace C) : List Call :=
  if trace.opened.any fun t => t.number == number then trace.calls else []

def issues (w : World C) (es : List (Event C)) (number : Nat) : List (Nat × Call) :=
  (w.run es).2.zipIdx.flatMap fun p => (Trace.issuedFor number p.1).map fun c => (p.2, c)

def Closing (x : C.Waiting) : Prop :=
  ∀ a s y, (C.resume x a s).2 ≠ .waiting y

section Step

variable {w : World C} {e : Event C} {n : Nat}

theorem Trace.issuedFor_of_opened {trace : Trace C} {t : Task C} (h : trace.opened = some t)
    (hn : t.number = n) : Trace.issuedFor n trace = trace.calls := by
  simp [Trace.issuedFor, h, hn]

theorem Trace.issuedFor_eq_nil {trace : Trace C}
    (h : ∀ t, trace.opened = some t → t.number ≠ n) : Trace.issuedFor n trace = [] := by
  cases ht : trace.opened with
  | none => simp [Trace.issuedFor, ht]
  | some t => simp [Trace.issuedFor, ht, h t ht]

theorem calls_step (hw : w.Numbered) (e : Event C) :
    (w.step e).2.calls = (w.step e).2.opened.toList.map fun t => C.call t.waiting := by
  have hm := hw.move e
  generalize w.step e = p at hm ⊢
  cases hm <;> rfl

theorem opened_origin (hw : w.Numbered) {u : Task C} (h : (w.step e).2.opened = some u) :
    ((∃ r, e = .request r) ∧ u.number = w.started) ∨
      ∃ t ∈ w.tasks, ∃ r, e = .reply t.callNumber r ∧ u.number = t.number ∧
        (C.resume t.waiting (r (C.call t.waiting)) w.state).2 = .waiting u.waiting := by
  have hm := hw.move e
  generalize w.step e = p at hm h ⊢
  cases hm with
  | began hstart => exact .inl ⟨⟨_, rfl⟩, Option.some.inj h ▸ rfl⟩
  | continued ht hresume =>
    obtain rfl := Option.some.inj h
    exact .inr ⟨_, ht, _, rfl, rfl, congrArg Prod.snd hresume⟩
  | _ => cases h

theorem opened_resumeTask_iff {t u : Task C} {a : Answer (C.call t.waiting)} :
    (w.resumeTask t a).2.opened = some u ↔
      ∃ x, (C.resume t.waiting a w.state).2 = .waiting x ∧ u = ⟨t.number, w.issued, x⟩ := by
  rcases h : C.resume t.waiting a w.state with ⟨s, x | o⟩ <;> simp [resumeTask, place, h, eq_comm]

theorem started_le_step (hw : w.Numbered) (e : Event C) : w.started ≤ (w.step e).1.started := by
  have hm := hw.move e
  generalize w.step e = p at hm ⊢
  cases hm with
  | answered | began => exact Nat.le_succ _
  | _ => exact Nat.le_refl _

theorem opened_number_lt (hw : w.Numbered) {u : Task C} (h : (w.step e).2.opened = some u) :
    u.number < (w.step e).1.started := by
  have hm := hw.move e
  generalize w.step e = p at hm h ⊢
  cases hm with
  | began => exact Option.some.inj h ▸ Nat.lt_succ_self _
  | @continued t _ _ _ ht =>
    obtain rfl := Option.some.inj h
    exact hw.number_lt t ht
  | _ => cases h

theorem opened_of_waiting (hw : w.Numbered) (hn : n < w.started) {Q : C.Waiting → Prop}
    (h : ∀ t ∈ w.tasks, t.number = n → Q t.waiting) {u : Task C}
    (hu : (w.step e).2.opened = some u) (hun : u.number = n) :
    ∃ x a s, Q x ∧ (C.resume x a s).2 = .waiting u.waiting := by
  subst hun
  rcases opened_origin hw hu with ⟨_, heq⟩ | ⟨t, ht, r, _, heq, hresume⟩
  · exact absurd heq (Nat.ne_of_lt hn)
  · exact ⟨_, _, _, h t ht heq.symm, hresume⟩

theorem mem_tasks_of_opened (hw : w.Numbered) {u : Task C} (h : (w.step e).2.opened = some u) :
    u ∈ (w.step e).1.tasks := by
  have hm := hw.move e
  generalize w.step e = p at hm h ⊢
  cases hm with
  | began => simp [Option.some.inj h]
  | continued => exact (mem_insertTask hw.sorted).mpr (.inl (Option.some.inj h).symm)
  | _ => cases h

end Step

variable {w : World C} {es : List (Event C)} {n : Nat}

theorem run_concat (w : World C) (es : List (Event C)) (e : Event C) :
    (w.run (es ++ [e])).2 = (w.run es).2 ++ [((w.after es).step e).2] := by
  induction es generalizing w with
  | nil => rfl
  | cons f es ih => exact congrArg ((w.step f).2 :: ·) (ih (w.step f).1)

theorem length_run (w : World C) (es : List (Event C)) : (w.run es).2.length = es.length := by
  induction es generalizing w with
  | nil => rfl
  | cons e es ih => exact congrArg Nat.succ (ih (w.step e).1)

theorem issues_concat (w : World C) (es : List (Event C)) (e : Event C) (n : Nat) :
    w.issues (es ++ [e]) n = w.issues es n ++
      (Trace.issuedFor n ((w.after es).step e).2).map fun c => (es.length, c) := by
  rw [issues, run_concat, List.zipIdx_append, List.flatMap_append, length_run, Nat.zero_add]
  simp [issues]

theorem issues_concat_of_opened (hw : w.Numbered) (es : List (Event C)) {e : Event C} {t : Task C}
    (h : ((w.after es).step e).2.opened = some t) :
    w.issues (es ++ [e]) t.number = w.issues es t.number ++ [(es.length, C.call t.waiting)] := by
  rw [issues_concat, Trace.issuedFor_of_opened h rfl, calls_step (hw.after es), h]
  rfl

theorem issues_concat_of_ne {e : Event C}
    (h : ∀ t, ((w.after es).step e).2.opened = some t → t.number ≠ n) :
    w.issues (es ++ [e]) n = w.issues es n := by
  rw [issues_concat, Trace.issuedFor_eq_nil h, List.map_nil, List.append_nil]

theorem issues_of_started_le (hw : w.Numbered) (es : List (Event C)) :
    (w.after es).started ≤ n → w.issues es n = [] := by
  refine run_induction (P := fun es v => v.started ≤ n → w.issues es n = []) w (fun _ => rfl) ?_ es
  intro es e ih hn
  have hle := started_le_step (hw.after es) e
  rw [issues_concat_of_ne fun t ht => ?_, ih (Nat.le_trans hle hn)]
  exact Nat.ne_of_lt (Nat.lt_of_lt_of_le (opened_number_lt (hw.after es) ht) hn)

theorem issues_append_of (hw : w.Numbered) {Q : C.Waiting → Prop}
    (hQ : ∀ x a s y, Q x → (C.resume x a s).2 = .waiting y → Q y)
    (hn : n < (w.after es).started)
    (h : ∀ t ∈ (w.after es).tasks, t.number = n → Q t.waiting) (fs : List (Event C)) :
    n < (w.after (es ++ fs)).started ∧
      (∀ t ∈ (w.after (es ++ fs)).tasks, t.number = n → Q t.waiting) ∧
      ∃ rest, w.issues (es ++ fs) n = w.issues es n ++ rest ∧
        ∀ p ∈ rest, ∃ x a s y, Q x ∧ (C.resume x a s).2 = .waiting y ∧ p.2 = C.call y := by
  -- Carried along the run: where the task can still wait, and the calls that came of it so far.
  induction fs using List.reverseRecOn with
  | nil =>
    rw [List.append_nil]
    exact ⟨hn, h, [], (List.append_nil _).symm, nofun⟩
  | append_singleton fs e ih =>
    obtain ⟨hn, h, rest, hissues, hrest⟩ := ih
    have hnum := hw.after (es ++ fs)
    rw [← List.append_assoc, after_concat]
    refine ⟨Nat.lt_of_lt_of_le hn (started_le_step hnum e), fun t ht htn => ?_, ?_⟩
    · rcases mem_tasks_step hnum ht with ht | hu
      · exact h t ht htn
      · obtain ⟨x, a, s, hx, hresume⟩ := opened_of_waiting hnum hn h hu htn
        exact hQ x a s _ hx hresume
    · by_cases hne : ∀ u, ((w.after (es ++ fs)).step e).2.opened = some u → u.number ≠ n
      · exact ⟨rest, (issues_concat_of_ne hne).trans hissues, hrest⟩
      · push Not at hne
        obtain ⟨u, hu, rfl⟩ := hne
        obtain ⟨x, a, s, hx, hresume⟩ := opened_of_waiting hnum hn h hu rfl
        refine ⟨rest ++ [((es ++ fs).length, C.call u.waiting)], ?_, fun p hp => ?_⟩
        · rw [issues_concat_of_opened hw _ hu, hissues, List.append_assoc]
        · rcases List.mem_append.mp hp with hp | hp
          · exact hrest p hp
          · exact ⟨x, a, s, _, hx, hresume, congrArg Prod.snd (List.mem_singleton.mp hp)⟩

theorem issues_append (hw : w.Numbered) (hn : n < (w.after es).started)
    (h : ∀ t ∈ (w.after es).tasks, t.number = n → Closing t.waiting) (fs : List (Event C)) :
    w.issues (es ++ fs) n = w.issues es n ∧
      ∀ t ∈ (w.after (es ++ fs)).tasks, t.number = n → Closing t.waiting := by
  obtain ⟨_, htasks, rest, hissues, hrest⟩ :=
    issues_append_of hw (fun x a s y hx h => absurd h (hx a s y)) hn h fs
  have hnil : rest = [] := List.eq_nil_iff_forall_not_mem.mpr fun p hp => by
    obtain ⟨x, a, s, y, hx, hresume, _⟩ := hrest p hp
    exact hx a s y hresume
  exact ⟨by rw [hissues, hnil, List.append_nil], htasks⟩

theorem issues_append_of_mem (hw : w.Numbered) {t : Task C} (ht : t ∈ (w.after es).tasks)
    (fs : List (Event C)) (h : t ∈ (w.after (es ++ fs)).tasks) :
    w.issues (es ++ fs) t.number = w.issues es t.number := by
  induction fs using List.reverseRecOn with
  | nil => rw [List.append_nil]
  | append_singleton fs e ih =>
    have hnum := hw.after (es ++ fs)
    rw [← List.append_assoc, after_concat] at h
    have hcall : t.callNumber < (w.after (es ++ fs)).issued := by
      have hmono := measure_mono (f := World.issued) (fun es e => issued_le_step (hw.after es) e)
        es fs
      exact Nat.lt_of_lt_of_le ((hw.after es).callNumber_lt t ht) hmono
    have hlive : t ∈ (w.after (es ++ fs)).tasks := by
      rcases mem_tasks_step hnum h with h | hopened
      · exact h
      · exact absurd (callNumber_of_opened hnum hopened) (Nat.ne_of_lt hcall)
    rw [← List.append_assoc, issues_concat_of_ne fun u hu heq => ?_, ih hlive]
    -- Another call of the task would have taken its place.
    obtain rfl := (hnum.step e).number_inj (mem_tasks_of_opened hnum hu) h heq
    exact Nat.ne_of_lt hcall (callNumber_of_opened hnum hu)

theorem mem_issues_iff (hw : w.Numbered) {k : Nat} {c : Call} :
    (k, c) ∈ w.issues es n ↔ ∃ t, w.Opens es k t ∧ t.number = n ∧ C.call t.waiting = c := by
  induction es using List.reverseRecOn with
  | nil =>
    refine iff_of_false List.not_mem_nil ?_
    rintro ⟨t, h, _⟩
    exact Nat.not_lt_zero _ h.lt
  | append_singleton es e ih =>
    simp only [opens_concat, or_and_right, exists_or, ← ih]
    rw [issues_concat, List.mem_append]
    refine or_congr_right ?_
    cases hopened : ((w.after es).step e).2.opened with
    | none =>
      rw [Trace.issuedFor_eq_nil (by rw [hopened]; exact nofun)]
      simp
    | some t =>
      by_cases hn : t.number = n
      · rw [Trace.issuedFor_of_opened hopened hn, calls_step (hw.after es), hopened]
        simp [hn, eq_comm]
      · rw [Trace.issuedFor_eq_nil (by rw [hopened]; rintro _ ⟨⟩; exact hn)]
        simp [hn]

theorem started_request (w : World C) (r : C.Request) :
    (w.step (.request r)).1.started = w.started + 1 := by
  rcases h : C.start r w.state with ⟨s, x | o⟩ <;> simp [step, place, h, withoutTask]

section Requests

variable {k : Nat} {v : World C} {r : C.Request}

theorem Happens.take_succ {e : Event C} (h : w.Happens es k v e) :
    es.take (k + 1) = es.take k ++ [e] := by
  rw [List.take_add_one, h.event, Option.toList_some]

theorem Happens.length_take {e : Event C} (h : w.Happens es k v e) : (es.take k).length = k :=
  List.length_take_of_le (Nat.le_of_lt h.lt)

theorem Happens.started_lt (h : w.Happens es k v (.request r)) :
    v.started < (w.after (es.take (k + 1))).started := by
  rw [h.after_take, started_request]
  exact Nat.lt_succ_self _

theorem Happens.issues_take (hw : w.Numbered) (h : w.Happens es k v (.request r)) :
    w.issues (es.take k) v.started = [] :=
  issues_of_started_le hw _ (Nat.le_of_eq (congrArg World.started h.world))

theorem Happens.mem_tasks_of_number (hw : w.Numbered) (h : w.Happens es k v (.request r))
    {t : Task C} (ht : t ∈ (w.after (es.take (k + 1))).tasks) (hn : t.number = v.started) :
    (v.step (.request r)).2.opened = some t := by
  have hnum : v.Numbered := h.world ▸ hw.after (es.take k)
  rw [h.after_take] at ht
  rcases mem_tasks_step hnum ht with ht | hopened
  · exact absurd hn (hnum.ne_started t ht)
  · exact hopened

theorem exists_request (hw : w.Numbered) (hzero : w.started = 0) (es : List (Event C)) :
    ∀ n < (w.after es).started, ∃ k v r, w.Happens es k v (.request r) ∧ v.started = n := by
  refine run_induction (P := fun es u => ∀ n < u.started, ∃ k v r,
    w.Happens es k v (.request r) ∧ v.started = n) w ?_ ?_ es
  · exact fun n hn => absurd hn (hzero ▸ Nat.not_lt_zero n)
  · intro es e ih n hn
    have hm := (hw.after es).move e
    have hold : n < (w.after es).started → ∃ k v r,
        w.Happens (es ++ [e]) k v (.request r) ∧ v.started = n := by
      intro hn
      obtain ⟨k, v, r, h, hv⟩ := ih n hn
      exact ⟨k, v, r, happens_concat.mpr (.inl h), hv⟩
    have hnew : ∀ r, e = .request r → n = (w.after es).started → ∃ k v r,
        w.Happens (es ++ [e]) k v (.request r) ∧ v.started = n :=
      fun r he hn => ⟨_, _, r, happens_concat.mpr (.inr ⟨rfl, rfl, he⟩), hn.symm⟩
    generalize (w.after es).step e = p at hm hn
    cases hm with
    | answered | began =>
      rcases Nat.lt_succ_iff_lt_or_eq.mp hn with hn | hn
      · exact hold hn
      · exact hnew _ rfl hn
    | _ => exact hold hn

theorem Opens.number_lt (hw : w.Numbered) {t : Task C} (h : w.Opens es k t) :
    t.number < (w.after es).started := by
  obtain ⟨v, e, hv, hopened⟩ := h
  have hlt := opened_number_lt (hv.world ▸ hw.after (es.take k)) hopened
  have hmono := measure_mono (f := World.started) (fun es e => started_le_step (hw.after es) e)
    (es.take (k + 1)) (es.drop (k + 1))
  rw [List.take_append_drop, hv.after_take] at hmono
  exact Nat.lt_of_lt_of_le hlt hmono

theorem exists_issues (hw : w.Numbered) (hzero : w.started = 0) {e : Event C} {c : Call}
    (h : w.Happens es k v e) (hc : c ∈ (v.step e).2.calls) :
    ∃ i u r, w.Happens es i u (.request r) ∧ (k, c) ∈ w.issues es u.started := by
  rw [calls_step (h.world ▸ hw.after (es.take k)), List.mem_map] at hc
  obtain ⟨t, ht, rfl⟩ := hc
  have hopens : w.Opens es k t := ⟨v, e, h, Option.mem_toList.mp ht⟩
  obtain ⟨i, u, r, hrequest, hn⟩ := exists_request hw hzero es t.number (hopens.number_lt hw)
  exact ⟨i, u, r, hrequest, (mem_issues_iff hw).mpr ⟨t, hopens, hn.symm, rfl⟩⟩

theorem issues_of_finished (hw : w.Numbered) (h : w.Happens es k v (.request r))
    (hr : (v.step (.request r)).2.opened = none) : w.issues es v.started = [] := by
  have hgone : ∀ t ∈ (w.after (es.take (k + 1))).tasks, t.number = v.started →
      Closing t.waiting := by
    intro t ht hn
    rw [h.mem_tasks_of_number hw ht hn] at hr
    cases hr
  have happend := (issues_append hw h.started_lt hgone (es.drop (k + 1))).1
  rw [List.take_append_drop, h.take_succ, issues_concat_of_ne, h.issues_take hw] at happend
  · exact happend
  · rw [h.world, hr]
    exact nofun

theorem issues_of_opened (hw : w.Numbered) (h : w.Happens es k v (.request r)) {t : Task C}
    (hr : (v.step (.request r)).2.opened = some t) (hn : t.number = v.started) :
    w.issues (es.take (k + 1)) v.started = [(k, C.call t.waiting)] := by
  have hconcat := issues_concat_of_opened hw (es.take k) (by rw [h.world]; exact hr)
  rw [← h.take_succ, hn, h.issues_take hw, h.length_take, List.nil_append] at hconcat
  exact hconcat

theorem Opens.issues_eq (hw : w.Numbered) {t : Task C} (h : w.Opens es k t) {Q : C.Waiting → Prop}
    (hQ : ∀ x a s y, Q x → (C.resume x a s).2 = .waiting y → Q y) (ht : Q t.waiting) :
    ∃ rest, w.issues es t.number =
        w.issues (es.take k) t.number ++ (k, C.call t.waiting) :: rest ∧
      ∀ p ∈ rest, ∃ x a s y, Q x ∧ (C.resume x a s).2 = .waiting y ∧ p.2 = C.call y := by
  obtain ⟨v, e, h, hopened⟩ := h
  have hnum : v.Numbered := h.world ▸ hw.after (es.take k)
  have honly : ∀ u ∈ (w.after (es.take (k + 1))).tasks, u.number = t.number → Q u.waiting := by
    intro u hu hn
    rw [h.after_take] at hu
    obtain rfl := (hnum.step e).number_inj hu (mem_tasks_of_opened hnum hopened) hn
    exact ht
  have hlt : t.number < (w.after (es.take (k + 1))).started :=
    h.after_take ▸ opened_number_lt hnum hopened
  have hconcat := issues_concat_of_opened hw (es.take k) (by rw [h.world]; exact hopened)
  obtain ⟨_, _, rest, hissues, hrest⟩ := issues_append_of hw hQ hlt honly (es.drop (k + 1))
  rw [List.take_append_drop, h.take_succ, hconcat, h.length_take, List.append_assoc] at hissues
  exact ⟨rest, hissues, hrest⟩

theorem Opens.issues_of_closing (hw : w.Numbered) {t : Task C} (h : w.Opens es k t)
    (ht : Closing t.waiting) :
    w.issues es t.number = w.issues (es.take k) t.number ++ [(k, C.call t.waiting)] := by
  obtain ⟨rest, hissues, hrest⟩ := h.issues_eq hw (fun x a s y hx h => absurd h (hx a s y)) ht
  have hnil : rest = [] := List.eq_nil_iff_forall_not_mem.mpr fun p hp => by
    obtain ⟨x, a, s, y, hx, hresume, _⟩ := hrest p hp
    exact hx a s y hresume
  rw [hissues, hnil]

theorem Opens.issues_take_of_mem (hw : w.Numbered) {j : Nat} {t : Task C} (h : w.Opens es j t)
    (ht : t ∈ (w.after (es.take k)).tasks) :
    w.issues (es.take k) t.number = w.issues (es.take j) t.number ++ [(j, C.call t.waiting)] := by
  have hjk : j + 1 ≤ k := h.lt_of_mem hw ht
  obtain ⟨v, e, h, hopened⟩ := h
  have hsplit : es.take k = es.take (j + 1) ++ (es.take k).drop (j + 1) := by
    conv_lhs => rw [← List.take_append_drop (j + 1) (es.take k), List.take_take, Nat.min_eq_left hjk]
  have hlive : t ∈ (w.after (es.take (j + 1))).tasks :=
    h.after_take ▸ mem_tasks_of_opened (h.world ▸ hw.after (es.take j)) hopened
  have hconcat := issues_concat_of_opened hw (es.take j) (by rw [h.world]; exact hopened)
  rw [hsplit, issues_append_of_mem hw hlive _ (hsplit ▸ ht), h.take_succ, hconcat, h.length_take]

theorem issues_of_closing (hw : w.Numbered) (h : w.Happens es k v (.request r)) {t : Task C}
    (hr : (v.step (.request r)).2.opened = some t) (hn : t.number = v.started)
    (ht : Closing t.waiting) : w.issues es v.started = [(k, C.call t.waiting)] := by
  rw [← hn, Opens.issues_of_closing hw ⟨v, _, h, hr⟩ ht, hn, h.issues_take hw, List.nil_append]

end Requests

end QuotaDesk.World
