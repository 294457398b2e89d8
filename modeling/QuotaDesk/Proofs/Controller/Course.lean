import QuotaDesk.Proofs.Controller.Issued

/-! What comes of one request in a run. Whatever other tasks do, its calls and where it stands
are told by the replies that it has heard and by the states that it met. -/

namespace QuotaDesk

variable {C : Controller}

def Controller.opens (C : Controller) : Progress C.Waiting C.Outcome → List Call
  | .waiting x => [C.call x]
  | .finished _ => []

/-- The calls and the replies of a request up to where it stands. Between its steps the state
may have changed in any way. -/
inductive Course (C : Controller) (r : C.Request) :
    List Call → List Reply → Progress C.Waiting C.Outcome → Prop
  | start (s : C.State) : Course C r (C.opens (C.start r s).2) [] (C.start r s).2
  | resume {calls : List Call} {replies : List Reply} {x : C.Waiting}
      (h : Course C r calls replies (.waiting x)) (reply : Reply) (s : C.State) :
      Course C r (calls ++ C.opens (C.resume x (reply (C.call x)) s).2) (replies ++ [reply])
        (C.resume x (reply (C.call x)) s).2

theorem Course.length_eq {r : C.Request} {calls : List Call} {replies : List Reply}
    {p : Progress C.Waiting C.Outcome} (h : Course C r calls replies p) :
    calls.length = replies.length + (C.opens p).length := by
  induction h with
  | start s => simp
  | resume h reply s ih => simp [ih, Controller.opens]

theorem Course.eq_of_finished {r : C.Request} {o : C.Outcome}
    (hr : ∀ s, (C.start r s).2 = .finished o) {calls : List Call} {replies : List Reply}
    {p : Progress C.Waiting C.Outcome} (h : Course C r calls replies p) :
    calls = [] ∧ p = .finished o := by
  induction h with
  | start s =>
    rw [hr]
    exact ⟨rfl, rfl⟩
  | resume _ _ _ ih => cases ih.2

namespace World

def brings (w : World C) (number : Nat) : Event C → Option Reply
  | .reply callNumber r =>
    if w.tasks.any fun t => t.number == number && t.callNumber == callNumber then some r else none
  | _ => none

def heard (w : World C) (es : List (Event C)) (number : Nat) : List (Nat × Reply) :=
  es.zipIdx.filterMap fun e => ((w.after (es.take e.2)).brings number e.1).map (e.2, ·)

variable {w : World C} {es : List (Event C)} {e : Event C} {n k : Nat}

theorem brings_reply {t : Task C} (ht : t ∈ w.tasks) (r : Reply) :
    w.brings t.number (.reply t.callNumber r) = some r :=
  if_pos (List.any_eq_true.mpr ⟨t, ht, by simp⟩)

theorem brings_eq_some_iff {r : Reply} :
    w.brings n e = some r ↔ ∃ t ∈ w.tasks, t.number = n ∧ e = .reply t.callNumber r := by
  constructor
  · intro h
    cases e with
    | reply c r' =>
      obtain ⟨hany, hr⟩ := Option.ite_none_right_eq_some.mp h
      obtain ⟨t, ht, hp⟩ := List.any_eq_true.mp hany
      simp only [Bool.and_eq_true, beq_iff_eq] at hp
      exact ⟨t, ht, hp.1, by rw [hp.2, Option.some.inj hr]⟩
    | request | cancel => cases h
  · rintro ⟨t, ht, rfl, rfl⟩
    exact brings_reply ht r

theorem brings_eq_none (h : ∀ t ∈ w.tasks, t.number = n → ∀ r, e ≠ .reply t.callNumber r) :
    w.brings n e = none := by
  refine Option.eq_none_iff_forall_not_mem.mpr fun r hr => ?_
  obtain ⟨t, ht, hn, he⟩ := brings_eq_some_iff.mp hr
  exact h t ht hn r he

theorem heard_concat (w : World C) (es : List (Event C)) (e : Event C) (n : Nat) :
    w.heard (es ++ [e]) n =
      w.heard es n ++ ((w.after es).brings n e).toList.map (es.length, ·) := by
  have hold : es.zipIdx.filterMap (fun f =>
      ((w.after ((es ++ [e]).take f.2)).brings n f.1).map (f.2, ·)) = w.heard es n := by
    refine List.filterMap_congr fun f hf => ?_
    have hlt : f.2 ≤ es.length := by
      have := List.mem_zipIdx hf
      omega
    rw [List.take_append_of_le_length hlt]
  rw [heard, List.zipIdx_append, List.filterMap_append, hold]
  cases h : (w.after es).brings n e <;> simp [h]

theorem heard_take_prefix (w : World C) (es : List (Event C)) (k n : Nat) :
    w.heard (es.take k) n <+: w.heard es n := by
  have happend (fs : List (Event C)) : w.heard (es.take k) n <+: w.heard (es.take k ++ fs) n := by
    induction fs using List.reverseRecOn with
    | nil => simp
    | append_singleton fs e ih =>
      rw [← List.append_assoc, heard_concat]
      exact ih.trans (List.prefix_append _ _)
  have hsplit := happend (es.drop k)
  rwa [List.take_append_drop] at hsplit

theorem Replies.heard_take_succ {v : World C} {t : Task C} {r : Reply}
    (h : w.Replies es k v t r) :
    w.heard (es.take (k + 1)) t.number = w.heard (es.take k) t.number ++ [(k, r)] := by
  have hplace := h.happens.length_take
  rw [h.happens.take_succ, heard_concat, h.happens.world, brings_reply h.live, hplace]
  rfl

theorem started_take_mono (hw : w.Numbered) (es : List (Event C)) {l : Nat} (h : k ≤ l) :
    (w.after (es.take k)).started ≤ (w.after (es.take l)).started := by
  have hmono := measure_mono (f := World.started) (fun es e => started_le_step (hw.after es) e)
    (es.take k) ((es.take l).drop k)
  have htake : es.take k = (es.take l).take k := by rw [List.take_take, Nat.min_eq_left h]
  rwa [htake, List.take_append_drop, ← htake] at hmono

theorem heard_of_started_le (hw : w.Numbered) (es : List (Event C)) :
    (w.after es).started ≤ n → w.heard es n = [] := by
  refine run_induction (P := fun es v => v.started ≤ n → w.heard es n = []) w (fun _ => rfl) ?_ es
  intro es e ih hn
  have hnum := hw.after es
  have hle := Nat.le_trans (started_le_step hnum e) hn
  rw [heard_concat, ih hle, brings_eq_none]
  · rfl
  · exact fun t ht htn _ _ => Nat.not_lt_of_le hle (htn ▸ hnum.number_lt t ht)

theorem outcomes_concat (w : World C) (es : List (Event C)) (e : Event C) :
    w.outcomes (es ++ [e]) = w.outcomes es ++ ((w.after es).step e).2.finished := by
  rw [outcomes, run_concat, List.flatMap_append, List.flatMap_singleton, outcomes]

theorem Happens.mem_outcomes {v : World C} {o : C.Outcome} (h : w.Happens es k v e)
    (ho : (n, o) ∈ (v.step e).2.finished) : (n, o) ∈ w.outcomes es := by
  have hkept (fs : List (Event C)) : (n, o) ∈ w.outcomes (es.take (k + 1) ++ fs) := by
    induction fs using List.reverseRecOn with
    | nil =>
      rw [List.append_nil, h.take_succ, outcomes_concat, h.world]
      exact List.mem_append_right _ ho
    | append_singleton fs f ih =>
      rw [← List.append_assoc, outcomes_concat]
      exact List.mem_append_left _ ih
  have hsplit := hkept (es.drop (k + 1))
  rwa [List.take_append_drop] at hsplit

theorem finished_number_lt (hw : w.Numbered) {o : C.Outcome}
    (h : (n, o) ∈ (w.step e).2.finished) : n < (w.step e).1.started := by
  rcases finished_cases hw h with ⟨r, s, rfl, rfl, _⟩ | ⟨t, r, s, ht, rfl, rfl, _⟩
  · rw [started_request]
    exact Nat.lt_succ_self _
  · exact Nat.lt_of_lt_of_le (hw.number_lt t ht) (started_le_step hw _)

theorem outcome_number_lt (hw : w.Numbered) (es : List (Event C)) {o : C.Outcome} :
    (n, o) ∈ w.outcomes es → n < (w.after es).started := by
  refine run_induction (P := fun es v => (n, o) ∈ w.outcomes es → n < v.started) w nofun ?_ es
  intro es e ih h
  rw [outcomes_concat, List.mem_append] at h
  rcases h with h | h
  · exact Nat.lt_of_lt_of_le (ih h) (started_le_step (hw.after es) e)
  · exact finished_number_lt (hw.after es) h

theorem issuedFor_place (w : World C) (n : Nat) (q : C.State × Progress C.Waiting C.Outcome) :
    Trace.issuedFor n (w.place n q).2 = C.opens q.2 := by
  rcases q with ⟨s, x | o⟩
  · exact Trace.issuedFor_of_opened rfl rfl
  · exact Trace.issuedFor_eq_nil nofun

theorem finished_place_iff (w : World C) (n : Nat) (q : C.State × Progress C.Waiting C.Outcome)
    (o : C.Outcome) : (n, o) ∈ (w.place n q).2.finished ↔ q.2 = .finished o := by
  rcases q with ⟨s, x | o'⟩ <;> simp [place, eq_comm]

theorem standing_place (hw : w.tasks.Pairwise fun t u => t.number < u.number)
    {q : C.State × Progress C.Waiting C.Outcome} {t : Task C} (ht : t ∈ (w.place n q).1.tasks)
    (hn : t.number = n) : q.2 = .waiting t.waiting := by
  rcases q with ⟨s, x | o⟩
  · rcases (mem_insertTask hw).mp ht with rfl | ⟨_, hne⟩
    · rfl
    · exact absurd hn hne
  · exact absurd hn (mem_withoutTask.mp ht).2

/-- What a run has to show for task `n`, which request `r` began at event `k` and which stands
at `p`. Each call but the first is issued at the event that brings the reply to the one before. -/
structure Account (w : World C) (es : List (Event C)) (k : Nat) (r : C.Request) (n : Nat)
    (p : Progress C.Waiting C.Outcome) : Prop where
  course : Course C r ((w.issues es n).map Prod.snd) ((w.heard es n).map Prod.snd) p
  places : (w.issues es n).map Prod.fst <+: k :: (w.heard es n).map Prod.fst
  standing : ∀ t ∈ (w.after es).tasks, t.number = n → p = .waiting t.waiting
  ended : ∀ o, (n, o) ∈ w.outcomes es ↔ p = .finished o

def Answers (w : World C) (n : Nat) (e : Event C) : Prop :=
  ∃ t ∈ w.tasks, t.number = n ∧ ∃ r, e = .reply t.callNumber r

theorem not_finished_of_not_answers (hw : w.Numbered) (hn : n < w.started)
    (h : ¬w.Answers n e) {o : C.Outcome} : (n, o) ∉ (w.step e).2.finished := by
  intro ho
  rcases finished_cases hw ho with ⟨r, s, _, rfl, _⟩ | ⟨t, r, s, ht, rfl, rfl, _⟩
  · exact Nat.lt_irrefl _ hn
  · exact h ⟨t, ht, rfl, r, rfl⟩

theorem opened_ne_of_not_answers (hw : w.Numbered) (hn : n < w.started)
    (h : ¬w.Answers n e) {t : Task C} (ht : (w.step e).2.opened = some t) : t.number ≠ n := by
  rintro rfl
  rcases opened_origin hw ht with ⟨_, heq⟩ | ⟨u, hu, r, rfl, heq, _⟩
  · exact Nat.ne_of_lt hn heq
  · exact h ⟨u, hu, heq.symm, r, rfl⟩

theorem brings_eq_none_of_not_answers (h : ¬w.Answers n e) : w.brings n e = none :=
  brings_eq_none fun t ht hn r he => h ⟨t, ht, hn, r, he⟩

namespace Account

variable {r : C.Request} {p : Progress C.Waiting C.Outcome}

theorem skip (hw : w.Numbered) (hn : n < (w.after es).started) (h : w.Account es k r n p)
    (he : ¬(w.after es).Answers n e) : w.Account (es ++ [e]) k r n p := by
  have hnum := hw.after es
  have hopened : ∀ t, ((w.after es).step e).2.opened = some t → t.number ≠ n := fun t =>
    opened_ne_of_not_answers hnum hn he
  have hissues : w.issues (es ++ [e]) n = w.issues es n := issues_concat_of_ne hopened
  have hheard : w.heard (es ++ [e]) n = w.heard es n := by
    rw [heard_concat, brings_eq_none_of_not_answers he]
    exact List.append_nil _
  refine ⟨?_, ?_, fun t ht htn => ?_, fun o => ?_⟩
  · rw [hissues, hheard]
    exact h.course
  · rw [hissues, hheard]
    exact h.places
  · rw [after_concat] at ht
    rcases mem_tasks_step hnum ht with ht | ht
    · exact h.standing t ht htn
    · exact absurd htn (hopened t ht)
  · rw [outcomes_concat, List.mem_append, ← h.ended]
    exact or_iff_left (not_finished_of_not_answers hnum hn he)

theorem open_places (h : w.Account es k r n p) {x : C.Waiting} (hp : p = .waiting x) :
    (w.issues es n).map Prod.fst = k :: (w.heard es n).map Prod.fst := by
  subst hp
  have hlength := h.course.length_eq
  simp only [List.length_map] at hlength
  exact h.places.eq_of_length (by simpa [Controller.opens] using hlength)

theorem answer (hw : w.Numbered) (h : w.Account es k r n p) {t : Task C}
    (ht : t ∈ (w.after es).tasks) (htn : t.number = n) (reply : Reply) :
    w.Account (es ++ [.reply t.callNumber reply]) k r n
      (C.resume t.waiting (reply (C.call t.waiting)) (w.after es).state).2 := by
  subst htn
  have hnum := hw.after es
  obtain rfl := h.standing t ht rfl
  have hstep : (w.after es).step (.reply t.callNumber reply) = (w.after es).place t.number
      (C.resume t.waiting (reply (C.call t.waiting)) (w.after es).state) :=
    hnum.step_reply ht reply
  have hheard : w.heard (es ++ [.reply t.callNumber reply]) t.number =
      w.heard es t.number ++ [(es.length, reply)] := by
    rw [heard_concat, brings_reply ht]
    rfl
  have hissues : w.issues (es ++ [.reply t.callNumber reply]) t.number =
      w.issues es t.number ++ (C.opens (C.resume t.waiting (reply (C.call t.waiting))
        (w.after es).state).2).map (es.length, ·) := by
    rw [issues_concat, hstep, issuedFor_place]
  refine ⟨?_, ?_, fun u hu hun => ?_, fun o => ?_⟩
  · rw [hissues, hheard, List.map_append, List.map_append, List.map_map]
    simpa [Function.comp_def] using h.course.resume reply (w.after es).state
  · rw [hissues, hheard, List.map_append, List.map_append, h.open_places rfl, ← List.cons_append]
    refine (List.prefix_append_right_inj _).mpr ?_
    rcases (C.resume t.waiting (reply (C.call t.waiting)) (w.after es).state).2 with x | o
    · exact List.prefix_rfl
    · exact List.nil_prefix
  · rw [after_concat, hstep] at hu
    exact standing_place hnum.sorted hu hun
  · rw [outcomes_concat, List.mem_append, h.ended, hstep, finished_place_iff]
    exact or_iff_right nofun

theorem begin (hw : w.Numbered) (es : List (Event C)) (r : C.Request) :
    w.Account (es ++ [.request r]) es.length r (w.after es).started
      (C.start r (w.after es).state).2 := by
  have hnum := hw.after es
  have hissues : w.issues (es ++ [.request r]) (w.after es).started =
      (C.opens (C.start r (w.after es).state).2).map (es.length, ·) := by
    rw [issues_concat, issues_of_started_le hw es (Nat.le_refl _)]
    exact congrArg (List.map _) (issuedFor_place _ _ _)
  have hheard : w.heard (es ++ [.request r]) (w.after es).started = [] := by
    rw [heard_concat, heard_of_started_le hw es (Nat.le_refl _)]
    rfl
  refine ⟨?_, ?_, fun t ht htn => ?_, fun o => ?_⟩
  · rw [hissues, hheard, List.map_map]
    simpa [Function.comp_def] using Course.start (C := C) (r := r) (w.after es).state
  · rw [hissues, hheard]
    rcases (C.start r (w.after es).state).2 with x | o
    · exact List.prefix_rfl
    · exact List.nil_prefix
  · rw [after_concat] at ht
    exact standing_place hnum.begin.sorted ht htn
  · rw [outcomes_concat, List.mem_append, or_iff_right fun h =>
      Nat.lt_irrefl _ (outcome_number_lt hw es h)]
    exact finished_place_iff _ _ _ o

end Account

theorem account_after (hw : w.Numbered) (es : List (Event C)) {v : World C} {r : C.Request}
    (h : w.Happens es k v (.request r)) :
    v.started < (w.after es).started ∧ ∃ p, w.Account es k r v.started p := by
  induction es using List.reverseRecOn with
  | nil => exact absurd h.lt (Nat.not_lt_zero k)
  | append_singleton es e ih =>
    have hnum := hw.after es
    rcases happens_concat.mp h with h | ⟨rfl, rfl, rfl⟩
    · obtain ⟨hn, p, hp⟩ := ih h
      refine ⟨?_, ?_⟩
      · rw [after_concat]
        exact Nat.lt_of_lt_of_le hn (started_le_step hnum e)
      · by_cases he : (w.after es).Answers v.started e
        · obtain ⟨t, ht, htn, reply, rfl⟩ := he
          exact ⟨_, hp.answer hw ht htn reply⟩
        · exact ⟨p, hp.skip hw hn he⟩
    · refine ⟨?_, _, Account.begin hw es r⟩
      rw [after_concat, started_request]
      exact Nat.lt_succ_self _

theorem Happens.request_inj (hw : w.Numbered) {r r' : C.Request} {u v : World C} {l : Nat}
    (h : w.Happens es k v (.request r)) (h' : w.Happens es l u (.request r'))
    (hn : v.started = u.started) : k = l := by
  have hle {k l : Nat} {u v : World C} {r r' : C.Request} (h : w.Happens es k v (.request r))
      (h' : w.Happens es l u (.request r')) (hn : v.started = u.started) : l ≤ k := by
    by_contra hlt
    have hmono := started_take_mono hw es (Nat.not_le.mp hlt)
    rw [h.after_take, started_request, h'.world, hn] at hmono
    exact Nat.not_succ_le_self _ hmono
  exact Nat.le_antisymm (hle h' h hn.symm) (hle h h' hn)

theorem Happens.replies_next (hw : w.Numbered) {r : C.Request} {v : World C} {x : C.Waiting}
    {reply : Reply} (h : w.Happens es k v (.request r)) (hx : (C.start r v.state).2 = .waiting x)
    (he : es[k + 1]? = some (.reply v.issued reply)) :
    w.Replies es (k + 1) (v.step (.request r)).1 ⟨v.started, v.issued, x⟩ reply := by
  have hnum : v.Numbered := h.world ▸ hw.after (es.take k)
  have hopened : (v.step (.request r)).2.opened = some ⟨v.started, v.issued, x⟩ :=
    opened_request_iff.mpr ⟨x, hx, rfl⟩
  exact ⟨⟨he, h.after_take⟩, mem_tasks_of_opened hnum hopened⟩

theorem Happens.account_of_replies (hw : w.Numbered) {r : C.Request} {u v : World C} {l : Nat}
    {t : Task C} {reply : Reply} (hr : w.Happens es k v (.request r))
    (h : w.Replies es l u t reply) (hn : t.number = v.started) :
    w.Account (es.take l) k r v.started (.waiting t.waiting) := by
  have hworld := h.happens.world
  have hnum : u.Numbered := hworld ▸ hw.after (es.take l)
  have hkl : k < l := by
    by_contra hle
    have hmono := started_take_mono hw es (Nat.not_lt.mp hle)
    rw [hworld, hr.world, ← hn] at hmono
    exact Nat.lt_irrefl _ (Nat.lt_of_lt_of_le (hnum.number_lt t h.live) hmono)
  obtain ⟨-, p, haccount⟩ := account_after hw (es.take l) (happens_take.mpr ⟨hkl, hr⟩)
  exact haccount.standing t (hworld.symm ▸ h.live) hn ▸ haccount

theorem Happens.replies_of_finished (hw : w.Numbered) {r : C.Request} {u v : World C} {l : Nat}
    {o : C.Outcome} (hr : w.Happens es k v (.request r))
    (hwaits : (C.start r v.state).2 ≠ .finished o) (he : w.Happens es l u e)
    (ho : (v.started, o) ∈ (u.step e).2.finished) :
    ∃ t reply, t.number = v.started ∧ w.Replies es l u t reply ∧
      (C.resume t.waiting (reply (C.call t.waiting)) u.state).2 = .finished o := by
  have hnum : u.Numbered := he.world ▸ hw.after (es.take l)
  rcases finished_cases hnum ho with ⟨r', s, rfl, hn, hstart, _⟩ | ⟨t, reply, s, ht, rfl, hn, hs, _⟩
  · obtain rfl := hr.request_inj hw he hn
    obtain ⟨rfl, hevent⟩ := hr.unique he
    cases hevent
    exact absurd (congrArg Prod.snd hstart) hwaits
  · exact ⟨t, reply, hn.symm, ⟨he, ht⟩, congrArg Prod.snd hs⟩

end World
end QuotaDesk
