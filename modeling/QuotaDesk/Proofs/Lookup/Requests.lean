import QuotaDesk.Proofs.Controller.Issued
import QuotaDesk.Proofs.Ledger.Paging
import QuotaDesk.Proofs.Lookup.InFlight
import QuotaDesk.Proofs.Lookup.Provenance

/-! The calls behind a lookup. A lookup asks for the summary of its key, and for the first
page of the ledger when that summary comes while the lookup is still the newest. A page
request asks for its page if the ledger on show has it. Nothing else issues a call. -/

namespace QuotaDesk.Lookup

/-- Event `j` brings a summary for `key` to the task `t` of the lookup accepted at event `k`,
while no other lookup has been accepted. -/
def Summarizes (es : List (Event controller)) (k : Nat) (t : Task controller) (key : String)
    (j : Nat) : Prop :=
  (∃ summary, BringsSummary es j t key summary) ∧ ∀ i raw u, k < i → i < j → ¬Accepts es i raw u

def Pursued (es : List (Event controller)) (k : Nat) (t : Task controller) (key : String) : Prop :=
  ((∀ j, ¬Summarizes es k t key j) ∧ unused.issues es t.number = [(k, .quota key)] ∧
      ∀ u ∈ (unused.after es).tasks, u.number = t.number → u = t) ∨
    ∃ j, (∀ i, Summarizes es k t key i ↔ i = j) ∧
      unused.issues es t.number = [(k, .quota key), (j, .history key 1 Ledger.pageSize)] ∧
      ∀ u ∈ (unused.after es).tasks, u.number = t.number → World.Closing u.waiting

variable {es : List (Event controller)} {k j l : Nat} {t : Task controller} {raw key : String}

theorem closing_page (key : String) (page size : UInt32) (generation fetch : Nat)
    (chained : Bool) :
    World.Closing (C := controller) (.page key page size generation fetch chained) := by
  intro a s y h
  have hlt := controller.rank_lt _ a s y h
  cases y <;> simp [rank] at hlt

theorem not_closing_summary (key : String) (generation : Nat) :
    ¬World.Closing (C := controller) (.summary key generation) := by
  intro h
  rcases resume_summary key (.ok ⟨true, none, some {}⟩) { generation } with
    ⟨_, summary, _, hresume⟩ | ⟨hno, _⟩
  · exact h _ _ _ (congrArg Prod.snd hresume)
  · exact hno none {} rfl

theorem summarizes_concat {e : Event controller} :
    Summarizes (es ++ [e]) k t key j ↔ Summarizes es k t key j ∨
      j = es.length ∧ t ∈ (unused.after es).tasks ∧ (∀ i raw u, k < i → ¬Accepts es i raw u) ∧
        ∃ r message summary, e = .reply t.callNumber r ∧
          r (.quota key) = .ok ⟨true, message, some summary⟩ := by
  have hbefore : ∀ {j}, j ≤ es.length → ((∀ i raw u, k < i → i < j →
      ¬Accepts (es ++ [e]) i raw u) ↔ ∀ i raw u, k < i → i < j → ¬Accepts es i raw u) := by
    refine fun hj => forall₃_congr fun i raw u => imp_congr_right fun _ => imp_congr_right fun hi =>
      not_congr (accepts_concat.trans (or_iff_left ?_))
    rintro ⟨rfl, _⟩
    exact Nat.not_lt_of_le hj hi
  constructor
  · rintro ⟨⟨summary, w, r, message, hreplies, hr⟩, hnone⟩
    rcases World.happens_concat.mp hreplies.happens with h | ⟨rfl, rfl, rfl⟩
    · exact .inl ⟨⟨summary, w, r, message, ⟨h, hreplies.live⟩, hr⟩,
        (hbefore (Nat.le_of_lt h.lt)).mp hnone⟩
    · have hnone' := (hbefore (Nat.le_refl _)).mp hnone
      exact .inr ⟨rfl, hreplies.live, fun i raw u hi h => hnone' i raw u hi h.2.lt h,
        r, message, summary, rfl, hr⟩
  · rintro (⟨⟨summary, hbrings⟩, hnone⟩ | ⟨rfl, ht, hnone, r, message, summary, rfl, hr⟩)
    · have hj : j ≤ es.length := by
        obtain ⟨_, _, _, hreplies, _⟩ := hbrings
        exact Nat.le_of_lt hreplies.happens.lt
      exact ⟨⟨summary, hbrings.concat e⟩, (hbefore hj).mpr hnone⟩
    · exact ⟨⟨summary, _, r, message, replies_concat_self ht r, hr⟩,
        (hbefore (Nat.le_refl _)).mpr fun i raw u hi _ => hnone i raw u hi⟩

theorem Accepts.current_iff (h : Accepts es k raw t) :
    t.waiting = .summary (Text.trim raw) (unused.after es).state.generation ↔
      ∀ i raw u, k < i → ¬Accepts es i raw u := by
  rw [h.waiting.2, ← generation_current_iff, Waiting.summary.injEq]
  exact (and_iff_right rfl).trans eq_comm

theorem Pursued.summarize (haccepts : Accepts es k raw t)
    (hissues : unused.issues es t.number = [(k, .quota (Text.trim raw))])
    (hnone : ∀ j, ¬Summarizes es k t (Text.trim raw) j) {r : Reply}
    (hsum : Summarizes (es ++ [.reply t.callNumber r]) k t (Text.trim raw) es.length) :
    Pursued (es ++ [.reply t.callNumber r]) k t (Text.trim raw) := by
  have hmarked := marked_after es
  have hunique : ∀ i, Summarizes (es ++ [.reply t.callNumber r]) k t (Text.trim raw) i ↔
      i = es.length := by
    refine fun i => ⟨fun h => ?_, fun h => h ▸ hsum⟩
    rcases summarizes_concat.mp h with h | ⟨h, _⟩
    · exact absurd h (hnone i)
    · exact h
  rcases summarizes_concat.mp hsum with h | ⟨_, ht, hcurrent, r', message, summary, heq, hr⟩
  · exact absurd h (hnone _)
  obtain rfl : r = r' := by simpa using heq
  have hx := haccepts.current_iff.mpr hcurrent
  rcases resumeTask_summary hx r with ⟨_, summary', _, hstep⟩ | ⟨hno, _⟩
  · have hkey : (unused.after es).state.view.key = Text.trim raw :=
      ((hx ▸ hmarked.fits t ht : Waiting.Fits _ (.summary ..)).2 rfl).2.1
    rw [← hmarked.numbered.step_reply ht] at hstep
    have hopened := congrArg (fun p => p.2.opened) hstep
    have hcall : call (pageCall 1 true (summarized summary' (unused.after es).state)) =
        .history (Text.trim raw) 1 Ledger.pageSize := by
      rw [← hkey, ← hmarked.size]
      rfl
    refine .inr ⟨es.length, hunique, ?_, fun u hu hn => ?_⟩
    · have hconcat := World.issues_concat_of_opened marked_unused.numbered _ hopened
      rw [hissues] at hconcat
      exact hconcat.trans (congrArg (fun c => [_, (es.length, c)]) hcall)
    · rw [World.after_concat, hstep] at hu
      rcases (World.mem_insertTask hmarked.numbered.sorted).mp hu with rfl | ⟨_, hne⟩
      · exact closing_page _ _ _ _ _ _
      · exact absurd hn hne
  · exact absurd hr (hno message summary)

theorem Pursued.concat (haccepts : Accepts es k raw t) (h : Pursued es k t (Text.trim raw))
    (hlt : t.number < (unused.after es).started) (e : Event controller) :
    Pursued (es ++ [e]) k t (Text.trim raw) := by
  have hnum := (marked_after es).numbered
  rcases h with ⟨hnone, hissues, honly⟩ | ⟨j, hj, hissues, hclosing⟩
  · by_cases hsum : Summarizes (es ++ [e]) k t (Text.trim raw) es.length
    · rcases summarizes_concat.mp hsum with h | ⟨_, _, _, r, _, _, rfl, _⟩
      · exact absurd h (hnone _)
      · exact Pursued.summarize haccepts hissues hnone hsum
    -- Any other event leaves the task where it is, or ends it.
    · have hne : ∀ u, ((unused.after es).step e).2.opened = some u → u.number ≠ t.number := by
        intro u hu hn
        refine hsum (summarizes_concat.mpr (.inr ⟨rfl, ?_⟩))
        rcases World.opened_origin hnum hu with ⟨_, heq⟩ | ⟨t', ht', r, rfl, heq, hresume⟩
        · exact absurd (hn.symm.trans heq) (Nat.ne_of_lt hlt)
        · obtain rfl := honly t' ht' (heq.symm.trans hn)
          by_cases hcurrent : Waiting.Current (unused.after es).state t'.waiting
          · rcases hcurrent.cases with ⟨key, hx⟩ | ⟨key, page, size, chained, hx⟩
            · have hkey : key = Text.trim raw :=
                (Waiting.summary.inj (hx.symm.trans haccepts.waiting.2)).1
              subst hkey
              rcases resumeTask_summary hx r with ⟨message, summary, hr, _⟩ | ⟨_, f, hstep⟩
              · exact ⟨ht', haccepts.current_iff.mp hx, r, message, summary, rfl, hr⟩
              · rw [hnum.step_reply ht', hstep] at hu
                cases hu
            · exact absurd hresume (hx ▸ closing_page _ _ _ _ _ _ _ _ _)
          · rw [hnum.step_reply ht', resumeTask_late hcurrent] at hu
            cases hu
      refine .inl ⟨fun j hj => ?_, (World.issues_concat_of_ne hne).trans hissues, fun u hu hn => ?_⟩
      · rcases summarizes_concat.mp hj with h | h
        · exact hnone j h
        · exact hsum (h.1 ▸ hj)
      · rw [World.after_concat] at hu
        rcases World.mem_tasks_step hnum hu with hu | hopened
        · exact honly u hu hn
        · exact absurd hn (hne u hopened)
  · have happend := World.issues_append marked_unused.numbered hlt hclosing [e]
    refine .inr ⟨j, fun i => ⟨fun h => ?_, fun h => ?_⟩, happend.1.trans hissues, happend.2⟩
    · rcases summarizes_concat.mp h with h | ⟨_, ht, _⟩
      · exact (hj i).mp h
      -- The task of the lookup has gone on to its page and waits for no summary.
      · have hclosing := hclosing t ht rfl
        rw [haccepts.waiting.2] at hclosing
        exact absurd hclosing (not_closing_summary _ _)
    · exact summarizes_concat.mpr (.inl ((hj i).mpr h))

theorem pursued_after (es : List (Event controller)) :
    ∀ k raw t, Accepts es k raw t →
      t.number < (unused.after es).started ∧ Pursued es k t (Text.trim raw) := by
  refine World.run_induction (P := fun es w => ∀ k raw t, Accepts es k raw t →
    t.number < w.started ∧ Pursued es k t (Text.trim raw)) unused ?_ ?_ es
  · exact fun k raw t h => absurd h.2.lt (Nat.not_lt_zero k)
  · intro es e ih k raw t h
    have hnum := (marked_after es).numbered
    rcases accepts_concat.mp h with hold | ⟨rfl, rfl, hopened⟩
    · obtain ⟨hlt, hpursued⟩ := ih k raw t hold
      exact ⟨Nat.lt_of_lt_of_le hlt (World.started_le_step hnum e), hpursued.concat hold hlt e⟩
    · obtain ⟨x, _, rfl⟩ := World.opened_request_iff.mp hopened
      have hhappens : unused.Happens (es ++ [.request (.lookup raw)]) es.length (unused.after es)
          (.request (.lookup raw)) := World.happens_concat.mpr (.inr ⟨rfl, rfl, rfl⟩)
      have htake : ∀ e : Event controller, (es ++ [e]).take (es.length + 1) = es ++ [e] :=
        fun e => List.take_of_length_le (by rw [List.length_append, List.length_singleton])
      have hissues := World.issues_of_opened marked_unused.numbered hhappens hopened rfl
      rw [htake, h.waiting.2] at hissues
      refine ⟨World.opened_number_lt hnum hopened, .inl ⟨fun j hj => ?_, hissues, fun u hu hn => ?_⟩⟩
      · obtain ⟨⟨_, w, r, _, hreplies, _⟩, _⟩ := hj
        have hlt := h.2.lt_of_mem marked_unused.numbered
          (hreplies.happens.world ▸ hreplies.live)
        have hj := hreplies.happens.lt
        rw [List.length_append, List.length_singleton] at hj
        omega
      · rw [← htake] at hu
        have heq := hhappens.mem_tasks_of_number marked_unused.numbered hu hn
        exact Option.some.inj (heq.symm.trans hopened)

theorem key_ne_empty_of_summary (h : (unused.after es).state.view.summary ≠ none) :
    (unused.after es).state.view.key ≠ "" := by
  rcases traced_after es with ⟨_, _, hnone⟩ | ⟨i, raw, t, hnewest, hkey, _⟩
  · exact absurd hnone h
  · exact hkey ▸ hnewest.1.waiting.1

theorem accepts_shown_iff (es : List (Event controller)) (page : UInt32) :
    (unused.after es).state.view.paging.accepts page = true ↔
      page = 1 ∨ 1 < page ∧
        page.toNat ≤ (unused.after es).state.view.paging.total.toNat ⌈/⌉ 10 := by
  have hsize : (unused.after es).state.view.paging.perPage = 10 := by
    rw [Ledger.Paging.perPage, (marked_after es).size]
    rfl
  rw [Ledger.Paging.accepts_iff, hsize]

theorem issues_load {w : World controller} {page : UInt32}
    (h : unused.Happens es k w (.request (.load page))) :
    unused.issues es w.started =
      if w.state.view.summary ≠ none ∧
          (page = 1 ∨ 1 < page ∧ page.toNat ≤ w.state.view.paging.total.toNat ⌈/⌉ 10) then
        [(k, .history w.state.view.key page 10)]
      else [] := by
  obtain rfl := h.world
  have haccepts := accepts_shown_iff (es.take k) page
  split
  · next hshown =>
    have hstart := congrArg Prod.snd (start_load_shown (key_ne_empty_of_summary hshown.1) hshown.1
      (haccepts.mpr hshown.2))
    have hopened : ((unused.after (es.take k)).step (.request (.load page))).2.opened = some
        ⟨_, _, pageCall page false (unused.after (es.take k)).state⟩ :=
      World.opened_request_iff.mpr ⟨_, hstart, rfl⟩
    rw [World.issues_of_closing marked_unused.numbered h hopened rfl (closing_page _ _ _ _ _ _)]
    have hsize := (marked_after (es.take k)).size
    exact congrArg (fun size => [(k, Call.history _ page size)]) hsize
  · next hhidden =>
    refine World.issues_of_finished marked_unused.numbered h (Option.eq_none_iff_forall_not_mem.mpr
      fun t ht => hhidden ?_)
    obtain ⟨x, hx, _⟩ := World.opened_request_iff.mp ht
    rcases start_waiting (Prod.ext rfl hx) with ⟨_, heq, _⟩ | ⟨_, heq, _, hsummary, hpage, _⟩
    · cases heq
    · obtain rfl : page = _ := by simpa using heq
      exact ⟨hsummary, haccepts.mp hpage⟩

theorem history_issued {w : World controller} {e : Event controller} {page size : UInt32}
    (h : unused.Happens es l w e) (hcall : .history key page size ∈ (w.step e).2.calls) :
    size = Ledger.pageSize ∧ ∃ i raw t j summary,
      NewestLookup (es.take (l + 1)) i raw t ∧ key = Text.trim raw ∧ i < j ∧ j ≤ l ∧
        BringsSummary es j t key summary ∧ (w.step e).1.state.view.summary = some summary := by
  have hmarked : Marked w := marked_of_happens h
  have hafter : (unused.after (es.take (l + 1))).state = (w.step e).1.state :=
    congrArg World.state h.after_take
  have hshown : key = (w.step e).1.state.view.key ∧ size = Ledger.pageSize ∧
      (w.step e).1.state.view.summary ≠ none := by
    have hturn := turn hmarked.numbered e
    generalize w.step e = p at hturn hcall ⊢
    cases hturn with
    | accepted hkey hfree ht =>
      subst ht
      cases List.mem_singleton.mp hcall
    | asked hkey hsummary hpage ht =>
      subst ht
      cases List.mem_singleton.mp hcall
      exact ⟨rfl, hmarked.size, hsummary⟩
    | summarized ht hx hr hu =>
      subst hu
      cases List.mem_singleton.mp hcall
      exact ⟨rfl, hmarked.size, nofun⟩
    | _ => cases hcall
  obtain ⟨rfl, hsize, hsome⟩ := hshown
  rw [← hafter] at hsome ⊢
  rcases traced_after (es.take (l + 1)) with ⟨_, _, hnone⟩ | ⟨i, raw, t, hnewest, hkey, hrest⟩
  · exact absurd hnone hsome
  rcases hrest with ⟨hnone, _⟩ | ⟨j, summary, hij, hbrings, hsummary, _⟩
  · exact absurd hnone hsome
  · obtain ⟨v, r, message, ⟨hhappens, hlive⟩, hr⟩ := hbrings
    obtain ⟨hj, hhappens⟩ := World.happens_take.mp hhappens
    exact ⟨hsize, i, raw, t, j, summary, hnewest, hkey, hij, Nat.le_of_lt_succ hj,
      ⟨v, r, message, ⟨hhappens, hlive⟩, hr⟩, hsummary⟩

theorem issues_of_not_accepted {w : World controller} {r : Request} {o : Outcome}
    (h : unused.Happens es k w (.request r))
    (hfinished : (w.step (.request r)).2.finished = [(w.started, o)]) :
    unused.issues es w.started = [] := by
  refine World.issues_of_finished marked_unused.numbered h
    (Option.eq_none_iff_forall_not_mem.mpr fun t ht => ?_)
  obtain ⟨x, hx, _⟩ := World.opened_request_iff.mp ht
  rw [World.finished_request_iff.mp hfinished] at hx
  cases hx

theorem issues_lookup {w : World controller}
    (h : unused.Happens es k w (.request (.lookup raw))) (hkey : Text.trim raw ≠ "")
    (hfree : (w.step (.request (.lookup raw))).2.finished ≠ [(w.started, .inFlight)]) :
    ∃ t, Accepts es k raw t ∧ t.number = w.started ∧ Pursued es k t (Text.trim raw) := by
  rw [ne_eq, World.finished_request_iff, start_inFlight_iff, not_and] at hfree
  have hstart := congrArg Prod.snd (start_lookup_new hkey (hfree hkey))
  have hopened : (w.step (.request (.lookup raw))).2.opened = some
      ⟨w.started, w.issued, .summary (Text.trim raw) (w.state.generation + 1)⟩ :=
    World.opened_request_iff.mpr ⟨_, hstart, rfl⟩
  have haccepts : Accepts es k raw _ := ⟨h.event, w, _, h, hopened⟩
  exact ⟨_, haccepts, rfl, (pursued_after es k raw _ haccepts).2⟩

/-- The calls of every run. A lookup issues one call for the summary of its trimmed key, or
none if the key is blank or already being looked up. It issues one more, for the first page,
exactly at the event that brings its summary while no newer lookup has been accepted. A page
request issues one call if a summary is on show and the ledger has the page, and none
otherwise. Nothing else issues a call, and every page is asked for with the summary of the
newest lookup on show, by its key and in tens. -/
theorem request_discipline (es : List (Event controller)) :
    (∀ k w raw, unused.Happens es k w (.request (.lookup raw)) →
      ((Text.trim raw = "" ∨
          (w.step (.request (.lookup raw))).2.finished = [(w.started, .inFlight)]) →
        unused.issues es w.started = []) ∧
      (Text.trim raw ≠ "" →
        (w.step (.request (.lookup raw))).2.finished ≠ [(w.started, .inFlight)] →
        ∃ t, Accepts es k raw t ∧ t.number = w.started ∧
          ((∃ j, (∀ i, Summarizes es k t (Text.trim raw) i ↔ i = j) ∧
              unused.issues es w.started =
                [(k, .quota (Text.trim raw)), (j, .history (Text.trim raw) 1 10)]) ∨
            (∀ j, ¬Summarizes es k t (Text.trim raw) j) ∧
              unused.issues es w.started = [(k, .quota (Text.trim raw))]))) ∧
      (∀ k w page, unused.Happens es k w (.request (.load page)) →
        unused.issues es w.started =
          if w.state.view.summary ≠ none ∧
              (page = 1 ∨ 1 < page ∧ page.toNat ≤ w.state.view.paging.total.toNat ⌈/⌉ 10) then
            [(k, .history w.state.view.key page 10)]
          else []) ∧
      (∀ k w r, r = .take ∨ r = .snapshot → unused.Happens es k w (.request r) →
        unused.issues es w.started = []) ∧
      (∀ l w e c, unused.Happens es l w e → c ∈ (w.step e).2.calls →
        ∃ k v r, unused.Happens es k v (.request r) ∧ (l, c) ∈ unused.issues es v.started) ∧
      ∀ l w e key page size, unused.Happens es l w e → .history key page size ∈ (w.step e).2.calls →
        size = 10 ∧ ∃ i raw t j summary,
          NewestLookup (es.take (l + 1)) i raw t ∧ key = Text.trim raw ∧ i < j ∧ j ≤ l ∧
            BringsSummary es j t key summary ∧ (w.step e).1.state.view.summary = some summary := by
  refine ⟨fun k w raw h => ⟨?_, fun hkey hfree => ?_⟩, fun k w page => issues_load, ?_, ?_,
    fun l w e key page size => history_issued⟩
  · rintro (hblank | hinFlight)
    · have hstart : (start (.lookup raw) w.state).2 =
          .finished (.refused (.validation keyRequired)) := by
        simp [start, startLookup, refuse, hblank]
      exact issues_of_not_accepted h (World.finished_request_iff.mpr hstart)
    · exact issues_of_not_accepted h hinFlight
  · obtain ⟨t, haccepts, hnumber, hpursued⟩ := issues_lookup h hkey hfree
    rw [← hnumber]
    rcases hpursued with ⟨hnone, hissues, _⟩ | ⟨j, hj, hissues, _⟩
    · exact ⟨t, haccepts, rfl, .inr ⟨hnone, hissues⟩⟩
    · exact ⟨t, haccepts, rfl, .inl ⟨j, hj, hissues⟩⟩
  · rintro k w r (rfl | rfl) h <;>
      exact issues_of_not_accepted h (World.finished_request_iff.mpr rfl)
  · exact fun l w e c => World.exists_issues marked_unused.numbered rfl

def eleven : Reply
  | .quota _ => .ok ⟨true, none, some {}⟩
  | .history .. => .ok ⟨true, none, some { total := 11 }⟩
  | _ => .error (.transport historyFailed)

theorem request_discipline_second_page :
    let es : List (Event controller) :=
      [.request (.lookup " a "), .reply 0 eleven, .reply 1 eleven, .request (.load 2)]
    let w := unused.after (es.take 3)
    unused.Happens es 3 w (.request (.load 2)) ∧ w.started = 1 ∧
      w.state.view.summary ≠ none ∧ w.state.view.paging.total = 11 ∧
      unused.issues es 1 = [(3, .history "a" 2 10)] := by
  intro es w
  have h : unused.Happens es 3 w (.request (.load 2)) := ⟨rfl, rfl⟩
  have hpage : (2 : UInt32).toNat ≤ w.state.view.paging.total.toNat ⌈/⌉ 10 := by decide
  exact ⟨h, rfl, nofun, rfl,
    ((request_discipline es).2.1 3 w 2 h).trans (if_pos ⟨nofun, .inr ⟨by decide, hpage⟩⟩)⟩

end QuotaDesk.Lookup
