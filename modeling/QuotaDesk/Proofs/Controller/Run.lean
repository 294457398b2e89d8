import Mathlib.Data.List.Induction
import QuotaDesk.Controller.World

/-! Runs of a controller, event by event. An event is named by its place in the
run, so that a statement can say what came before it and what came after. -/

namespace QuotaDesk.World

variable {C : Controller}

def after (w : World C) (es : List (Event C)) : World C :=
  (w.run es).1

@[simp] theorem after_nil (w : World C) : w.after [] = w := rfl

theorem after_cons (w : World C) (e : Event C) (es : List (Event C)) :
    w.after (e :: es) = (w.step e).1.after es := rfl

theorem after_append (w : World C) (es fs : List (Event C)) :
    w.after (es ++ fs) = (w.after es).after fs := by
  induction es generalizing w with
  | nil => rfl
  | cons e es ih => simpa only [List.cons_append, after_cons] using ih (w.step e).1

theorem after_concat (w : World C) (es : List (Event C)) (e : Event C) :
    w.after (es ++ [e]) = ((w.after es).step e).1 := by
  rw [after_append, after_cons, after_nil]

def outcomes (w : World C) (es : List (Event C)) : List (Nat × C.Outcome) :=
  (w.run es).2.flatMap Trace.finished

theorem outcomes_cons (w : World C) (e : Event C) (es : List (Event C)) :
    w.outcomes (e :: es) = (w.step e).2.finished ++ (w.step e).1.outcomes es := rfl

/-- Event `k` of the run is `e`, and it meets the world `v`. -/
structure Happens (w : World C) (es : List (Event C)) (k : Nat) (v : World C) (e : Event C) :
    Prop where
  event : es[k]? = some e
  world : w.after (es.take k) = v

def Opens (w : World C) (es : List (Event C)) (k : Nat) (t : Task C) : Prop :=
  ∃ v e, w.Happens es k v e ∧ (v.step e).2.opened = some t

structure Replies (w : World C) (es : List (Event C)) (k : Nat) (v : World C) (t : Task C)
    (r : Reply) : Prop where
  happens : w.Happens es k v (.reply t.callNumber r)
  live : t ∈ v.tasks

variable {w : World C} {es : List (Event C)} {k : Nat}

theorem Happens.lt {v : World C} {e : Event C} (h : w.Happens es k v e) : k < es.length :=
  (List.getElem?_eq_some_iff.mp h.event).1

theorem Opens.lt {t : Task C} (h : w.Opens es k t) : k < es.length := by
  obtain ⟨v, e, h, _⟩ := h
  exact h.lt

theorem Happens.unique {v v' : World C} {e e' : Event C} (h : w.Happens es k v e)
    (h' : w.Happens es k v' e') : v = v' ∧ e = e' :=
  ⟨h.world.symm.trans h'.world, Option.some.inj (h.event.symm.trans h'.event)⟩

theorem happens_concat {v : World C} {e f : Event C} :
    w.Happens (es ++ [e]) k v f ↔
      w.Happens es k v f ∨ k = es.length ∧ w.after es = v ∧ e = f := by
  rcases Nat.lt_trichotomy k es.length with hk | rfl | hk
  · have hle : k ≤ es.length := Nat.le_of_lt hk
    constructor
    · rintro ⟨he, hv⟩
      rw [List.getElem?_append_left hk] at he
      rw [List.take_append_of_le_length hle] at hv
      exact .inl ⟨he, hv⟩
    · rintro (⟨he, hv⟩ | ⟨rfl, _⟩)
      · exact ⟨by rw [List.getElem?_append_left hk, he],
          by rw [List.take_append_of_le_length hle, hv]⟩
      · exact absurd hk (Nat.lt_irrefl _)
  · constructor
    · rintro ⟨he, hv⟩
      rw [List.getElem?_concat_length] at he
      rw [List.take_left' rfl] at hv
      exact .inr ⟨rfl, hv, Option.some.inj he⟩
    · rintro (h | ⟨_, hv, he⟩)
      · exact absurd h.lt (Nat.lt_irrefl _)
      · exact ⟨by rw [List.getElem?_concat_length, he], by rw [List.take_left' rfl, hv]⟩
  · constructor
    · intro h
      have := h.lt
      rw [List.length_append, List.length_singleton] at this
      omega
    · rintro (h | ⟨rfl, _⟩)
      · exact absurd h.lt (Nat.lt_asymm hk)
      · exact absurd hk (Nat.lt_irrefl _)

theorem happens_take {n : Nat} {v : World C} {e : Event C} :
    w.Happens (es.take n) k v e ↔ k < n ∧ w.Happens es k v e := by
  constructor
  · intro h
    have hk : k < n := by
      have := h.lt
      rw [List.length_take] at this
      omega
    refine ⟨hk, ?_, ?_⟩
    · rw [← List.getElem?_take_of_lt hk, h.event]
    · rw [← h.world, List.take_take, Nat.min_eq_left (Nat.le_of_lt hk)]
  · rintro ⟨hk, he, hv⟩
    refine ⟨?_, ?_⟩
    · rw [List.getElem?_take_of_lt hk, he]
    · rw [List.take_take, Nat.min_eq_left (Nat.le_of_lt hk), hv]

theorem Happens.after_take {v : World C} {e : Event C} (h : w.Happens es k v e) :
    w.after (es.take (k + 1)) = (v.step e).1 := by
  rw [List.take_add_one, h.event, Option.toList_some, after_concat, h.world]

theorem opens_take {n : Nat} {t : Task C} :
    w.Opens (es.take n) k t ↔ k < n ∧ w.Opens es k t := by
  simp only [Opens, happens_take, and_assoc, exists_and_left]

theorem opens_concat {e : Event C} {t : Task C} :
    w.Opens (es ++ [e]) k t ↔
      w.Opens es k t ∨ k = es.length ∧ ((w.after es).step e).2.opened = some t := by
  constructor
  · rintro ⟨v, f, h, ht⟩
    rcases happens_concat.mp h with h | ⟨rfl, rfl, rfl⟩
    · exact .inl ⟨v, f, h, ht⟩
    · exact .inr ⟨rfl, ht⟩
  · rintro (⟨v, f, h, ht⟩ | ⟨rfl, ht⟩)
    · exact ⟨v, f, happens_concat.mpr (.inl h), ht⟩
    · exact ⟨w.after es, e, happens_concat.mpr (.inr ⟨rfl, rfl, rfl⟩), ht⟩

theorem Opens.unique {t u : Task C} (h : w.Opens es k t) (h' : w.Opens es k u) : t = u := by
  obtain ⟨v, e, h, ht⟩ := h
  obtain ⟨v', e', h', hu⟩ := h'
  obtain ⟨rfl, rfl⟩ := h.unique h'
  exact Option.some.inj (ht.symm.trans hu)

theorem Replies.concat {v : World C} {t : Task C} {r : Reply} (e : Event C)
    (h : w.Replies es k v t r) : w.Replies (es ++ [e]) k v t r :=
  ⟨happens_concat.mpr (.inl h.happens), h.live⟩

theorem replies_take {n : Nat} {v : World C} {t : Task C} {r : Reply} :
    w.Replies (es.take n) k v t r ↔ k < n ∧ w.Replies es k v t r := by
  constructor
  · rintro ⟨h, ht⟩
    obtain ⟨hk, h⟩ := happens_take.mp h
    exact ⟨hk, h, ht⟩
  · rintro ⟨hk, h, ht⟩
    exact ⟨happens_take.mpr ⟨hk, h⟩, ht⟩

theorem after_take_eq {α : Sort*} {f : World C → α} {n : Nat}
    (h : ∀ k v e, n ≤ k → w.Happens es k v e → f (v.step e).1 = f v) :
    f (w.after (es.take n)) = f (w.after es) := by
  induction es using List.reverseRecOn with
  | nil => rw [List.take_nil]
  | append_singleton es e ih =>
    rcases Nat.lt_or_ge es.length n with hlt | hle
    · have hlen : (es ++ [e]).length ≤ n := by
        rw [List.length_append, List.length_singleton]
        exact hlt
      rw [List.take_of_length_le hlen]
    · rw [List.take_append_of_le_length hle, after_concat,
        h es.length _ e hle (happens_concat.mpr (.inr ⟨rfl, rfl, rfl⟩))]
      exact ih fun k v e' hk he => h k v e' hk (happens_concat.mpr (.inl he))

theorem measure_mono {f : World C → Nat}
    (hf : ∀ es e, f (w.after es) ≤ f ((w.after es).step e).1) (es fs : List (Event C)) :
    f (w.after es) ≤ f (w.after (es ++ fs)) := by
  induction fs using List.reverseRecOn with
  | nil => exact Nat.le_of_eq (by rw [List.append_nil])
  | append_singleton fs e ih =>
    rw [← List.append_assoc, after_concat]
    exact Nat.le_trans ih (hf _ e)

theorem measure_eq_iff {f : World C → Nat}
    (hf : ∀ es e, f (w.after es) ≤ f ((w.after es).step e).1) {n : Nat} :
    f (w.after (es.take n)) = f (w.after es) ↔
      ∀ k v e, n ≤ k → w.Happens es k v e → f (v.step e).1 = f v := by
  refine ⟨fun heq k v e hk h => ?_, after_take_eq⟩
  -- Up to event `k`, at it and after it the measure may only rise, so it does so nowhere.
  have hbefore := measure_mono hf (es.take n) ((es.take k).drop n)
  have hafter := measure_mono hf (es.take (k + 1)) (es.drop (k + 1))
  have htake : es.take n = (es.take k).take n := by rw [List.take_take, Nat.min_eq_left hk]
  rw [htake, List.take_append_drop, ← htake, h.world] at hbefore
  rw [List.take_append_drop, h.after_take] at hafter
  have hstep := hf (es.take k) e
  rw [h.world] at hstep
  omega

theorem run_induction {P : List (Event C) → World C → Prop} (w : World C) (nil : P [] w)
    (concat : ∀ es e, P es (w.after es) → P (es ++ [e]) ((w.after es).step e).1)
    (es : List (Event C)) : P es (w.after es) := by
  induction es using List.reverseRecOn with
  | nil => exact nil
  | append_singleton es e ih =>
    rw [after_concat]
    exact concat es e ih

end QuotaDesk.World
