import QuotaDesk.Text.Split

/-! Splitting undone: a list is cut where a separator stands between parts without one, and is made
of copies of its front and what does not start with another one. -/

namespace QuotaDesk.Text

variable {α : Type} [DecidableEq α] {a : α} {l : List α}

theorem splitOn_of_not_mem (h : a ∉ l) : splitOn a l = [l] := by
  induction l with
  | nil => rfl
  | cons b l ih =>
    rw [List.mem_cons, not_or] at h
    rw [splitOn, if_neg (Ne.symm h.1), ih h.2]

theorem splitOn_append_cons (h : a ∉ l) (rest : List α) :
    splitOn a (l ++ a :: rest) = l :: splitOn a rest := by
  induction l with
  | nil => simp [splitOn]
  | cons b l ih =>
    rw [List.mem_cons, not_or] at h
    rw [List.cons_append, splitOn, if_neg (Ne.symm h.1), ih h.2]

theorem splitOn_ne_nil (a : α) (l : List α) : splitOn a l ≠ [] := by
  cases l with
  | nil => exact List.cons_ne_nil _ _
  | cons b l =>
    unfold splitOn
    split
    · exact List.cons_ne_nil _ _
    · split <;> exact List.cons_ne_nil _ _

theorem splitOn_append (l rest : List α) :
    splitOn a (l ++ a :: rest) = splitOn a l ++ splitOn a rest := by
  induction l with
  | nil => simp [splitOn]
  | cons b l ih =>
    obtain ⟨part, parts, hl⟩ := List.exists_cons_of_ne_nil (splitOn_ne_nil a l)
    by_cases hb : b = a
    · simp [splitOn, hb, ih]
    · simp [splitOn, hb, ih, hl]

theorem not_mem_of_splitOn_eq_singleton {x : List α} (h : splitOn a l = [x]) : l = x ∧ a ∉ x := by
  by_cases ha : a ∈ l
  · obtain ⟨front, rest, rfl, hfront⟩ := List.eq_append_cons_of_mem ha
    rw [splitOn_append_cons hfront] at h
    exact absurd (List.cons.inj h).2 (splitOn_ne_nil a rest)
  · rw [splitOn_of_not_mem ha] at h
    obtain rfl := (List.cons.inj h).1
    exact ⟨rfl, ha⟩

theorem splitOn_eq_pair_iff {x y : List α} :
    splitOn a l = [x, y] ↔ l = x ++ a :: y ∧ a ∉ x ∧ a ∉ y := by
  constructor
  · intro h
    by_cases ha : a ∈ l
    · obtain ⟨front, rest, rfl, hfront⟩ := List.eq_append_cons_of_mem ha
      rw [splitOn_append_cons hfront] at h
      obtain ⟨rfl, hrest⟩ := List.cons.inj h
      obtain ⟨rfl, hy⟩ := not_mem_of_splitOn_eq_singleton hrest
      exact ⟨rfl, hfront, hy⟩
    · rw [splitOn_of_not_mem ha] at h
      cases h
  · rintro ⟨rfl, hx, hy⟩
    rw [splitOn_append_cons hx, splitOn_of_not_mem hy]

theorem cut_of_not_mem (h : a ∉ l) : cut a l = (l, none) := by
  induction l with
  | nil => rfl
  | cons b l ih =>
    rw [List.mem_cons, not_or] at h
    rw [cut, if_neg (Ne.symm h.1), ih h.2]

theorem cut_append_cons (h : a ∉ l) (rest : List α) : cut a (l ++ a :: rest) = (l, some rest) := by
  induction l with
  | nil => simp [cut]
  | cons b l ih =>
    rw [List.mem_cons, not_or] at h
    rw [List.cons_append, cut, if_neg (Ne.symm h.1), ih h.2]

theorem eq_append_of_cut {rest : List α} {front : List α} (h : cut a l = (front, some rest)) :
    l = front ++ a :: rest := by
  induction l generalizing front with
  | nil => cases h
  | cons b l ih =>
    unfold cut at h
    split at h
    · next hb =>
      cases h
      rw [hb, List.nil_append]
    · rcases hcut : cut a l with ⟨front', rest'⟩
      rw [hcut] at h
      cases h
      rw [List.cons_append, ← ih hcut]

def copies (n : Nat) (l : List α) : List α :=
  (List.replicate n l).flatten

omit [DecidableEq α] in
theorem copies_succ (n : Nat) (l : List α) : copies (n + 1) l = l ++ copies n l := by
  rw [copies, List.replicate_succ, List.flatten_cons, copies]

omit [DecidableEq α] in
theorem copies_eq_nil_iff {n : Nat} (hl : l ≠ []) : copies n l = [] ↔ n = 0 := by
  cases n with
  | zero => simp [copies]
  | succ n => simp [copies_succ, hl]

theorem after?_append (lead rest : List α) : after? lead (lead ++ rest) = some rest := by
  induction lead with
  | nil => rfl
  | cons b lead ih => rw [List.cons_append, after?, if_pos rfl, ih]

theorem after?_eq_none {lead : List α} (h : ¬lead <+: l) : after? lead l = none := by
  cases hafter : after? lead l with
  | none => rfl
  | some rest => exact absurd ⟨rest, (eq_append_of_after? hafter).symm⟩ h

theorem dropCopies_append {lead : List α} (hne : lead ≠ []) (l : List α) :
    dropCopies lead (lead ++ l) = dropCopies lead l := by
  rw [dropCopies, dif_neg hne]
  split
  · next rest h =>
    rw [after?_append, Option.some.injEq] at h
    exact congrArg (dropCopies lead) h.symm
  · next h => simp [after?_append] at h

theorem dropCopies_of_not_isPrefix {lead : List α} (h : ¬lead <+: l) : dropCopies lead l = l := by
  rw [dropCopies]
  split
  · rfl
  · split
    · next hafter => simp [after?_eq_none h] at hafter
    · rfl

theorem dropCopies_copies {lead : List α} (h : ¬lead <+: l) (n : Nat) :
    dropCopies lead (copies n lead ++ l) = l := by
  have hne : lead ≠ [] := by
    rintro rfl
    exact h List.nil_prefix
  induction n with
  | zero => exact dropCopies_of_not_isPrefix h
  | succ n ih =>
    rw [copies_succ, List.append_assoc, dropCopies_append hne, ih]

theorem exists_dropCopies (lead l : List α) : ∃ n, l = copies n lead ++ dropCopies lead l := by
  fun_induction dropCopies lead l with
  | case1 l => exact ⟨0, rfl⟩
  | case2 l hne rest h hlt ih =>
    obtain ⟨n, hn⟩ := ih
    refine ⟨n + 1, ?_⟩
    rw [copies_succ, List.append_assoc, eq_append_of_after? h]
    exact congrArg (lead ++ ·) hn
  | case3 l hne h => exact ⟨0, rfl⟩

end QuotaDesk.Text
