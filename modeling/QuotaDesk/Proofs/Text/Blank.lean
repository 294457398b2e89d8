import Mathlib.Data.List.DropRight
import Mathlib.Data.List.TakeWhile
import QuotaDesk.Text.Blank

/-! Trimming. What is left is what stands between the runs of blanks at either end: it has no blank
there, so there is nothing left to trim, and a text without any other character is trimmed to
nothing. -/

namespace QuotaDesk.Text

variable {α : Type} (p : α → Bool) (l : List α)

theorem dropBothWhile_eq : dropBothWhile p l = (l.dropWhile p).rdropWhile p := rfl

theorem dropWhile_dropBothWhile : (dropBothWhile p l).dropWhile p = dropBothWhile p l := by
  rw [dropBothWhile_eq, List.dropWhile_eq_self_iff]
  intro hpos
  have hfront := List.rdropWhile_prefix p (l.dropWhile p)
  have hkept := List.dropWhile_eq_self_iff.mp (List.dropWhile_idempotent (p := p) (l := l))
  rw [hfront.getElem hpos]
  exact hkept (Nat.lt_of_lt_of_le hpos hfront.length_le)

theorem dropBothWhile_dropBothWhile :
    dropBothWhile p (dropBothWhile p l) = dropBothWhile p l := by
  rw [dropBothWhile_eq, dropWhile_dropBothWhile, dropBothWhile_eq, List.rdropWhile_idempotent]

theorem dropBothWhile_eq_nil_iff : dropBothWhile p l = [] ↔ ∀ a ∈ l, p a = true := by
  rw [dropBothWhile_eq, List.rdropWhile_eq_nil_iff]
  refine ⟨fun h => ?_, fun h a ha => h a ((List.dropWhile_sublist p).subset ha)⟩
  intro a ha
  rw [← List.takeWhile_append_dropWhile (p := p) (l := l), List.mem_append] at ha
  exact ha.elim List.mem_takeWhile_imp (h a)

theorem dropBothWhile_eq_self {p : α → Bool} {l : List α} (h : ∀ a ∈ l, p a = false) :
    dropBothWhile p l = l := by
  have hfront : l.dropWhile p = l :=
    List.dropWhile_eq_self_iff.mpr fun hpos => by simp [h _ (List.getElem_mem hpos)]
  rw [dropBothWhile_eq, hfront]
  exact List.rdropWhile_eq_self_iff.mpr fun hne => by simp [h _ (List.getLast_mem hne)]

theorem exists_dropEndWhile :
    ∃ back, l = dropEndWhile p l ++ back ∧ (∀ a ∈ back, p a = true) ∧
      ∀ a ∈ (dropEndWhile p l).getLast?, p a = false := by
  refine ⟨(l.reverse.takeWhile p).reverse, ?_, ?_, ?_⟩
  · rw [dropEndWhile, ← List.reverse_append, List.takeWhile_append_dropWhile, List.reverse_reverse]
  · intro a ha
    exact List.mem_takeWhile_imp (List.mem_reverse.mp ha)
  · intro a ha
    rw [dropEndWhile, List.getLast?_reverse, Option.mem_def] at ha
    have hnot := List.head?_dropWhile_not p l.reverse
    rwa [ha] at hnot

variable {p l} {front back : List α}

theorem dropEndWhile_append_of_all (h : ∀ a ∈ back, p a = true) (l : List α) :
    dropEndWhile p (l ++ back) = dropEndWhile p l := by
  have hback : ∀ a ∈ back.reverse, p a = true := fun a ha => h a (List.mem_reverse.mp ha)
  rw [dropEndWhile, List.reverse_append, List.dropWhile_append_of_pos hback, dropEndWhile]

theorem dropBothWhile_append (hfront : ∀ a ∈ front, p a = true) (hback : ∀ a ∈ back, p a = true)
    (l : List α) : dropBothWhile p (front ++ l ++ back) = dropBothWhile p l := by
  rw [dropBothWhile, List.append_assoc, List.dropWhile_append_of_pos hfront, List.dropWhile_append]
  split
  · next hempty =>
    have hall := List.dropWhile_eq_nil_iff.mp (List.isEmpty_iff.mp hempty)
    rw [List.dropWhile_eq_nil_iff.mpr hback, (dropBothWhile_eq_nil_iff p l).mpr hall]
    rfl
  · exact dropEndWhile_append_of_all hback _

theorem dropWhile_append_cons {a : α} (ha : p a = false) (l r : List α) :
    (l ++ a :: r).dropWhile p = l.dropWhile p ++ a :: r := by
  induction l with
  | nil => simp [ha]
  | cons b l ih => cases hb : p b <;> simp [hb, ih]

theorem dropEndWhile_append_cons {a : α} (ha : p a = false) (l r : List α) :
    dropEndWhile p (l ++ a :: r) = l ++ a :: dropEndWhile p r := by
  rw [dropEndWhile, List.reverse_append, List.reverse_cons, List.append_assoc,
    List.singleton_append, dropWhile_append_cons ha]
  simp [dropEndWhile]

theorem dropBothWhile_append_cons {a : α} (ha : p a = false) (l r : List α) :
    dropBothWhile p (l ++ a :: r) = l.dropWhile p ++ a :: dropEndWhile p r := by
  rw [dropBothWhile, dropWhile_append_cons ha, dropEndWhile_append_cons ha]

theorem exists_dropWhile_append (h : ∀ a ∈ front, p a = false) (l : List α) :
    ∃ kept, (front ++ l).dropWhile p = front ++ kept ∧ kept <:+ l := by
  cases front with
  | nil => exact ⟨l.dropWhile p, rfl, List.dropWhile_suffix p⟩
  | cons a front =>
    exact ⟨l, List.dropWhile_cons_of_neg (by simp [h a List.mem_cons_self]), List.suffix_rfl⟩

theorem exists_dropEndWhile_append (h : ∀ a ∈ back, p a = false) (l : List α) :
    ∃ kept, dropEndWhile p (l ++ back) = kept ++ back ∧ kept <+: l := by
  have hreverse : ∀ a ∈ back.reverse, p a = false := fun a ha => h a (List.mem_reverse.mp ha)
  obtain ⟨kept, hkept, hsuffix⟩ := exists_dropWhile_append hreverse l.reverse
  refine ⟨kept.reverse, ?_, List.reverse_suffix.mp (by rwa [List.reverse_reverse])⟩
  rw [dropEndWhile, List.reverse_append, hkept, List.reverse_append, List.reverse_reverse]

theorem dropBothWhile_eq_self_iff : dropBothWhile p l = l ↔
    (∀ a ∈ l.head?, p a = false) ∧ ∀ a ∈ l.getLast?, p a = false := by
  constructor
  · intro h
    have hfront : l.dropWhile p = l := by
      have hkept := dropWhile_dropBothWhile p l
      rwa [h] at hkept
    obtain ⟨-, -, -, hlast⟩ := exists_dropEndWhile p l
    rw [dropBothWhile, hfront] at h
    refine ⟨fun a ha => ?_, by rwa [h] at hlast⟩
    have hnot := List.head?_dropWhile_not p l
    rwa [hfront, Option.mem_def.mp ha] at hnot
  · rintro ⟨hfirst, hlast⟩
    have hfront : l.dropWhile p = l := by
      cases l with
      | nil => rfl
      | cons a l => exact List.dropWhile_cons_of_neg (by simp [hfirst a rfl])
    rw [dropBothWhile_eq, hfront, List.rdropWhile_eq_self_iff]
    intro hne
    simp [hlast _ (List.getLast?_eq_some_getLast hne)]

theorem dropBothWhile_append_eq_self_iff (hl : l ≠ []) (hfront : ∀ a ∈ front, p a = false)
    (hback : ∀ a ∈ back, p a = false) :
    dropBothWhile p (front ++ l ++ back) = front ++ l ++ back ↔
      (front = [] → ∀ a ∈ l.head?, p a = false) ∧ (back = [] → ∀ a ∈ l.getLast?, p a = false) := by
  rw [dropBothWhile_eq_self_iff]
  refine and_congr ?_ ?_
  · cases front with
    | nil => simp [List.head?_append_of_ne_nil l hl]
    | cons a front => simpa using hfront a List.mem_cons_self
  · rcases List.eq_nil_or_concat back with rfl | ⟨back, a, rfl⟩
    · simp [List.getLast?_append_of_ne_nil front hl]
    · simpa using hback a (by simp)

/-- `core` is what stands between the runs at either end of a list whose elements satisfy `p`. -/
structure IsCore (p : α → Bool) (l core : List α) : Prop where
  around : ∃ front back, l = front ++ core ++ back ∧ (∀ a ∈ front, p a = true) ∧
    ∀ a ∈ back, p a = true
  first : ∀ a ∈ core.head?, p a = false
  last : ∀ a ∈ core.getLast?, p a = false

theorem exists_dropBothWhile (p : α → Bool) (l : List α) : ∃ front back,
    l = front ++ dropBothWhile p l ++ back ∧ (∀ a ∈ front, p a = true) ∧
      ∀ a ∈ back, p a = true := by
  obtain ⟨back, hback, hall, -⟩ := exists_dropEndWhile p (l.dropWhile p)
  refine ⟨l.takeWhile p, back, ?_, fun a => List.mem_takeWhile_imp, hall⟩
  rw [List.append_assoc, dropBothWhile, ← hback, List.takeWhile_append_dropWhile]

theorem length_dropBothWhile_le (p : α → Bool) (l : List α) :
    (dropBothWhile p l).length ≤ l.length := by
  obtain ⟨front, back, h, -⟩ := exists_dropBothWhile p l
  have hlength := congrArg List.length h
  simp only [List.length_append] at hlength
  omega

theorem dropBothWhile_eq_iff {core : List α} : dropBothWhile p l = core ↔ IsCore p l core := by
  constructor
  · rintro rfl
    have hends := dropBothWhile_eq_self_iff.mp (dropBothWhile_dropBothWhile p l)
    exact ⟨exists_dropBothWhile p l, hends.1, hends.2⟩
  · rintro ⟨⟨front, back, rfl, hfront, hback⟩, hfirst, hlast⟩
    rw [dropBothWhile_append hfront hback]
    exact dropBothWhile_eq_self_iff.mpr ⟨hfirst, hlast⟩

@[simp]
theorem trim_trim (s : String) : trim (trim s) = trim s := by
  rw [trim, trim, String.toList_ofList, dropBothWhile_dropBothWhile]

theorem trim_eq_empty_iff (s : String) : trim s = "" ↔ isBlankText s = true := by
  rw [trim, isBlankText, List.all_eq_true, ← dropBothWhile_eq_nil_iff, String.ofList_eq_empty_iff]

theorem trim_eq_self {s : String} (h : ∀ c ∈ s.toList, isBlank c = false) : trim s = s := by
  rw [trim, dropBothWhile_eq_self h, String.ofList_toList]

@[simp]
theorem isBlankText_trim (s : String) : isBlankText (trim s) = isBlankText s := by
  rw [Bool.eq_iff_iff, ← trim_eq_empty_iff, ← trim_eq_empty_iff, trim_trim]

end QuotaDesk.Text
