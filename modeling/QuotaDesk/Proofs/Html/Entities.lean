import Mathlib.Data.List.Infix
import QuotaDesk.Proofs.Html.Parts

/-! The entities of an escaped text. Four replacements over the whole text, one after the other,
come to the same as one pass over its characters: only the first of them meets ampersands of the
text itself, and no later one touches an entity. An escaped text is read back entity by entity. -/

namespace QuotaDesk.Html

def entities : List String :=
  ["&amp;", "&lt;", "&gt;", "&quot;"]

theorem replaceAll_append (c : Char) (entity s t : String) :
    replaceAll c entity (s ++ t) = replaceAll c entity s ++ replaceAll c entity t := by
  simp [replaceAll]

theorem escapeInTurn_append (s t : String) :
    escapeInTurn (s ++ t) = escapeInTurn s ++ escapeInTurn t := by
  simp only [escapeInTurn, replaceAll_append]

theorem replaceAll_of_not_mem {c : Char} (entity : String) {s : String} (h : c ∉ s.toList) :
    replaceAll c entity s = s := by
  rw [replaceAll, flatMap_singletons, String.ofList_toList]
  intro d hd
  refine if_neg ?_
  rintro rfl
  exact h hd

theorem escapeChar_of_ne {c : Char} (h : ¬(c = '&' ∨ c = '<' ∨ c = '>' ∨ c = '"')) :
    escapeChar c = [c] := by
  obtain ⟨hamp, hlt, hgt, hquote⟩ := by simpa only [not_or] using h
  simp [escapeChar, escapeTextChar, hamp, hlt, hgt, hquote]

theorem escapeInTurn_char (c : Char) :
    escapeInTurn (String.ofList [c]) = String.ofList (escapeChar c) := by
  by_cases hspecial : c = '&' ∨ c = '<' ∨ c = '>' ∨ c = '"'
  · rcases hspecial with rfl | rfl | rfl | rfl <;> rfl
  · have hkept : ∀ d entity, c ≠ d → replaceAll d entity (String.ofList [c]) = String.ofList [c] :=
      fun d entity h => replaceAll_of_not_mem entity (by simpa using h.symm)
    rw [escapeChar_of_ne hspecial]
    obtain ⟨hamp, hlt, hgt, hquote⟩ := by simpa only [not_or] using hspecial
    rw [escapeInTurn, hkept _ _ hamp, hkept _ _ hlt, hkept _ _ hgt, hkept _ _ hquote]

theorem escapeInTurn_eq (s : String) : escapeInTurn s = escape s := by
  suffices h : ∀ l : List Char,
      escapeInTurn (String.ofList l) = String.ofList (l.flatMap escapeChar) by
    rw [escape, ← h, String.ofList_toList]
  intro l
  induction l with
  | nil => rfl
  | cons c l ih =>
    rw [← List.singleton_append, String.ofList_append, escapeInTurn_append, escapeInTurn_char, ih,
      List.flatMap_append, String.ofList_append, List.flatMap_singleton]

theorem escapeChar_cases (c : Char) :
    (∃ entity ∈ entities, escapeChar c = entity.toList) ∨
      escapeChar c = [c] ∧ ¬(c = '&' ∨ c = '<' ∨ c = '>' ∨ c = '"') := by
  by_cases hspecial : c = '&' ∨ c = '<' ∨ c = '>' ∨ c = '"'
  · left
    rcases hspecial with rfl | rfl | rfl | rfl <;> simp [entities, escapeChar, escapeTextChar]
  · exact .inr ⟨escapeChar_of_ne hspecial, hspecial⟩

theorem not_mem_escape {d : Char} (h : d = '<' ∨ d = '>' ∨ d = '"') (s : String) :
    d ∉ (escape s).toList := by
  rw [escape, String.toList_ofList, List.mem_flatMap]
  rintro ⟨c, -, hd⟩
  obtain ⟨entity, he, hc⟩ | ⟨hc, hplain⟩ := escapeChar_cases c
  · rw [hc] at hd
    have hentity : (entities.all fun entity =>
        entity.toList.all fun d => ¬(d = '<' ∨ d = '>' ∨ d = '"')) = true := rfl
    have hplain := List.all_eq_true.mp (List.all_eq_true.mp hentity entity he) d hd
    exact of_decide_eq_true hplain h
  · rw [hc, List.mem_singleton] at hd
    exact hplain (.inr (hd ▸ h))

theorem eq_entity_of_suffix {c : Char} {t : List Char} (h : '&' :: t <:+ escapeChar c) :
    ∃ entity ∈ entities, '&' :: t = entity.toList := by
  obtain ⟨entity, he, hc⟩ | ⟨hc, hplain⟩ := escapeChar_cases c
  · have hone : ∀ entity ∈ entities, '&' ∉ entity.toList.tail := by decide
    refine ⟨entity, he, ?_⟩
    rw [hc] at h
    cases hl : entity.toList with
    | nil => simp [hl] at h
    | cons d rest =>
      rw [hl, List.suffix_cons_iff] at h
      refine h.resolve_right fun hrest => hone entity he ?_
      rw [hl]
      exact hrest.subset List.mem_cons_self
  · rw [hc] at h
    exact absurd (.inl (List.mem_singleton.mp (h.subset List.mem_cons_self)).symm) hplain

theorem exists_entity {s t : List Char} (h : '&' :: t <:+ s.flatMap escapeChar) :
    ∃ entity ∈ entities, entity.toList <+: '&' :: t := by
  induction s with
  | nil => simp at h
  | cons c s ih =>
    rw [List.flatMap_cons] at h
    obtain hbehind | hover := List.suffix_or_suffix_of_suffix h (List.suffix_append _ _)
    · exact ih hbehind
    -- The ampersand stands in what `c` is escaped to, or right behind it.
    obtain ⟨front, hfront⟩ := hover
    cases front with
    | nil => exact ih ⟨[], hfront.symm⟩
    | cons d front =>
      obtain rfl : d = '&' := (List.cons.inj hfront).1
      rw [← hfront, List.suffix_append_self_iff] at h
      obtain ⟨entity, he, heq⟩ := eq_entity_of_suffix h
      rw [← hfront, heq]
      exact ⟨entity, he, List.prefix_append _ _⟩

/-- Escaping goes character by character, leaves no special character but the ampersands of its
entities, and is undone by one pass over them. -/
theorem escape_exact (a b : String) :
    escapeInTurn a = escape a ∧ (escape a).toList = a.toList.flatMap escapeChar ∧
      escape (a ++ b) = escape a ++ escape b ∧
      ('<' ∉ (escape a).toList ∧ '>' ∉ (escape a).toList ∧ '"' ∉ (escape a).toList) ∧
      (∀ t, '&' :: t <:+ (escape a).toList → ∃ entity ∈ entities, entity.toList <+: '&' :: t) ∧
      unescape (escape a) = a ∧ Function.Injective escape := by
  have hchars : (escape a).toList = a.toList.flatMap escapeChar := String.toList_ofList
  refine ⟨escapeInTurn_eq a, hchars, escape_append a b,
    ⟨not_mem_escape (.inl rfl) a, not_mem_escape (.inr (.inl rfl)) a,
      not_mem_escape (.inr (.inr rfl)) a⟩, fun t h => ?_, unescape_escape a,
    Function.LeftInverse.injective unescape_escape⟩
  rw [hchars] at h
  exact exists_entity h

theorem escape_exact_entity_inside :
    escape "&lt;&<t;" = "&amp;lt;&amp;&lt;t;" ∧ escapeInTurn "&lt;&<t;" = "&amp;lt;&amp;&lt;t;" ∧
      '&' :: "lt;t;".toList <:+ (escape "&lt;&<t;").toList ∧
      (∃ entity ∈ entities, entity.toList <+: '&' :: "lt;t;".toList) ∧
      unescape (escape "&lt;&<t;") = "&lt;&<t;" := by
  obtain ⟨hturn, -, -, -, hentity, hback, -⟩ := escape_exact "&lt;&<t;" "&lt;&<t;"
  have hescape : escape "&lt;&<t;" = "&amp;lt;&amp;&lt;t;" := rfl
  have hsuffix : '&' :: "lt;t;".toList <:+ (escape "&lt;&<t;").toList := by
    rw [hescape]
    decide
  exact ⟨hescape, hturn.trans hescape, hsuffix, hentity _ hsuffix, hback⟩

end QuotaDesk.Html
