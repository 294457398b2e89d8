import QuotaDesk.Html.Escape

/-! Reading escaped texts back. Every ampersand of an escaped text begins one of
the four entities, so no other entity can be met there. -/

namespace QuotaDesk.Html

def unescapeChars : List Char → List Char
  | '&' :: 'a' :: 'm' :: 'p' :: ';' :: rest => '&' :: unescapeChars rest
  | '&' :: 'l' :: 't' :: ';' :: rest => '<' :: unescapeChars rest
  | '&' :: 'g' :: 't' :: ';' :: rest => '>' :: unescapeChars rest
  | '&' :: 'q' :: 'u' :: 'o' :: 't' :: ';' :: rest => '"' :: unescapeChars rest
  | c :: rest => c :: unescapeChars rest
  | [] => []

def unescape (s : String) : String :=
  String.ofList (unescapeChars s.toList)

@[simp]
theorem unescape_empty : unescape "" = "" := rfl

theorem unescapeChars_cons {c : Char} (h : c ≠ '&') (rest : List Char) :
    unescapeChars (c :: rest) = c :: unescapeChars rest := by
  rw [unescapeChars.eq_def]
  split <;> simp_all

theorem unescapeChars_escapeTextChar (c : Char) (rest : List Char) :
    unescapeChars (escapeTextChar c ++ rest) = c :: unescapeChars rest := by
  by_cases hamp : c = '&'
  · subst c; simp [escapeTextChar, unescapeChars]
  by_cases hlt : c = '<'
  · subst c; simp [escapeTextChar, unescapeChars]
  by_cases hgt : c = '>'
  · subst c; simp [escapeTextChar, unescapeChars]
  have hc : escapeTextChar c = [c] := by simp [escapeTextChar, hamp, hlt, hgt]
  rw [hc, List.singleton_append, unescapeChars_cons hamp]

theorem unescapeChars_escapeChar (c : Char) (rest : List Char) :
    unescapeChars (escapeChar c ++ rest) = c :: unescapeChars rest := by
  by_cases hquote : c = '"'
  · subst c; simp [escapeChar, unescapeChars]
  · rw [escapeChar, if_neg hquote, unescapeChars_escapeTextChar]

theorem unescapeChars_flatMap {encode : Char → List Char}
    (h : ∀ c rest, unescapeChars (encode c ++ rest) = c :: unescapeChars rest) (s : List Char) :
    unescapeChars (s.flatMap encode) = s := by
  induction s with
  | nil => rfl
  | cons c s ih => rw [List.flatMap_cons, h, ih]

@[simp]
theorem unescape_escapeText (s : String) : unescape (escapeText s) = s := by
  simp [unescape, escapeText, unescapeChars_flatMap unescapeChars_escapeTextChar]

@[simp]
theorem unescape_escape (s : String) : unescape (escape s) = s := by
  simp [unescape, escape, unescapeChars_flatMap unescapeChars_escapeChar]

def Tagless (s : String) : Prop :=
  ∀ c ∈ s.toList, c ≠ '<'

instance (s : String) : Decidable (Tagless s) :=
  List.decidableBAll (· ≠ '<') s.toList

theorem Tagless.append {s t : String} (hs : Tagless s) (ht : Tagless t) : Tagless (s ++ t) := by
  unfold Tagless
  rw [String.toList_append, List.forall_mem_append]
  exact ⟨hs, ht⟩

theorem tagless_ofList {s : List Char} (h : s.all (· ≠ '<') = true) : Tagless (String.ofList s) := by
  simpa [Tagless] using h

theorem mem_entity {c d : Char} (h : c = '&' ∨ c = '<' ∨ c = '>' ∨ c = '"') (hd : d ∈ escapeChar c) :
    d ≠ '<' ∧ d ≠ '"' := by
  have hall : (escapeChar c).all (fun d => d ≠ '<' ∧ d ≠ '"') = true := by
    rcases h with rfl | rfl | rfl | rfl <;> rfl
  simpa using List.all_eq_true.mp hall d hd

theorem mem_escapeChar {c d : Char} (h : d ∈ escapeChar c) : d ≠ '<' ∧ d ≠ '"' := by
  by_cases hspecial : c = '&' ∨ c = '<' ∨ c = '>' ∨ c = '"'
  · exact mem_entity hspecial h
  · obtain ⟨hamp, hlt, hgt, hquote⟩ := by simpa only [not_or] using hspecial
    obtain rfl : d = c := by simpa [escapeChar, escapeTextChar, hamp, hlt, hgt, hquote] using h
    exact ⟨hlt, hquote⟩

theorem mem_escapeTextChar {c d : Char} (h : d ∈ escapeTextChar c) : d ≠ '<' := by
  by_cases hquote : c = '"'
  · subst c
    obtain rfl : d = '"' := List.mem_singleton.mp h
    exact nofun
  · have hchar : d ∈ escapeChar c := by rwa [escapeChar, if_neg hquote]
    exact (mem_escapeChar hchar).1

theorem tagless_escapeText (s : String) : Tagless (escapeText s) := by
  intro d hd
  rw [escapeText, String.toList_ofList, List.mem_flatMap] at hd
  obtain ⟨c, _, hd⟩ := hd
  exact mem_escapeTextChar hd

theorem escape_ne (s : String) : ∀ d ∈ (escape s).toList, d ≠ '<' ∧ d ≠ '"' := by
  intro d hd
  rw [escape, String.toList_ofList, List.mem_flatMap] at hd
  obtain ⟨c, _, hd⟩ := hd
  exact mem_escapeChar hd

theorem tagless_escape (s : String) : Tagless (escape s) :=
  fun c hc => (escape_ne s c hc).1

end QuotaDesk.Html
