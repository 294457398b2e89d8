import Mathlib.Data.List.Induction
import QuotaDesk.Backup.Options

/-! Tables of options. A table that is made of a list has each name once, with the value that
stands last. -/

namespace QuotaDesk.Backup.Options

variable {o : Options} {name other value : String}

theorem get?_cons (e : String × String) (rest : Options) :
    get? name (e :: rest) = if name = e.1 then some e.2 else rest.get? name := by
  obtain ⟨other, value⟩ := e
  rw [get?, List.lookup_cons]
  by_cases h : name = other
  · rw [if_pos h, beq_iff_eq.mpr h]
  · rw [if_neg h, beq_eq_false_iff_ne.mpr h]
    rfl

theorem get?_insert :
    (o.insert name value).get? other = if other = name then some value else o.get? other := by
  induction o with
  | nil => exact get?_cons (name, value) []
  | cons e rest ih =>
    unfold insert
    split
    · next hname =>
      subst hname
      rw [get?_cons, get?_cons]
      split <;> rfl
    · next hname =>
      rw [get?_cons, get?_cons, ih]
      by_cases h : other = e.1
      · subst h
        rw [if_pos rfl, if_pos rfl, if_neg hname]
      · rw [if_neg h, if_neg h]

theorem mem_names_insert :
    other ∈ (o.insert name value).map Prod.fst ↔ other = name ∨ other ∈ o.map Prod.fst := by
  induction o with
  | nil => simp [insert]
  | cons e rest ih =>
    unfold insert
    split
    · next hname =>
      subst hname
      simp
    · rw [List.map_cons, List.mem_cons, ih, List.map_cons, List.mem_cons, or_left_comm]

theorem nodup_insert (h : (o.map Prod.fst).Nodup) : ((o.insert name value).map Prod.fst).Nodup := by
  induction o with
  | nil => simp [insert]
  | cons e rest ih =>
    obtain ⟨hfirst, hrest⟩ := List.nodup_cons.mp h
    unfold insert
    split
    · next hname =>
      subst hname
      exact h
    · next hname =>
      refine List.nodup_cons.mpr ⟨fun hmem => ?_, ih hrest⟩
      exact (mem_names_insert.mp hmem).elim hname hfirst

theorem ofList_concat (entries : List (String × String)) (e : String × String) :
    ofList (entries ++ [e]) = (ofList entries).insert e.1 e.2 := by
  rw [ofList, List.foldl_append]
  rfl

theorem get?_ofList (entries : List (String × String)) (name : String) :
    (ofList entries).get? name = entries.reverse.lookup name := by
  induction entries using List.reverseRecOn with
  | nil => rfl
  | append_singleton entries e ih =>
    rw [ofList_concat, get?_insert, ih, List.reverse_append, List.reverse_singleton,
      List.singleton_append]
    exact (get?_cons e entries.reverse).symm

theorem nodup_ofList (entries : List (String × String)) :
    ((ofList entries).map Prod.fst).Nodup := by
  induction entries using List.reverseRecOn with
  | nil => exact List.nodup_nil
  | append_singleton entries e ih =>
    rw [ofList_concat]
    exact nodup_insert ih

end QuotaDesk.Backup.Options
