import QuotaDesk.Proofs.Lists
import QuotaDesk.Wire.Field

/-! Members of records and fields of structures. The names of a record are read one by one; each
field is the only member of its name, and a name that stands twice leaves the whole structure
without fields. -/

namespace QuotaDesk.Wire

open Json (Tree Quoted)

theorem namedMembers?_eq (members : List (Quoted × Tree)) :
    namedMembers? members =
      if members.all fun m => m.1.text?.isSome then
        some (members.filterMap fun m => m.1.text?.map fun s => (s, m.2))
      else none := by
  induction members with
  | nil => rfl
  | cons m rest ih =>
    obtain ⟨name, t⟩ := m
    rw [namedMembers?, ih]
    rcases hname : name.text? with _ | s
    · simp [hname]
    · by_cases hrest : (rest.all fun m => m.1.text?.isSome) = true <;> simp [hname, hrest]

theorem namedMembers?_cons {name : Quoted} {s : String} (hname : name.text? = some s) (t : Tree)
    (members : List (Quoted × Tree)) :
    namedMembers? ((name, t) :: members) = (namedMembers? members).map ((s, t) :: ·) := by
  rw [namedMembers?, hname]
  rcases namedMembers? members with _ | named <;> rfl

theorem namedMembers?_perm {members members' named : List _} (h : members.Perm members')
    (hnamed : namedMembers? members = some named) :
    ∃ named', namedMembers? members' = some named' ∧ named.Perm named' := by
  rw [namedMembers?_eq] at hnamed ⊢
  split at hnamed
  · next hall =>
    cases hnamed
    rw [h.all_eq] at hall
    exact ⟨_, if_pos hall, h.filterMap _⟩
  · cases hnamed

def occurrences (s : String) (members : List (Quoted × Tree)) : Nat :=
  members.countP fun m => m.1.text? == some s

theorem length_filter_of_namedMembers? {members : List (Quoted × Tree)}
    {named : List (String × Tree)} (h : namedMembers? members = some named) (s : String) :
    (named.filter fun m => m.1 == s).length = occurrences s members := by
  rw [namedMembers?_eq] at h
  split at h
  · cases h
    rw [← List.countP_eq_length_filter, List.countP_filterMap, occurrences]
    congr 1
    funext m
    rcases m.1.text? with _ | s' <;> rfl
  · cases h

variable {named named' : List (String × Tree)} {s : String}

theorem member?_perm (h : named.Perm named') (s : String) : member? s named = member? s named' := by
  have hfilter := h.filter fun m => m.1 == s
  unfold member?
  generalize named.filter _ = l at hfilter
  generalize named'.filter _ = l' at hfilter
  rcases l with _ | ⟨m, _ | ⟨m₂, l⟩⟩
  · rw [hfilter.nil_eq]
  · rw [List.singleton_perm.mp hfilter]
  · have hlength := hfilter.length_eq
    rcases l' with _ | ⟨m', _ | ⟨m₂', l'⟩⟩
    · simp at hlength
    · simp at hlength
    · rfl

theorem member?_cons_of_ne {s' : String} (h : s' ≠ s) (t : Tree) (named : List (String × Tree)) :
    member? s ((s', t) :: named) = member? s named := by
  have hne : ¬ ((s' == s) = true) := by simpa using h
  rw [member?, List.filter_cons, if_neg hne]
  rfl

theorem member?_cons_self (s : String) (t : Tree) (named : List (String × Tree)) :
    member? s ((s, t) :: named) =
      if (named.filter fun m => m.1 == s).isEmpty then some (some t) else none := by
  rw [member?, List.filter_cons, if_pos (beq_self_eq_true s)]
  generalize named.filter _ = l
  cases l <;> rfl

theorem member?_of_mem {t : Tree} (hnodup : (named.map Prod.fst).Nodup) (h : (s, t) ∈ named) :
    member? s named = some (some t) := by
  induction named with
  | nil => cases h
  | cons m rest ih =>
    obtain ⟨hfirst, hrest⟩ := List.nodup_cons.mp hnodup
    rcases List.mem_cons.mp h with rfl | hmem
    · have hnone : rest.filter (fun m => m.1 == s) = [] := by
        rw [List.filter_eq_nil_iff]
        exact fun m hm hname => hfirst (List.mem_map.mpr ⟨m, hm, beq_iff_eq.mp hname⟩)
      rw [member?_cons_self, hnone]
      rfl
    · have hne : m.1 ≠ s := by
        rintro rfl
        exact hfirst (List.mem_map.mpr ⟨_, hmem, rfl⟩)
      rw [member?_cons_of_ne hne, ih hrest hmem]

theorem mem_of_namedMembers? {members : List (Quoted × Tree)} {name : Quoted} {t : Tree}
    (h : namedMembers? members = some named) (hname : name.text? = some s)
    (hmem : (name, t) ∈ members) : (s, t) ∈ named := by
  rw [namedMembers?_eq] at h
  split at h
  · cases h
    refine List.mem_filterMap.mpr ⟨(name, t), hmem, ?_⟩
    simp only [hname, Option.map_some]
  · cases h

theorem eq_of_member? {a : Option Tree} {t : Tree} (h : member? s named = some a)
    (hmem : (s, t) ∈ named) : a = some t := by
  have hfilter : (s, t) ∈ named.filter fun m => m.1 == s :=
    List.mem_filter.mpr ⟨hmem, beq_self_eq_true s⟩
  unfold member? at h
  generalize named.filter _ = l at h hfilter
  rcases l with _ | ⟨m, _ | ⟨m', l⟩⟩
  · cases hfilter
  · cases List.mem_singleton.mp hfilter
    cases h
    rfl
  · cases h

theorem fields?_perm {members members' : List (Quoted × Tree)} (h : members.Perm members')
    (names : List String) (required : Nat) :
    fields? names required (.record members) = fields? names required (.record members') := by
  have hread {l l' : List (Quoted × Tree)} {named : List (String × Tree)} (h : l.Perm l')
      (hnamed : namedMembers? l = some named) :
      fields? names required (.record l) = fields? names required (.record l') := by
    obtain ⟨named', hnamed', hperm⟩ := namedMembers?_perm h hnamed
    have hmember : (fun s => member? s named) = fun s => member? s named' :=
      funext (member?_perm hperm)
    simp only [fields?, hnamed, hnamed', Option.bind_some, hmember]
  rcases hnamed : namedMembers? members with _ | named
  · rcases hnamed' : namedMembers? members' with _ | named'
    · simp only [fields?, hnamed, hnamed']
    · exact (hread h.symm hnamed').symm
  · exact hread h hnamed

theorem nullable?_of_ne_null {α : Type} {read : Tree → Option α} {t : Tree} (h : t ≠ .null) :
    nullable? read (some t) = (read t).map some := by
  cases t with
  | null => exact absurd rfl h
  | bool | number | text | list | record => rfl

end QuotaDesk.Wire
