import QuotaDesk.Proofs.Wire.Fields

/-! Edits of a document that do not change what it says. In a structure the order of the members
does not count, names that it does not know are skipped with whatever they hold, and null is the
same as nothing. What is given twice has no reading. -/

namespace QuotaDesk.Wire

open Json (Tree Quoted)

/-- One edit of a structure with the given names; `inner` are the edits inside a field. -/
inductive Edit (names : List String) (inner : String → Tree → Tree → Prop) : Tree → Tree → Prop
  | permuted {members members' : List (Quoted × Tree)} (h : members.Perm members') :
    Edit names inner (.record members) (.record members')
  | added {name : Quoted} {s : String} (hname : name.text? = some s) (hs : s ∉ names) (t : Tree)
    (members : List (Quoted × Tree)) :
    Edit names inner (.record members) (.record ((name, t) :: members))
  | nulled {name : Quoted} {s : String} (hname : name.text? = some s) (hs : s ∈ names)
    {members : List (Quoted × Tree)} (habsent : occurrences s members = 0) :
    Edit names inner (.record members) (.record ((name, .null) :: members))
  | within {name : Quoted} {s : String} (hname : name.text? = some s) {t t' : Tree}
    (h : inner s t t') (members : List (Quoted × Tree)) :
    Edit names inner (.record ((name, t) :: members)) (.record ((name, t') :: members))
  | listed {s : String} {before : List Tree} (hs : names[before.length]? = some s) {t t' : Tree}
    (h : inner s t t') (behind : List Tree) :
    Edit names inner (.list (before ++ t :: behind)) (.list (before ++ t' :: behind))

/-- A structure that has one of its names twice, or holds such a one in a field. -/
inductive Repeats (names : List String) (inner : String → Tree → Prop) : Tree → Prop
  | here {s : String} (hs : s ∈ names) {members : List (Quoted × Tree)}
    (h : 2 ≤ occurrences s members) : Repeats names inner (.record members)
  | within {name : Quoted} {s : String} (hname : name.text? = some s) (hs : s ∈ names) {t : Tree}
    (h : inner s t) {members : List (Quoted × Tree)} (hmem : (name, t) ∈ members) :
    Repeats names inner (.record members)
  | listed {s : String} {before : List Tree} (hs : names[before.length]? = some s) {t : Tree}
    (h : inner s t) (behind : List Tree) : Repeats names inner (.list (before ++ t :: behind))

inductive Agree (R : String → Option Tree → Option Tree → Prop) :
    List String → List (Option Tree) → List (Option Tree) → Prop
  | nil : Agree R [] [] []
  | cons {s : String} {a b : Option Tree} {names : List String} {as bs : List (Option Tree)}
    (h : R s a b) (hrest : Agree R names as bs) : Agree R (s :: names) (a :: as) (b :: bs)

structure Tolerant (inner : String → Tree → Tree → Prop)
    (R : String → Option Tree → Option Tree → Prop) : Prop where
  refl : ∀ s a, R s a a
  null : ∀ s, R s none (some .null)
  inner : ∀ {s t t'}, inner s t t' → R s (some t) (some t')

variable {s : String} {names : List String} {inner : String → Tree → Tree → Prop}
  {R : String → Option Tree → Option Tree → Prop}

theorem agree_mapM {f g : String → Option (Option Tree)}
    (h : ∀ s ∈ names, Option.Rel (R s) (f s) (g s)) :
    Option.Rel (Agree R names) (names.mapM f) (names.mapM g) := by
  induction names with
  | nil => exact .some .nil
  | cons s names ih =>
    rw [List.forall_mem_cons] at h
    obtain ⟨hfirst, hrest⟩ := h
    have ih := ih hrest
    simp only [List.mapM_cons]
    generalize f s = a at hfirst
    generalize g s = b at hfirst
    generalize names.mapM f = as at ih
    generalize names.mapM g = bs at ih
    rcases hfirst with ⟨hab⟩ | _
    · rcases ih with ⟨hrest⟩ | _
      · exact .some (.cons hab hrest)
      · exact .none
    · exact .none

theorem agree_refl (hR : Tolerant inner R) {as : List (Option Tree)}
    (h : as.length = names.length) : Agree R names as as := by
  induction names generalizing as with
  | nil =>
    cases List.length_eq_zero_iff.mp h
    exact .nil
  | cons s names ih =>
    obtain ⟨a, as, rfl⟩ := List.exists_cons_of_length_eq_add_one h
    exact .cons (hR.refl s a) (ih (by simpa using h))

theorem agree_replace (hR : Tolerant inner R) {before behind : List (Option Tree)}
    {a b : Option Tree} (hlength : (before ++ a :: behind).length = names.length)
    (hs : names[before.length]? = some s) (h : R s a b) :
    Agree R names (before ++ a :: behind) (before ++ b :: behind) := by
  induction before generalizing names with
  | nil =>
    obtain ⟨s', names, rfl⟩ := List.exists_cons_of_length_eq_add_one hlength.symm
    cases hs
    exact .cons h (agree_refl hR (by simpa using hlength))
  | cons a' before ih =>
    obtain ⟨s', names, rfl⟩ := List.exists_cons_of_length_eq_add_one hlength.symm
    exact .cons (hR.refl s' a') (ih (by simpa using hlength) (by simpa using hs))

theorem fields?_record_rel {members members' : List (Quoted × Tree)} (required : Nat)
    (h : Option.Rel (fun named named' => ∀ s ∈ names,
        Option.Rel (R s) (member? s named) (member? s named'))
      (namedMembers? members) (namedMembers? members')) :
    Option.Rel (Agree R names) (fields? names required (.record members))
      (fields? names required (.record members')) := by
  simp only [fields?]
  generalize namedMembers? members = o at h
  generalize namedMembers? members' = o' at h
  rcases h with ⟨h⟩ | _
  · exact agree_mapM h
  · exact .none

theorem member?_rel_refl (hR : Tolerant inner R) (s : String) (named : List (String × Tree)) :
    Option.Rel (R s) (member? s named) (member? s named) := by
  rcases member? s named with _ | a
  · exact .none
  · exact .some (hR.refl s a)

theorem fields?_rel_refl (hR : Tolerant inner R) (members : List (Quoted × Tree))
    (required : Nat) :
    Option.Rel (Agree R names) (fields? names required (.record members))
      (fields? names required (.record members)) := by
  refine fields?_record_rel required ?_
  rcases namedMembers? members with _ | named
  · exact .none
  · exact .some fun s _ => member?_rel_refl hR s named

theorem namedMembers?_front {name : Quoted} (hname : name.text? = some s) (front : List Tree)
    (members : List (Quoted × Tree)) :
    namedMembers? (front.map (name, ·) ++ members) =
      (namedMembers? members).map (front.map (s, ·) ++ ·) := by
  induction front with
  | nil => simp
  | cons t front ih =>
    rw [List.map_cons, List.cons_append, namedMembers?_cons hname, ih, Option.map_map]
    rfl

theorem member?_front_of_ne {s' : String} (h : s' ≠ s) (front : List Tree)
    (named : List (String × Tree)) :
    member? s (front.map (s', ·) ++ named) = member? s named := by
  induction front with
  | nil => rfl
  | cons t front ih => rw [List.map_cons, List.cons_append, member?_cons_of_ne h, ih]

theorem fields?_front_rel (hR : Tolerant inner R) {name : Quoted} (hname : name.text? = some s)
    (front front' : List Tree) {members : List (Quoted × Tree)}
    (h : ∀ named, namedMembers? members = some named → s ∈ names →
      Option.Rel (R s) (member? s (front.map (s, ·) ++ named))
        (member? s (front'.map (s, ·) ++ named))) (required : Nat) :
    Option.Rel (Agree R names) (fields? names required (.record (front.map (name, ·) ++ members)))
      (fields? names required (.record (front'.map (name, ·) ++ members))) := by
  refine fields?_record_rel required ?_
  rw [namedMembers?_front hname, namedMembers?_front hname]
  rcases hnamed : namedMembers? members with _ | named
  · exact .none
  refine .some fun s' hs' => ?_
  by_cases heq : s = s'
  · exact heq ▸ h named hnamed (heq ▸ hs')
  · rw [member?_front_of_ne heq, member?_front_of_ne heq]
    exact member?_rel_refl hR s' named

theorem fields?_listed_rel (hR : Tolerant inner R) {before : List Tree}
    (hs : names[before.length]? = some s) {t t' : Tree} (h : inner s t t') (behind : List Tree)
    (required : Nat) :
    Option.Rel (Agree R names) (fields? names required (.list (before ++ t :: behind)))
      (fields? names required (.list (before ++ t' :: behind))) := by
  simp only [fields?, List.length_append, List.length_cons]
  split
  · next hlength =>
    refine .some ?_
    simp only [List.map_append, List.map_cons, List.append_assoc, List.cons_append]
    refine agree_replace hR ?_ (by simpa using hs) (hR.inner h)
    simp only [List.length_append, List.length_cons, List.length_map, List.length_replicate]
    omega
  · exact .none

theorem fields?_edit (hR : Tolerant inner R) {t t' : Tree} (h : Edit names inner t t')
    (required : Nat) :
    Option.Rel (Agree R names) (fields? names required t) (fields? names required t') := by
  cases h with
  | @permuted members members' h =>
    rw [fields?_perm h]
    exact fields?_rel_refl hR members' required
  | @added name s hname hs t members =>
    exact fields?_front_rel hR hname [] [t] (fun _ _ hmem => absurd hmem hs) required
  | @nulled name s hname hs members habsent =>
    refine fields?_front_rel hR hname [] [.null] (fun named hnamed _ => ?_) required
    have hnone : named.filter (fun m => m.1 == s) = [] := by
      rw [← List.length_eq_zero_iff, length_filter_of_namedMembers? hnamed, habsent]
    simp only [List.map_cons, List.map_nil, List.cons_append, List.nil_append, member?_cons_self]
    rw [member?, hnone]
    exact .some (hR.null s)
  | @within name s hname t t' h members =>
    refine fields?_front_rel hR hname [t] [t'] (fun named _ _ => ?_) required
    simp only [List.map_cons, List.map_nil, List.cons_append, List.nil_append, member?_cons_self]
    split
    · exact .some (hR.inner h)
    · exact .none
  | @listed s before hs t t' h behind => exact fields?_listed_rel hR hs h behind required

variable {repeated : String → Tree → Prop}

theorem fields?_repeats {t : Tree} (h : Repeats names repeated t) {required : Nat}
    {fields : List (Option Tree)} (hfields : fields? names required t = some fields) :
    ∃ s u, (s, some u) ∈ names.zip fields ∧ repeated s u := by
  cases h with
  | @here s hs members h =>
    obtain ⟨named, hnamed, hfields⟩ := Option.bind_eq_some_iff.mp hfields
    have hnone : member? s named = none := by
      have hlength := length_filter_of_namedMembers? hnamed s
      unfold member?
      generalize named.filter _ = l at hlength
      rcases l with _ | ⟨m, _ | ⟨m', l⟩⟩
      · simp at hlength; omega
      · simp at hlength; omega
      · rfl
    rw [mapM_eq_none hs hnone] at hfields
    cases hfields
  | @within name s hname hs t h members hmem =>
    obtain ⟨named, hnamed, hfields⟩ := Option.bind_eq_some_iff.mp hfields
    rcases hmember : member? s named with _ | a
    · rw [mapM_eq_none hs hmember] at hfields
      cases hfields
    · cases eq_of_member? hmember (mem_of_namedMembers? hnamed hname hmem)
      exact ⟨s, t, mem_zip_mapM hfields hs hmember, h⟩
  | @listed s before hs t h behind =>
    simp only [fields?] at hfields
    split at hfields
    · cases hfields
      refine ⟨s, t, List.mem_iff_getElem?.mpr ⟨before.length, ?_⟩, h⟩
      rw [List.getElem?_zip_eq_some]
      exact ⟨hs, by simp⟩
    · cases hfields

end QuotaDesk.Wire
