import QuotaDesk.Json.Value

/-! Documents with a meaning. What has one is legible, and a legible document has one unless a
record in it stands for an embedded document. -/

namespace QuotaDesk.Json

namespace Tree

theorem nestingItems_le {items : List Tree} {n : Nat} (h : ∀ t ∈ items, t.nesting ≤ n) :
    nestingItems items ≤ n := by
  induction items with
  | nil => exact Nat.zero_le n
  | cons t rest ih =>
    rw [List.forall_mem_cons] at h
    exact Nat.max_le.mpr ⟨h.1, ih h.2⟩

theorem nestingMembers_le {members : List (Quoted × Tree)} {n : Nat}
    (h : ∀ m ∈ members, m.2.nesting ≤ n) : nestingMembers members ≤ n := by
  induction members with
  | nil => exact Nat.zero_le n
  | cons m rest ih =>
    rw [List.forall_mem_cons] at h
    exact Nat.max_le.mpr ⟨h.1, ih h.2⟩

end Tree

namespace Value

mutual

/-- Whether no record in a document stands for an embedded one. -/
def isUnmarked : Tree → Bool
  | .list items => areUnmarkedItems items
  | .record members => !isMarked members && areUnmarkedMembers members
  | _ => true

def areUnmarkedItems : List Tree → Bool
  | [] => true
  | t :: rest => isUnmarked t && areUnmarkedItems rest

def areUnmarkedMembers : List (Quoted × Tree) → Bool
  | [] => true
  | (_, t) :: rest => isUnmarked t && areUnmarkedMembers rest

end

theorem isLegible_of_embeddedText? {members : List (Quoted × Tree)} {s : String}
    (hmarked : isMarked members = true) (h : embeddedText? members = some s) :
    Tree.areLegibleMembers members = true := by
  unfold embeddedText? at h
  split at h
  · next name q =>
    have hname : name.text? = some embeddingMark := beq_iff_eq.mp hmarked
    simp [Tree.areLegibleMembers, Tree.isLegible, hname, h]
  · cases h

variable (read : String → Option Value)

mutual

theorem isLegible_of_ofTreeWith : ∀ {t : Tree} {v : Value}, ofTreeWith read t = some v →
    t.isLegible = true
  | .null, _, _ => rfl
  | .bool _, _, _ => rfl
  | .number n, _, h => by
    obtain ⟨k, hk, -⟩ := Option.map_eq_some_iff.mp h
    rw [Tree.isLegible, hk]
    rfl
  | .text q, _, h => by
    obtain ⟨s, hs, -⟩ := Option.map_eq_some_iff.mp h
    rw [Tree.isLegible, hs]
    rfl
  | .list items, _, h => by
    obtain ⟨vs, hvs, -⟩ := Option.map_eq_some_iff.mp h
    exact areLegibleItems_of_ofItemsWith hvs
  | .record members, _, h => by
    rw [ofTreeWith] at h
    split at h
    · next hmarked =>
      obtain ⟨s, hs, -⟩ := Option.bind_eq_some_iff.mp h
      exact isLegible_of_embeddedText? hmarked hs
    · obtain ⟨ms, hms, -⟩ := Option.map_eq_some_iff.mp h
      exact areLegibleMembers_of_ofMembersWith hms

theorem areLegibleItems_of_ofItemsWith : ∀ {items : List Tree} {vs : List Value},
    ofItemsWith read items = some vs → Tree.areLegibleItems items = true
  | [], _, _ => rfl
  | t :: rest, _, h => by
    rw [ofItemsWith] at h
    split at h
    · next ht hrest =>
      rw [Tree.areLegibleItems, isLegible_of_ofTreeWith ht, areLegibleItems_of_ofItemsWith hrest]
      rfl
    · cases h

theorem areLegibleMembers_of_ofMembersWith : ∀ {members : List (Quoted × Tree)}
    {ms : List (String × Value)}, ofMembersWith read members = some ms →
    Tree.areLegibleMembers members = true
  | [], _, _ => rfl
  | (name, t) :: rest, _, h => by
    rw [ofMembersWith] at h
    split at h
    · next hname ht hrest =>
      rw [Tree.areLegibleMembers, hname, isLegible_of_ofTreeWith ht,
        areLegibleMembers_of_ofMembersWith hrest]
      rfl
    · cases h

end

mutual

theorem exists_ofTreeWith : ∀ {t : Tree}, isUnmarked t = true → t.isLegible = true →
    ∃ v, ofTreeWith read t = some v
  | .null, _, _ => ⟨_, rfl⟩
  | .bool _, _, _ => ⟨_, rfl⟩
  | .number n, _, h => by
    obtain ⟨k, hk⟩ := Option.isSome_iff_exists.mp h
    exact ⟨_, by rw [ofTreeWith, hk, Option.map_some]⟩
  | .text q, _, h => by
    obtain ⟨s, hs⟩ := Option.isSome_iff_exists.mp h
    exact ⟨_, by rw [ofTreeWith, hs, Option.map_some]⟩
  | .list items, hunmarked, h => by
    obtain ⟨vs, hvs⟩ := exists_ofItemsWith hunmarked h
    exact ⟨_, by rw [ofTreeWith, hvs, Option.map_some]⟩
  | .record members, hunmarked, h => by
    obtain ⟨hmark, hmembers⟩ := Bool.and_eq_true_iff.mp hunmarked
    obtain ⟨ms, hms⟩ := exists_ofMembersWith hmembers h
    rw [Bool.not_eq_true'] at hmark
    exact ⟨_, by rw [ofTreeWith, hmark, if_neg Bool.false_ne_true, hms, Option.map_some]⟩

theorem exists_ofItemsWith : ∀ {items : List Tree}, areUnmarkedItems items = true →
    Tree.areLegibleItems items = true → ∃ vs, ofItemsWith read items = some vs
  | [], _, _ => ⟨_, rfl⟩
  | t :: rest, hunmarked, h => by
    obtain ⟨hfirst, hrest⟩ := Bool.and_eq_true_iff.mp hunmarked
    obtain ⟨htext, hlegible⟩ := Bool.and_eq_true_iff.mp h
    obtain ⟨v, hv⟩ := exists_ofTreeWith hfirst htext
    obtain ⟨vs, hvs⟩ := exists_ofItemsWith hrest hlegible
    exact ⟨v :: vs, by rw [ofItemsWith, hv, hvs]⟩

theorem exists_ofMembersWith : ∀ {members : List (Quoted × Tree)},
    areUnmarkedMembers members = true → Tree.areLegibleMembers members = true →
    ∃ ms, ofMembersWith read members = some ms
  | [], _, _ => ⟨_, rfl⟩
  | (name, t) :: rest, hunmarked, h => by
    obtain ⟨hfirst, hrest⟩ := Bool.and_eq_true_iff.mp hunmarked
    obtain ⟨hboth, hlegible⟩ := Bool.and_eq_true_iff.mp h
    obtain ⟨hname, htext⟩ := Bool.and_eq_true_iff.mp hboth
    obtain ⟨s, hs⟩ := Option.isSome_iff_exists.mp hname
    obtain ⟨v, hv⟩ := exists_ofTreeWith hfirst htext
    obtain ⟨ms, hms⟩ := exists_ofMembersWith hrest hlegible
    exact ⟨(s, v) :: ms, by rw [ofMembersWith, hs, hv, hms]⟩

end

end Value
end QuotaDesk.Json
