import Mathlib.Algebra.Order.Floor.Div
import Mathlib.GroupTheory.GroupAction.Ring
import QuotaDesk.Ledger.Basic

/-! The pages of a ledger. -/

namespace QuotaDesk.Ledger.Paging

theorem perPage_pos (p : Paging) : 0 < p.perPage :=
  Nat.lt_of_lt_of_le Nat.one_pos (Nat.le_max_right _ _)

theorem pageCount_eq (p : Paging) : p.pageCount = p.total.toNat ⌈/⌉ p.perPage := by
  rw [Nat.ceilDiv_eq_add_pred_div, pageCount, Nat.add_sub_assoc p.perPage_pos]

theorem accepts_iff (p : Paging) (page : UInt32) :
    p.accepts page = true ↔ page = 1 ∨ 1 < page ∧ page.toNat ≤ p.total.toNat ⌈/⌉ p.perPage := by
  simp [accepts, pageCount_eq]

theorem perPage_pageSize (page : UInt32) (total : UInt64) :
    ({ current := page, total } : Paging).perPage = 10 := rfl

theorem pageCount_pageSize (page : UInt32) (total : UInt64) :
    ({ current := page, total } : Paging).pageCount = total.toNat ⌈/⌉ 10 := by
  rw [pageCount_eq, perPage_pageSize]

theorem accepts_pageSize (current : UInt32) (total : UInt64) (page : UInt32) :
    ({ current, total } : Paging).accepts page = true ↔
      page = 1 ∨ 1 < page ∧ page.toNat ≤ total.toNat ⌈/⌉ 10 := by
  rw [accepts_iff, perPage_pageSize]

theorem accepts_one (p : Paging) : p.accepts 1 = true := rfl

theorem accepts_iff_le (p : Paging) (page : UInt32) :
    p.accepts page = true ↔ 1 ≤ page ∧ page.toNat ≤ max p.pageCount 1 := by
  have hone : (1 : UInt32).toNat = 1 := rfl
  simp only [accepts, Bool.or_eq_true, beq_iff_eq, Bool.and_eq_true, decide_eq_true_eq,
    ← UInt32.toNat_inj, UInt32.lt_iff_toNat_lt, UInt32.le_iff_toNat_le, hone]
  omega

/-- The pages beside the one on show, under the names of their directions. -/
def neighbours (p : Paging) : List (String × Nat) :=
  (if p.hasPrevious then [("Previous", p.current.toNat - 1)] else []) ++
    if p.hasNext then [("Next", p.current.toNat + 1)] else []

/-- There is a next page, but its number takes more than 32 bits. -/
def AtLimit (p : Paging) : Prop :=
  p.hasNext = true ∧ p.current.toNat + 1 = UInt32.size

variable {p : Paging} {x : String × Nat}

theorem mem_neighbours_iff : x ∈ p.neighbours ↔
    1 < p.current ∧ x = ("Previous", p.current.toNat - 1) ∨
      p.hasNext = true ∧ x = ("Next", p.current.toNat + 1) := by
  simp [neighbours, hasPrevious]

theorem exists_accepted_of_mem (h : p.accepts p.current = true) (hx : x ∈ p.neighbours)
    (hlt : x.2 < UInt32.size) : ∃ page : UInt32, page.toNat = x.2 ∧ p.accepts page = true := by
  have hpage : (UInt32.ofNat x.2).toNat = x.2 := UInt32.toNat_ofNat_of_lt' hlt
  have hone : (1 : UInt32).toNat = 1 := rfl
  refine ⟨UInt32.ofNat x.2, hpage, ?_⟩
  rw [accepts_iff_le, UInt32.le_iff_toNat_le, hone] at h ⊢
  rw [hpage]
  rcases mem_neighbours_iff.mp hx with ⟨hlow, rfl⟩ | ⟨hnext, rfl⟩
  · rw [UInt32.lt_iff_toNat_lt, hone] at hlow
    show 1 ≤ p.current.toNat - 1 ∧ p.current.toNat - 1 ≤ max p.pageCount 1
    omega
  · have hcount : p.current.toNat < p.pageCount := of_decide_eq_true hnext
    show 1 ≤ p.current.toNat + 1 ∧ p.current.toNat + 1 ≤ max p.pageCount 1
    omega

theorem not_atLimit_iff : ¬p.AtLimit ↔ ∀ x ∈ p.neighbours, x.2 < UInt32.size := by
  have hcurrent : p.current.toNat < UInt32.size := p.current.toNat_lt_size
  constructor
  · intro h x hx
    rcases mem_neighbours_iff.mp hx with ⟨-, rfl⟩ | ⟨hnext, rfl⟩
    · exact Nat.lt_of_le_of_lt (Nat.sub_le _ _) hcurrent
    · exact Nat.lt_of_le_of_ne hcurrent fun heq => h ⟨hnext, heq⟩
  · rintro h ⟨hnext, heq⟩
    exact Nat.lt_irrefl _ (heq ▸ h _ (mem_neighbours_iff.mpr (.inr ⟨hnext, rfl⟩)))

end QuotaDesk.Ledger.Paging
