import Mathlib.Data.Set.Card
import Mathlib.Order.Interval.Finset.Nat
import QuotaDesk.Demo
import QuotaDesk.Proofs.Ledger.Paging

/-! Pages as the parts of a ledger. Every entry stands on one page, the pages that can be asked for
are the first and those with an entry, and the pages of the built-in service one behind the other
are its ledger. -/

namespace QuotaDesk.Ledger

namespace Paging

def pageOf (p : Paging) (index : Nat) : Nat :=
  index / p.perPage + 1

def filled (p : Paging) : Set Nat :=
  {page | ∃ i < p.total.toNat, p.pageOf i = page}

theorem succ_le_pageCount_iff (p : Paging) (n : Nat) :
    n + 1 ≤ p.pageCount ↔ n * p.perPage < p.total.toNat := by
  have hpos := p.perPage_pos
  rw [pageCount, Nat.le_div_iff_mul_le hpos, Nat.succ_mul]
  omega

theorem pageCount_le_total (p : Paging) : p.pageCount ≤ p.total.toNat := by
  rcases hcount : p.pageCount with _ | n
  · exact Nat.zero_le _
  · have hlast := (p.succ_le_pageCount_iff n).mp hcount.ge
    exact Nat.lt_of_le_of_lt (Nat.le_mul_of_pos_right n p.perPage_pos) hlast

theorem filled_eq (p : Paging) : p.filled = Set.Icc 1 p.pageCount := by
  have hpos := p.perPage_pos
  ext page
  rw [filled, Set.mem_ofPred_eq, Set.mem_Icc]
  constructor
  · rintro ⟨i, hi, rfl⟩
    refine ⟨Nat.le_add_left _ _, (p.succ_le_pageCount_iff _).mpr ?_⟩
    exact Nat.lt_of_le_of_lt (Nat.div_mul_le_self i p.perPage) hi
  · rintro ⟨hone, hcount⟩
    obtain ⟨n, rfl⟩ := Nat.exists_eq_add_of_le' hone
    refine ⟨n * p.perPage, (p.succ_le_pageCount_iff n).mp hcount, ?_⟩
    rw [pageOf, Nat.mul_div_cancel n hpos]

theorem accepts_iff_filled (p : Paging) (page : UInt32) :
    p.accepts page = true ↔ page = 1 ∨ page.toNat ∈ p.filled := by
  have hone : (1 : UInt32).toNat = 1 := rfl
  rw [accepts_iff_le, filled_eq, Set.mem_Icc, ← UInt32.toNat_inj, UInt32.le_iff_toNat_le, hone]
  omega

theorem ncard_filled (p : Paging) : p.filled.ncard = p.pageCount := by
  rw [filled_eq, ← Finset.coe_Icc, Set.ncard_coe_finset, Nat.card_Icc, Nat.add_sub_cancel]

end Paging

def part {α : Type} (n : Nat) (l : List α) (page : Nat) : List α :=
  (l.drop (page * n)).take n

theorem flatMap_part {α : Type} (n : Nat) (l : List α) (count : Nat) :
    (List.range count).flatMap (part n l) = l.take (count * n) := by
  induction count with
  | zero => simp
  | succ count ih =>
    rw [List.range_succ, List.flatMap_append, ih, List.flatMap_singleton, part, Nat.succ_mul,
      List.take_add]

theorem mem_drop_range_iff {length k i : Nat} :
    i ∈ (List.range length).drop k ↔ k ≤ i ∧ i < length := by
  rw [List.range_eq_range', List.drop_range', List.mem_range'_1]
  omega

theorem part_range {n : Nat} (hpos : 0 < n) (length page : Nat) :
    part n (List.range length) page = (List.range length).filter fun i => i / n = page := by
  have hpage (i : Nat) : i / n = page ↔ page * n ≤ i ∧ i < page * n + n := by
    rw [Nat.div_eq_iff hpos]
    omega
  have hbefore : ((List.range length).take (page * n)).filter (fun i => i / n = page) = [] := by
    refine List.filter_eq_nil_iff.mpr fun i hi => ?_
    rw [List.take_range, List.mem_range] at hi
    rw [decide_eq_true_iff, hpage]
    omega
  have hon : (part n (List.range length) page).filter (fun i => i / n = page) =
      part n (List.range length) page := by
    refine List.filter_eq_self.mpr fun i hi => ?_
    rw [part, List.take_drop, List.take_range, mem_drop_range_iff] at hi
    rw [decide_eq_true_iff, hpage]
    omega
  have hbehind : (((List.range length).drop (page * n)).drop n).filter (fun i => i / n = page) =
      [] := by
    refine List.filter_eq_nil_iff.mpr fun i hi => ?_
    rw [List.drop_drop, mem_drop_range_iff] at hi
    rw [decide_eq_true_iff, hpage]
    omega
  conv_rhs =>
    rw [← List.take_append_drop (page * n) (List.range length),
      ← List.take_append_drop n ((List.range length).drop (page * n)), List.filter_append,
      List.filter_append, hbefore, hbehind, List.nil_append, List.append_nil]
  exact hon.symm

end QuotaDesk.Ledger

namespace QuotaDesk.Demo

open Ledger (Paging part)

def paging (k : String) (size : UInt32) : Paging :=
  { size, total := UInt64.ofNat (ledgerLength k) }

theorem toNat_wordOffset (number size : UInt32) :
    (wordOffset number size).toNat = (number.toNat - 1) * size.toNat := by
  have hnumber := number.toNat_lt
  have hbefore : (if number = 0 then 0 else number - 1).toNat = number.toNat - 1 := by
    split
    · next h => rw [h]; rfl
    · next h =>
      have hone : (1 : UInt32) ≤ number := by
        rw [UInt32.le_iff_toNat_le]
        exact Nat.one_le_iff_ne_zero.mpr fun hzero => h (UInt32.toNat_inj.mp hzero)
      exact UInt32.toNat_sub_of_le _ _ hone
  have hfits : (number.toNat - 1) * size.toNat < 2 ^ 64 :=
    calc (number.toNat - 1) * size.toNat
        < 2 ^ 32 * 2 ^ 32 := Nat.mul_lt_mul'' (by omega) size.toNat_lt
      _ = 2 ^ 64 := rfl
  rw [wordOffset, UInt64.toNat_mul, UInt32.toNat_toUInt64, UInt32.toNat_toUInt64, hbefore,
    Nat.mod_eq_of_lt hfits]

theorem answer_history {k : String} (hk : summary? k ≠ none) (now : String) (number size : UInt32)
    (s : Store) : answer now (.history k number size) s = (.ok (.ok (page k number size)), s) := by
  rw [answer]
  rcases hsummary : summary? k with _ | summary
  · exact absurd hsummary hk
  · rfl

variable {k : String} {number size : UInt32}

theorem ledgerLength_le (k : String) : ledgerLength k ≤ 25 := by
  unfold ledgerLength
  split <;> decide

theorem total_paging (k : String) (size : UInt32) :
    (paging k size).total.toNat = ledgerLength k := by
  have hle := ledgerLength_le k
  exact UInt64.toNat_ofNat_of_lt' (Nat.lt_of_le_of_lt hle (by decide))

theorem perPage_paging (hsize : 1 ≤ size) : (paging k size).perPage = size.toNat :=
  Nat.max_eq_left (UInt32.le_iff_toNat_le.mp hsize)

theorem ledgerLength_le_offset (hsize : 1 ≤ size) {n : Nat} (h : (paging k size).pageCount ≤ n) :
    ledgerLength k ≤ n * size.toNat := by
  have hlast := ((paging k size).succ_le_pageCount_iff n).not.mp (Nat.not_le.mpr (Nat.lt_succ_of_le h))
  rwa [total_paging, perPage_paging hsize, Nat.not_lt] at hlast

theorem length_ledger (k : String) : (ledger k).length = ledgerLength k := by
  rw [ledger, List.length_map, List.length_range]

theorem records_eq_part (k : String) (number size : UInt32) :
    (page k number size).records = part size.toNat (ledger k) (number.toNat - 1) := rfl

theorem part_ledger (hsize : 1 ≤ size) (n : Nat) : part size.toNat (ledger k) n =
    ((List.range (ledgerLength k)).filter fun i => i / size.toNat = n).map record := by
  rw [ledger, ← Ledger.part_range (UInt32.le_iff_toNat_le.mp hsize), part, part, List.map_take,
    List.map_drop]

theorem records_eq (hsize : 1 ≤ size) (hnumber : 1 ≤ number) : (page k number size).records =
    ((List.range (ledgerLength k)).filter fun i => i / size.toNat + 1 = number.toNat).map
      record := by
  have hone : 1 ≤ number.toNat := UInt32.le_iff_toNat_le.mp hnumber
  have hindex : (fun i => decide (i / size.toNat = number.toNat - 1)) =
      fun i => decide (i / size.toNat + 1 = number.toNat) := by
    funext i
    rw [decide_eq_decide]
    omega
  rw [records_eq_part, part_ledger hsize, hindex]

theorem flatMap_records (hsize : 1 ≤ size) :
    (List.range (paging k size).pageCount).flatMap
      (fun i => (page k (UInt32.ofNat (i + 1)) size).records) = ledger k := by
  have hcover : (ledger k).length ≤ (paging k size).pageCount * size.toNat := by
    rw [length_ledger]
    exact ledgerLength_le_offset hsize (Nat.le_refl _)
  have hcount : (paging k size).pageCount ≤ 25 := by
    have hle := (paging k size).pageCount_le_total
    rw [total_paging] at hle
    exact Nat.le_trans hle (ledgerLength_le k)
  have hpage : ∀ i ∈ List.range (paging k size).pageCount,
      (page k (UInt32.ofNat (i + 1)) size).records = part size.toNat (ledger k) i := by
    intro i hi
    have hlt : i + 1 < 2 ^ 32 := by
      have hi := List.mem_range.mp hi
      omega
    rw [records_eq_part, UInt32.toNat_ofNat_of_lt' hlt, Nat.add_sub_cancel]
  rw [List.flatMap_congr hpage, Ledger.flatMap_part, List.take_of_length_le hcover]

theorem records_behind (hsize : 1 ≤ size) (h : (paging k size).pageCount < number.toNat) :
    (page k number size).records = [] := by
  have hoffset : (ledger k).length ≤ (number.toNat - 1) * size.toNat := by
    rw [length_ledger]
    exact ledgerLength_le_offset hsize (Nat.le_sub_one_of_lt h)
  rw [records_eq_part, part, List.drop_of_length_le hoffset, List.take_nil]

theorem nodup_ledger (k : String) : (ledger k).Nodup := by
  refine List.Nodup.of_map Ledger.Record.time ?_
  unfold ledger ledgerLength
  split <;> decide

/-- The pages that can be asked for are the first and those with an entry, of which there are as
many as are counted. The built-in service answers each page from the first on with the entries
that stand on it, page zero like page one, so that its pages make up the whole ledger. -/
theorem pages_partition :
    (∀ (p : Paging) (number : UInt32), p.accepts number = true ↔
      number = 1 ∨ ∃ i < p.total.toNat, i / max p.size.toNat 1 + 1 = number.toNat) ∧
    (∀ p : Paging,
      {number | ∃ i < p.total.toNat, i / max p.size.toNat 1 + 1 = number}.ncard = p.pageCount) ∧
    (∀ (k : String) (size : UInt32), summary? k ≠ none → 1 ≤ size →
      (∀ now number s,
        answer now (.history k number size) s = (.ok (.ok (page k number size)), s) ∧
        (page k number size).total.toNat = ledgerLength k ∧
        (1 ≤ number → (page k number size).records =
          ((List.range (ledgerLength k)).filter fun i => i / size.toNat + 1 = number.toNat).map
            record) ∧
        ((paging k size).pageCount < number.toNat → (page k number size).records = [])) ∧
      page k 0 size = page k 1 size ∧
      (List.range (paging k size).pageCount).flatMap
        (fun i => (page k (UInt32.ofNat (i + 1)) size).records) = ledger k ∧
      (ledger k).Nodup) ∧
    (∀ number size : UInt32,
      (wordOffset number size).toNat = (number.toNat - 1) * size.toNat) := by
  refine ⟨Paging.accepts_iff_filled, Paging.ncard_filled, fun k size hk hsize => ?_,
    toNat_wordOffset⟩
  exact ⟨fun now number s => ⟨answer_history hk now number size s, total_paging k size,
    records_eq hsize, records_behind hsize⟩, rfl, flatMap_records hsize, nodup_ledger k⟩

theorem pages_partition_tens :
    summary? key ≠ none ∧ (1 : UInt32) ≤ 10 ∧ (paging key 10).pageCount = 3 ∧
      (page key 3 10).records = [20, 21, 22, 23, 24].map record ∧
      (page key 4 10).records = [] ∧
      (List.range 3).flatMap (fun i => (page key (UInt32.ofNat (i + 1)) 10).records) =
        ledger key := by
  have hkey : summary? key ≠ none := nofun
  have hten : (1 : UInt32) ≤ 10 := by decide
  have hcount : (paging key 10).pageCount = 3 := rfl
  obtain ⟨hpages, -, hledger, -⟩ := pages_partition.2.2.1 key 10 hkey hten
  obtain ⟨-, -, hlast, -⟩ := hpages "" 3 {}
  obtain ⟨-, -, -, hbehind⟩ := hpages "" 4 {}
  refine ⟨hkey, hten, hcount, (hlast (by decide)).trans ?_, hbehind (by decide), hledger⟩
  rfl

/-- No entry stands on page zero, but the first ten are answered. -/
theorem page_zero_not_empty :
    (answer "" (.history key 0 10) {}).1 =
        .ok (.ok ⟨(List.range 10).map record, 25⟩) ∧
      ((List.range 25).filter fun i => i / 10 + 1 = (0 : UInt32).toNat).map record = [] ∧
      (List.range 10).map record ≠ [] := by
  refine ⟨?_, ?_, nofun⟩
  · rfl
  · rfl

end QuotaDesk.Demo
