import Mathlib.Algebra.Group.Nat.Defs
import QuotaDesk.Proofs.Text.Blank
import QuotaDesk.Text.Decimal

/-! Decimal numerals read back. The digits of a number tell it, only zero begins with a zero, and
without a sign and blanks around them they are read as the number again. -/

namespace QuotaDesk.Text.Decimal

theorem isDigit_of_mem {n : Nat} {c : Char} (h : c ∈ Nat.toDigits 10 n) :
    48 ≤ c.toNat ∧ c.toNat ≤ 57 := by
  have hdigit := Nat.isDigit_of_mem_toDigits (by decide) (by decide) h
  simpa [Char.isDigit, UInt32.le_iff_toNat_le] using hdigit

theorem ofNat_inj {m n : Nat} : ofNat m = ofNat n ↔ m = n := by
  refine ⟨fun h => ?_, congrArg ofNat⟩
  have hdigits : Nat.toDigits 10 m = Nat.toDigits 10 n := by
    simpa [ofNat] using congrArg String.toList h
  simpa using congrArg (Nat.ofDigitChars 10 · 0) hdigits

theorem head_toDigits_ne {n : Nat} (h : 0 < n) : (Nat.toDigits 10 n).head? ≠ some '0' := by
  induction n using Nat.strongRecOn with
  | ind n ih =>
    rcases Nat.lt_or_ge n 10 with hlt | hle
    · rw [Nat.toDigits_of_lt_base hlt, List.head?_cons]
      simpa using Nat.ne_of_gt h
    · rw [Nat.toDigits_of_base_le (by decide) hle, List.head?_append,
        List.head?_eq_some_head Nat.toDigits_ne_nil, Option.some_or,
        ← List.head?_eq_some_head Nat.toDigits_ne_nil]
      exact ih (n / 10) (by omega) (by omega)

theorem toList_ofNat (n : Nat) : (ofNat n).toList = Nat.toDigits 10 n := by
  rw [ofNat, Nat.repr, String.toList_ofList]

theorem not_mem_ofNat {c : Char} (h : c.toNat < 48 ∨ 57 < c.toNat) (n : Nat) :
    c ∉ (ofNat n).toList := by
  intro hc
  rw [toList_ofNat] at hc
  have hdigit := isDigit_of_mem hc
  omega

theorem valueFrom_eq_ofDigitChars {cs : List Char} (h : ∀ c ∈ cs, 48 ≤ c.toNat ∧ c.toNat ≤ 57)
    (n : Nat) : valueFrom n cs = some (Nat.ofDigitChars 10 cs n) := by
  induction cs generalizing n with
  | nil => rfl
  | cons c cs ih =>
    rw [List.forall_mem_cons] at h
    have hdigit : digitValue? c = some (c.toNat - 48) := if_pos h.1
    rw [valueFrom, hdigit, Nat.ofDigitChars_cons, Nat.mul_comm 10 n]
    exact ih h.2 _

theorem nat?_ofNat (n : Nat) : nat? (ofNat n).toList = some n := by
  rw [toList_ofNat]
  cases hdigits : Nat.toDigits 10 n with
  | nil => exact absurd hdigits Nat.toDigits_ne_nil
  | cons c cs =>
    rw [nat?, ← hdigits, valueFrom_eq_ofDigitChars fun c hc => isDigit_of_mem hc,
      Nat.ofDigitChars_toDigits (by decide) (by decide)]
    exact nofun

theorem unsigned?_ofNat (n : Nat) : unsigned? (ofNat n).toList = some n := by
  have hread := nat?_ofNat n
  cases hdigits : (ofNat n).toList with
  | nil => rw [hdigits] at hread; cases hread
  | cons c cs =>
    rw [hdigits] at hread
    have hc : 48 ≤ c.toNat := by
      rw [toList_ofNat] at hdigits
      exact (isDigit_of_mem (hdigits ▸ List.mem_cons_self)).1
    unfold unsigned?
    split
    case h_1 heq =>
      obtain ⟨rfl, -⟩ := List.cons.inj heq
      exact absurd hc (by decide)
    case h_2 => exact hread

theorem trim_ofNat (n : Nat) : trim (ofNat n) = ofNat n := by
  refine trim_eq_self fun c hc => ?_
  rw [toList_ofNat] at hc
  have hdigit := isDigit_of_mem hc
  simp [isBlank]
  omega

theorem digit_of_valueFrom {m n : Nat} {cs : List Char} (h : valueFrom m cs = some n) :
    ∀ c ∈ cs, 48 ≤ c.toNat ∧ c.toNat ≤ 57 := by
  induction cs generalizing m with
  | nil => exact nofun
  | cons c cs ih =>
    rw [valueFrom] at h
    by_cases hdigit : '0' ≤ c ∧ c ≤ '9'
    · rw [digitValue?, if_pos hdigit] at h
      exact List.forall_mem_cons.mpr ⟨hdigit, ih h⟩
    · rw [digitValue?, if_neg hdigit] at h
      cases h

theorem nat?_eq_some_iff {cs : List Char} {n : Nat} : nat? cs = some n ↔
    cs ≠ [] ∧ (∀ c ∈ cs, 48 ≤ c.toNat ∧ c.toNat ≤ 57) ∧ Nat.ofDigitChars 10 cs 0 = n := by
  cases cs with
  | nil => simp [nat?]
  | cons c cs =>
    rw [nat?]
    · constructor
      · intro h
        have hdigits := digit_of_valueFrom h
        rw [valueFrom_eq_ofDigitChars hdigits] at h
        exact ⟨nofun, hdigits, Option.some.inj h⟩
      · rintro ⟨-, hdigits, rfl⟩
        exact valueFrom_eq_ofDigitChars hdigits 0
    · exact nofun

theorem ofDigitChars_cons (c : Char) (cs : List Char) :
    Nat.ofDigitChars 10 (c :: cs) 0 =
      10 ^ cs.length * (c.toNat - 48) + Nat.ofDigitChars 10 cs 0 := by
  rw [Nat.ofDigitChars_cons, Nat.ofDigitChars_eq_ofDigitChars_zero, Nat.mul_zero, Nat.zero_add]
  rfl

theorem ofDigitChars_lt {cs : List Char} (h : ∀ c ∈ cs, 48 ≤ c.toNat ∧ c.toNat ≤ 57) :
    Nat.ofDigitChars 10 cs 0 < 10 ^ cs.length := by
  induction cs with
  | nil => exact Nat.one_pos
  | cons c cs ih =>
    obtain ⟨hc, hcs⟩ := List.forall_mem_cons.mp h
    rw [ofDigitChars_cons, List.length_cons, Nat.pow_succ]
    calc 10 ^ cs.length * (c.toNat - 48) + Nat.ofDigitChars 10 cs 0
        < 10 ^ cs.length * (c.toNat - 48) + 10 ^ cs.length := Nat.add_lt_add_left (ih hcs) _
      _ = 10 ^ cs.length * (c.toNat - 48 + 1) := (Nat.mul_succ _ _).symm
      _ ≤ 10 ^ cs.length * 10 := Nat.mul_le_mul_left _ (by omega)

theorem eq_of_ofDigitChars_eq {cs ds : List Char} (hlength : cs.length = ds.length)
    (hcs : ∀ c ∈ cs, 48 ≤ c.toNat ∧ c.toNat ≤ 57) (hds : ∀ d ∈ ds, 48 ≤ d.toNat ∧ d.toNat ≤ 57)
    (h : Nat.ofDigitChars 10 cs 0 = Nat.ofDigitChars 10 ds 0) : cs = ds := by
  induction cs generalizing ds with
  | nil => exact (List.length_eq_zero_iff.mp hlength.symm).symm
  | cons c cs ih =>
    obtain ⟨d, ds, rfl⟩ := List.exists_cons_of_length_eq_add_one hlength.symm
    rw [List.forall_mem_cons] at hcs hds
    have hlength' : cs.length = ds.length := Nat.succ.inj hlength
    have hclt := ofDigitChars_lt hcs.2
    have hdlt := ofDigitChars_lt hds.2
    rw [ofDigitChars_cons, ofDigitChars_cons, ← hlength'] at h
    rw [← hlength'] at hdlt
    have hfirst : c.toNat - 48 = d.toNat - 48 := by
      have hdiv := congrArg (· / 10 ^ cs.length) h
      simpa only [Nat.mul_add_div (Nat.pow_pos (by decide : 0 < 10)), Nat.div_eq_of_lt hclt,
        Nat.div_eq_of_lt hdlt, Nat.add_zero] using hdiv
    have hc : c = d := Char.toNat_inj.mp (by omega)
    rw [hfirst, Nat.add_left_cancel_iff] at h
    rw [hc, ih hlength' hcs.2 hds.2 h]

theorem eq_toDigits_of_nat? {cs : List Char} {n : Nat} (h : nat? cs = some n)
    (hzero : cs.head? = some '0' → cs.length = 1) : cs = Nat.toDigits 10 n := by
  obtain ⟨hne, hdigits, rfl⟩ := nat?_eq_some_iff.mp h
  refine eq_of_ofDigitChars_eq ?_ hdigits (fun _ hc => isDigit_of_mem hc)
    Nat.ofDigitChars_ten_toDigits.symm
  refine Nat.le_antisymm ?_ ((Nat.length_toDigits_le_iff (by decide)
    (List.length_pos_iff.mpr hne)).mpr (ofDigitChars_lt hdigits))
  cases cs with
  | nil => exact absurd rfl hne
  | cons c rest =>
    rw [List.length_cons, Nat.succ_le_iff]
    rcases Nat.eq_zero_or_pos rest.length with hlength | hlength
    · rw [hlength]
      exact Nat.length_toDigits_pos
    · -- More than one digit and none of them a zero in front: the number has as many.
      have hfirst := hdigits c List.mem_cons_self
      have hc : c.toNat ≠ 48 := fun hc => by
        have hone := hzero (congrArg some (Char.toNat_inj.mp hc))
        rw [List.length_cons] at hone
        omega
      have hlarge : 10 ^ rest.length ≤ Nat.ofDigitChars 10 (c :: rest) 0 := by
        rw [ofDigitChars_cons]
        exact Nat.le_add_right_of_le (Nat.le_mul_of_pos_right _ (by omega))
      rw [← Nat.not_le, Nat.length_toDigits_le_iff (by decide) hlength]
      exact Nat.not_lt.mpr hlarge

theorem toList_ofNatWidth (width n : Nat) : (ofNatWidth width n).toList =
    List.replicate (width - (Nat.toDigits 10 n).length) '0' ++ Nat.toDigits 10 n :=
  String.toList_ofList

theorem isDigit_of_mem_ofNatWidth {width n : Nat} {c : Char}
    (h : c ∈ (ofNatWidth width n).toList) : 48 ≤ c.toNat ∧ c.toNat ≤ 57 := by
  rw [toList_ofNatWidth, List.mem_append] at h
  rcases h with h | h
  · rw [List.eq_of_mem_replicate h]
    decide
  · exact isDigit_of_mem h

theorem not_mem_ofNatWidth {c : Char} (h : c.toNat < 48 ∨ 57 < c.toNat) (width n : Nat) :
    c ∉ (ofNatWidth width n).toList := by
  intro hc
  have hdigit := isDigit_of_mem_ofNatWidth hc
  omega

theorem nat?_ofNatWidth (width n : Nat) : nat? (ofNatWidth width n).toList = some n := by
  refine nat?_eq_some_iff.mpr ⟨?_, fun _ hc => isDigit_of_mem_ofNatWidth hc, ?_⟩
  · rw [toList_ofNatWidth]
    exact List.append_ne_nil_of_right_ne_nil _ Nat.toDigits_ne_nil
  · rw [toList_ofNatWidth, Nat.ofDigitChars_append, Nat.ofDigitChars_replicate_zero, Nat.mul_zero,
      Nat.ofDigitChars_ten_toDigits]

theorem length_ofNatWidth (width n : Nat) :
    (ofNatWidth width n).toList.length = max width (Nat.toDigits 10 n).length := by
  rw [toList_ofNatWidth, List.length_append, List.length_replicate]
  omega

theorem length_ofNatWidth_of_lt {width n : Nat} (hpos : 0 < width) (h : n < 10 ^ width) :
    (ofNatWidth width n).toList.length = width := by
  rw [length_ofNatWidth, max_eq_left ((Nat.length_toDigits_le_iff (by decide) hpos).mpr h)]

theorem eq_ofNatWidth_of_nat? {cs : List Char} {n : Nat} (h : nat? cs = some n) :
    cs = (ofNatWidth cs.length n).toList := by
  obtain ⟨hne, hdigits, rfl⟩ := nat?_eq_some_iff.mp h
  refine eq_of_ofDigitChars_eq ?_ hdigits (fun _ hc => isDigit_of_mem_ofNatWidth hc)
    (nat?_eq_some_iff.mp (nat?_ofNatWidth _ _)).2.2.symm
  exact (length_ofNatWidth_of_lt (List.length_pos_iff.mpr hne) (ofDigitChars_lt hdigits)).symm

end QuotaDesk.Text.Decimal
