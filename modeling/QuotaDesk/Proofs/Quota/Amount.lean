import Mathlib.Algebra.Order.Field.Basic
import Mathlib.Algebra.Order.Ring.Rat
import Mathlib.Tactic.FieldSimp
import Mathlib.Tactic.Linarith
import Mathlib.Tactic.NormNum
import Mathlib.Tactic.Ring
import QuotaDesk.Proofs.Text.Decimal
import QuotaDesk.Proofs.Text.Split
import QuotaDesk.Quota.Amount

/-! Amounts as they are shown. An amount is rounded once, to the nearest hundredth, and the text is
the only numeral with two places of that many hundredths. -/

namespace QuotaDesk.Quota

open Text

/-- No integer is nearer to `x` than `k`, and one that is as near is not farther from zero. -/
def Nearest (x : ℚ) (k : ℤ) : Prop :=
  ∀ j : ℤ, |x - k| < |x - j| ∨ |x - k| = |x - j| ∧ |j| ≤ |k|

def signedCents (micros : Int) : Int :=
  if micros < 0 then -(cents micros : Int) else cents micros

theorem natAbs_signedCents (micros : Int) : (signedCents micros).natAbs = cents micros := by
  unfold signedCents
  split <;> simp

theorem signedCents_neg_iff (micros : Int) :
    signedCents micros < 0 ↔ micros < 0 ∧ 0 < cents micros := by
  unfold signedCents
  split <;> omega

theorem signedCents_neg (micros : Int) : signedCents (-micros) = -signedCents micros := by
  unfold signedCents cents microsPerCent
  rw [Int.natAbs_neg]
  split <;> split <;> omega

theorem signedCents_mono {m n : Int} (h : m ≤ n) : signedCents m ≤ signedCents n := by
  unfold signedCents cents microsPerCent
  split <;> split <;> omega

theorem nearest_multiple (micros j : Int) :
    (micros - 5000 * signedCents micros).natAbs < (micros - 5000 * j).natAbs ∨
      (micros - 5000 * signedCents micros).natAbs = (micros - 5000 * j).natAbs ∧
        j.natAbs ≤ (signedCents micros).natAbs := by
  unfold signedCents cents microsPerCent
  split <;> omega

theorem abs_sub_eq (micros j : Int) :
    |(micros : ℚ) / 5000 - j| = ((micros - 5000 * j).natAbs : ℚ) / 5000 := by
  have hquotient : (micros : ℚ) / 5000 - j = ((micros - 5000 * j : Int) : ℚ) / 5000 := by
    push_cast
    field_simp
  rw [hquotient, abs_div, ← Int.cast_abs, Int.abs_eq_natAbs, Int.cast_natCast]
  norm_num

theorem natAbs_sub_le (micros : Int) :
    (micros - 5000 * signedCents micros).natAbs ≤ 2500 := by
  unfold signedCents cents microsPerCent
  split <;> omega

theorem abs_error_le (micros : Int) :
    |(signedCents micros : ℚ) / 100 - (micros : ℚ) / 500000| ≤ 5 / 1000 := by
  have hscale : (signedCents micros : ℚ) / 100 - (micros : ℚ) / 500000 =
      -(((micros : ℚ) / 5000 - signedCents micros) / 100) := by
    ring
  have hle : ((micros - 5000 * signedCents micros).natAbs : ℚ) ≤ 2500 := by
    exact_mod_cast natAbs_sub_le micros
  rw [hscale, abs_neg, abs_div, abs_sub_eq, abs_of_pos (by norm_num : (0 : ℚ) < 100)]
  linarith

theorem nearest_signedCents (micros : Int) :
    Nearest ((micros : ℚ) / 5000) (signedCents micros) := by
  intro j
  rw [abs_sub_eq, abs_sub_eq, Int.abs_eq_natAbs, Int.abs_eq_natAbs, Int.ofNat_le]
  rcases nearest_multiple micros j with h | ⟨h, hj⟩
  · exact .inl (div_lt_div_of_pos_right (Nat.cast_lt.mpr h) (by norm_num))
  · exact .inr ⟨by rw [h], hj⟩

def whole? (digits : List Char) : Option Nat :=
  if digits.head? = some '0' ∧ digits.length ≠ 1 then none else Decimal.nat? digits

def magnitude? (numeral : List Char) : Option Nat :=
  match cut '.' numeral with
  | (digits, some places) =>
    if places.length = 2 then
      (whole? digits).bind fun units => (Decimal.nat? places).map fun n => 100 * units + n
    else none
  | (_, none) => none

/-- The hundredths of a numeral that may have a minus; zero has none. -/
def hundredths? : List Char → Option Int
  | '-' :: numeral => (magnitude? numeral).bind fun n => if n = 0 then none else some (-n)
  | numeral => (magnitude? numeral).map Int.ofNat

def magnitudeText (n : Nat) : List Char :=
  (Decimal.ofNat (n / 100)).toList ++ '.' :: (Decimal.ofNatWidth 2 (n % 100)).toList

def centsText (k : Int) : List Char :=
  if k < 0 then '-' :: magnitudeText k.natAbs else magnitudeText k.natAbs

theorem whole?_ofNat (n : Nat) : whole? (Decimal.ofNat n).toList = some n := by
  refine (if_neg fun h => ?_).trans (Decimal.nat?_ofNat n)
  rw [Decimal.toList_ofNat] at h
  rcases Nat.eq_zero_or_pos n with rfl | hpos
  · exact h.2 rfl
  · exact Decimal.head_toDigits_ne hpos h.1

theorem eq_ofNat_of_whole? {digits : List Char} {n : Nat} (h : whole? digits = some n) :
    digits = (Decimal.ofNat n).toList := by
  unfold whole? at h
  split at h
  · cases h
  · next hzero =>
    rw [Decimal.toList_ofNat]
    exact Decimal.eq_toDigits_of_nat? h fun hhead => by
      by_contra hlength
      exact hzero ⟨hhead, hlength⟩

theorem magnitude?_eq_some_iff {numeral : List Char} {n : Nat} :
    magnitude? numeral = some n ↔ numeral = magnitudeText n := by
  constructor
  · intro h
    unfold magnitude? at h
    split at h
    · next digits places hcut =>
      split at h
      · next hlength =>
        obtain ⟨units, hunits, h⟩ := Option.bind_eq_some_iff.mp h
        obtain ⟨m, hm, rfl⟩ := Option.map_eq_some_iff.mp h
        have hplaces := Decimal.eq_ofNatWidth_of_nat? hm
        have hlt : m < 100 := by
          obtain ⟨-, hdigits, rfl⟩ := Decimal.nat?_eq_some_iff.mp hm
          have hlt := Decimal.ofDigitChars_lt hdigits
          rwa [hlength] at hlt
        rw [hlength] at hplaces
        have hdiv : (100 * units + m) / 100 = units := by omega
        have hmod : (100 * units + m) % 100 = m := by omega
        rw [magnitudeText, hdiv, hmod, ← hplaces, ← eq_ofNat_of_whole? hunits]
        exact eq_append_of_cut hcut
      · cases h
    · cases h
  · rintro rfl
    have hpoint : '.' ∉ (Decimal.ofNat (n / 100)).toList :=
      Decimal.not_mem_ofNat (by decide) _
    have hlength : (Decimal.ofNatWidth 2 (n % 100)).toList.length = 2 :=
      Decimal.length_ofNatWidth_of_lt (by decide) (Nat.mod_lt n (by decide))
    rw [magnitude?, magnitudeText, cut_append_cons hpoint]
    simp only [hlength, if_true, whole?_ofNat, Decimal.nat?_ofNatWidth, Option.bind_some,
      Option.map_some, Option.some.injEq]
    exact Nat.div_add_mod n 100

theorem head_magnitudeText (n : Nat) : (magnitudeText n).head? ≠ some '-' := by
  intro h
  rw [magnitudeText, Decimal.toList_ofNat, List.head?_append,
    List.head?_eq_some_head Nat.toDigits_ne_nil, Option.some_or] at h
  have hdigit := Decimal.isDigit_of_mem (List.head_mem (Nat.toDigits_ne_nil (n := n / 100) (b := 10)))
  rw [Option.some.inj h] at hdigit
  exact absurd hdigit (by decide)

theorem hundredths?_eq_some_iff {numeral : List Char} {k : Int} :
    hundredths? numeral = some k ↔ numeral = centsText k := by
  unfold hundredths? centsText
  split
  · next rest =>
    rw [Option.bind_eq_some_iff]
    constructor
    · rintro ⟨n, hn, h⟩
      split at h
      · cases h
      · cases h
        rw [if_pos (by omega), Int.natAbs_neg, Int.natAbs_natCast,
          magnitude?_eq_some_iff.mp hn]
    · intro h
      split at h
      · next hneg =>
        refine ⟨k.natAbs, magnitude?_eq_some_iff.mpr (List.cons.inj h).2, ?_⟩
        rw [if_neg (by omega)]
        congr 1
        omega
      · exact absurd (congrArg List.head? h).symm (head_magnitudeText _)
  · next hnot =>
    rw [Option.map_eq_some_iff]
    constructor
    · rintro ⟨n, hn, rfl⟩
      rw [if_neg (by simp), Int.natAbs_ofNat', magnitude?_eq_some_iff.mp hn]
    · intro h
      split at h
      · exact absurd h (hnot _)
      · refine ⟨k.natAbs, magnitude?_eq_some_iff.mpr h, ?_⟩
        show (k.natAbs : Int) = k
        omega

theorem amountText_eq (micros : Int64) :
    amountText (some micros) = String.ofList (centsText (signedCents micros.toInt)) := by
  have hsign := signedCents_neg_iff micros.toInt
  rw [← String.toList_inj]
  unfold amountText centsText magnitudeText
  simp only [Option.getD_some, hsign, natAbs_signedCents, String.toList_append,
    String.toList_ofList]
  split <;> simp

theorem hundredths?_amountText (micros : Int64) :
    hundredths? (amountText (some micros)).toList = some (signedCents micros.toInt) := by
  rw [hundredths?_eq_some_iff, amountText_eq, String.toList_ofList]

def opposite (text : String) : String :=
  match text.toList with
  | '-' :: numeral => String.ofList numeral
  | _ => if text = "0.00" then text else "-" ++ text

theorem opposite_minus (numeral : List Char) :
    opposite (String.ofList ('-' :: numeral)) = String.ofList numeral := by
  simp only [opposite, String.toList_ofList]

theorem opposite_of_head_ne {numeral : List Char} (h : numeral.head? ≠ some '-')
    (hne : numeral ≠ magnitudeText 0) :
    opposite (String.ofList numeral) = String.ofList ('-' :: numeral) := by
  have hzero : String.ofList numeral ≠ "0.00" := fun heq => hne (String.ofList_injective heq)
  unfold opposite
  rw [String.toList_ofList]
  split
  · exact absurd rfl h
  · rw [if_neg hzero, String.ofList_cons]
    rfl

theorem opposite_centsText (k : Int) :
    opposite (String.ofList (centsText k)) = String.ofList (centsText (-k)) := by
  rcases Int.lt_trichotomy k 0 with hneg | rfl | hpos
  · rw [centsText, if_pos hneg, opposite_minus, centsText, if_neg (by omega), Int.natAbs_neg]
  · decide
  · have hne : magnitudeText k.natAbs ≠ magnitudeText 0 := fun h => by
      have hread := magnitude?_eq_some_iff.mpr h
      rw [magnitude?_eq_some_iff.mpr rfl, Option.some.injEq] at hread
      omega
    rw [centsText, if_neg (by omega), opposite_of_head_ne (head_magnitudeText _) hne, centsText,
      if_pos (by omega), Int.natAbs_neg]

theorem toInt_neg_of_lt {micros : Int64} (h : Int64.minValue < micros) :
    (-micros).toInt = -micros.toInt := by
  have hlow : -2 ^ 63 < micros.toInt := Int64.lt_iff_toInt_lt.mp h
  have hhigh := micros.toInt_lt
  rw [Int64.toInt_neg]
  exact Int.bmod_eq_of_le (by omega) (by omega)

theorem toNat_wideMagnitude (micros : Int64) :
    (wideMagnitude micros).toNat = micros.toInt.natAbs := by
  have hvalue : (micros.toBitVec.signExtend 128).toInt = micros.toInt :=
    BitVec.toInt_signExtend_of_le (by decide)
  have hlt := (micros.toBitVec.signExtend 128).isLt
  rw [BitVec.toInt_eq_msb_cond] at hvalue
  rw [wideMagnitude, BitVec.toNat_abs, ← hvalue]
  split <;> omega

theorem wide_exact (micros : Int64) :
    (wideMagnitude micros).toNat = micros.toInt.natAbs ∧
      (wideMagnitude micros).uaddOverflow 2500#128 = false ∧
      (wideCents micros).toNat = cents micros.toInt := by
  have hmagnitude := toNat_wideMagnitude micros
  have hlow := micros.le_toInt
  have hhigh := micros.toInt_lt
  have hfits : (wideMagnitude micros).uaddOverflow 2500#128 = false := by
    rw [BitVec.uaddOverflow, hmagnitude, decide_eq_false_iff_not, BitVec.toNat_ofNat]
    omega
  refine ⟨hmagnitude, hfits, ?_⟩
  rw [wideCents, BitVec.toNat_udiv, BitVec.toNat_add_of_not_uaddOverflow (Bool.eq_false_iff.mp hfits),
    hmagnitude]
  rfl

/-- An amount is shown as the numeral with two places of the nearest hundredth, a half rounded
away from zero. It is off by half a hundredth at most, keeps the order of amounts, and turns its
sign round with theirs. -/
theorem amount_rounded (v : Int64) :
    ∃ k : Int, Nearest ((v.toInt : ℚ) / 5000) k ∧
      (∀ numeral, hundredths? numeral = some k ↔ numeral = (amountText (some v)).toList) ∧
      amountText (some v) ≠ "-0.00" ∧
      |(k : ℚ) / 100 - (v.toInt : ℚ) / 500000| ≤ 5 / 1000 ∧
      (∀ w, v ≤ w → ∃ l, hundredths? (amountText (some w)).toList = some l ∧ k ≤ l) ∧
      (Int64.minValue < v → amountText (some (-v)) = opposite (amountText (some v))) ∧
      (wideMagnitude v).toNat = v.toInt.natAbs ∧
      (wideMagnitude v).uaddOverflow 2500#128 = false ∧
      (wideCents v).toNat = cents v.toInt := by
  refine ⟨signedCents v.toInt, nearest_signedCents v.toInt, fun numeral => ?_, fun h => ?_,
    abs_error_le v.toInt,
    fun w hw => ⟨_, hundredths?_amountText w, signedCents_mono (Int64.le_iff_toInt_le.mp hw)⟩,
    fun hmin => ?_, wide_exact v⟩
  · rw [hundredths?_eq_some_iff, amountText_eq, String.toList_ofList]
  · have hread := hundredths?_amountText v
    rw [h] at hread
    cases hread
  · rw [amountText_eq, amountText_eq, toInt_neg_of_lt hmin, signedCents_neg, opposite_centsText]

theorem amount_rounded_tie :
    Int64.minValue < -2500 ∧ (-2500 : Int64) ≤ 2499 ∧
      amountText (some (-2500)) = "-0.01" ∧ amountText (some 2499) = "0.00" ∧
      Nearest (-2500 / 5000) (-1) ∧ amountText (some 2500) = opposite "-0.01" ∧
      ∃ l, hundredths? "0.00".toList = some l ∧ -1 ≤ l := by
  have htie : amountText (some (-2500)) = "-0.01" := by decide
  have hzero : amountText (some 2499) = "0.00" := by decide
  obtain ⟨k, hnearest, hread, -, -, hmono, hopposite, -⟩ := amount_rounded (-2500)
  obtain rfl : -1 = k := by
    have hk := (hread _).mpr rfl
    rw [htie] at hk
    exact Option.some.inj hk
  have hvalue : (-2500 : Int64).toInt = -2500 := by decide
  rw [hvalue, Int.cast_neg, Int.cast_ofNat] at hnearest
  refine ⟨by decide, by decide, htie, hzero, hnearest, ?_, ?_⟩
  · rw [← htie]
    exact hopposite (by decide)
  · rw [← hzero]
    exact hmono 2499 (by decide)

end QuotaDesk.Quota
