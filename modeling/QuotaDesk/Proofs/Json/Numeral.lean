import Mathlib.Algebra.Group.Int.Defs
import QuotaDesk.Json.Number
import QuotaDesk.Proofs.Text.Decimal
import QuotaDesk.Proofs.Text.Utf8

/-! Integers as JSON numerals. The decimal text of an integer is a numeral, and an integer that
fits 64 bits is read back from it. -/

namespace QuotaDesk.Json.Numeral

open Text

def digitValue (c : Char) : Nat :=
  c.toNat - 48

def ofInt (n : Int) : Numeral where
  negative := n < 0
  whole := (Nat.toDigits 10 n.natAbs).map digitValue
  fraction := none
  exponent := none

theorem spanDigits_map {cs : List Char} (h : ∀ c ∈ cs, 48 ≤ c.toNat ∧ c.toNat ≤ 57) :
    spanDigits (cs.map fun c => UInt8.ofNat c.toNat) = (cs.map digitValue, []) := by
  induction cs with
  | nil => rfl
  | cons c cs ih =>
    rw [List.forall_mem_cons] at h
    have hc : (UInt8.ofNat c.toNat).toNat = c.toNat := Utf8.toNat_ofNat_of_lt (by omega)
    have hdigit : digit? (UInt8.ofNat c.toNat) = some (digitValue c) := by
      have hbounds : (0x30 : UInt8) ≤ UInt8.ofNat c.toNat ∧ UInt8.ofNat c.toNat ≤ 0x39 := by
        simp only [UInt8.le_iff_toNat_le, hc]
        exact h.1
      rw [digit?, if_pos hbounds, hc]
      rfl
    simp only [List.map_cons, spanDigits, hdigit, ih h.2]

theorem encode_toDigits (n : Nat) :
    Utf8.encode (Nat.toDigits 10 n) = (Nat.toDigits 10 n).map fun c => UInt8.ofNat c.toNat :=
  Utf8.encode_of_ascii fun c hc => by
    have := Decimal.isDigit_of_mem hc
    omega

theorem spanDigits_toDigits (n : Nat) :
    spanDigits (Utf8.encode (Nat.toDigits 10 n)) = ((Nat.toDigits 10 n).map digitValue, []) := by
  rw [encode_toDigits]
  exact spanDigits_map fun c hc => Decimal.isDigit_of_mem hc

theorem length_toDigits_of_head {n : Nat} {c : Char} (h : (Nat.toDigits 10 n).head? = some c)
    (hc : digitValue c = 0) : (Nat.toDigits 10 n).length ≤ 1 := by
  rcases Nat.eq_zero_or_pos n with rfl | hpos
  · decide
  · have hdigit := Decimal.isDigit_of_mem (List.mem_of_head? h)
    have hzero : c = '0' := by
      refine Char.toNat_inj.mp (show c.toNat = 48 from ?_)
      unfold digitValue at hc
      omega
    exact absurd (hzero ▸ h) (Decimal.head_toDigits_ne hpos)

theorem head_encode_toDigits_ne (n : Nat) (rest : List UInt8) :
    Utf8.encode (Nat.toDigits 10 n) ≠ 0x2D :: rest := by
  intro h
  rw [encode_toDigits, List.map_eq_cons_iff] at h
  obtain ⟨c, cs, hdigits, hc, _⟩ := h
  have hbounds := Decimal.isDigit_of_mem (hdigits ▸ List.mem_cons_self : c ∈ Nat.toDigits 10 n)
  have hnat := congrArg UInt8.toNat hc
  rw [Utf8.toNat_ofNat_of_lt (by omega)] at hnat
  exact absurd hnat (by show c.toNat ≠ 45; omega)

theorem ofBytes?_ofInt (n : Int) :
    ofBytes? (Utf8.encodeText (Decimal.ofInt n)) = some (ofInt n) := by
  have hspan := spanDigits_toDigits n.natAbs
  have hhead : ∀ c, (Nat.toDigits 10 n.natAbs).head? = some c → digitValue c = 0 →
      (Nat.toDigits 10 n.natAbs).length ≤ 1 := fun c => length_toDigits_of_head
  have htext : Utf8.encodeText (Nat.repr n.natAbs) = Utf8.encode (Nat.toDigits 10 n.natAbs) := by
    rw [Utf8.encodeText, Nat.toList_repr]
  unfold Decimal.ofInt
  by_cases hneg : n < 0
  · have hminus : Utf8.encodeText ("-" ++ Nat.repr n.natAbs) =
        0x2D :: Utf8.encode (Nat.toDigits 10 n.natAbs) := by
      rw [← htext, Utf8.encodeText, String.toList_append, Utf8.encode_append]
      rfl
    rw [if_pos hneg, hminus]
    simp only [ofBytes?, hspan, fraction?, exponent?]
    simpa [ofInt, hneg] using hhead
  · rw [if_neg hneg, htext]
    unfold ofBytes?
    split
    next negative bytes heq =>
      split at heq
      · next rest hbytes => exact absurd hbytes (head_encode_toDigits_ne _ _)
      · cases heq
        simp only [hspan, fraction?, exponent?]
        simpa [ofInt, hneg] using hhead

theorem magnitude_ofInt (n : Int) :
    (ofInt n).whole.foldl (fun k d => k * 10 + d) 0 = n.natAbs := by
  have hvalue := Nat.ofDigitChars_ten_toDigits (n := n.natAbs)
  rw [Nat.ofDigitChars_eq_foldl] at hvalue
  rw [ofInt, List.foldl_map]
  simpa only [digitValue, Nat.mul_comm, Char.reduceToNat] using hvalue

theorem integer?_ofInt {n : Int} (hlow : -2 ^ 63 ≤ n) (hhigh : n < 2 ^ 64) :
    (ofInt n).integer? = some n := by
  have hplain : ((ofInt n).fraction.isSome || (ofInt n).exponent.isSome) = false := rfl
  have hword : wordBound = 2 ^ 64 := rfl
  have hhalf : Nat.pow 2 63 = 2 ^ 63 := rfl
  unfold integer?
  rw [hplain, if_neg Bool.false_ne_true, magnitude_ofInt]
  by_cases hneg : n < 0
  · have hminus : (ofInt n).negative = true := decide_eq_true hneg
    rw [if_pos hminus, if_pos (by omega)]
    congr 1
    omega
  · have hplus : ¬ (ofInt n).negative = true := fun h => hneg (of_decide_eq_true h)
    rw [if_neg hplus, if_pos (by omega)]
    congr 1
    omega

end QuotaDesk.Json.Numeral
