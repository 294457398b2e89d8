import QuotaDesk.Text.Utf8

/-! UTF-8 written and read back. The bytes of a character are scanned to that character, whatever
stands behind them, so that every text is read back whole. -/

namespace QuotaDesk.Text.Utf8

variable {rest : List UInt8} {n : Nat}

theorem toNat_ofNat_of_lt (h : n < 256) : (UInt8.ofNat n).toNat = n := by
  rw [UInt8.toNat_ofNat', Nat.mod_eq_of_lt h]

theorem forall_byte {p : UInt8 → Prop} (h : ∀ n < 256, p (UInt8.ofNat n)) (b : UInt8) : p b := by
  have hb := h b.toNat b.toNat_lt
  rwa [UInt8.ofNat_toNat] at hb

theorem scanFrom_ascii (h : n < 0x80) :
    scanFrom .fresh (UInt8.ofNat n :: rest) = some (Char.ofNat n) :: scanFrom .fresh rest := by
  have hn : (UInt8.ofNat n).toNat = n := toNat_ofNat_of_lt (by omega)
  have hlead : lead (UInt8.ofNat n) = some (.inl (Char.ofNat n)) := by
    simp only [lead, hn, if_pos h]
  simp only [scanFrom, step, begin, hlead]
  rfl

theorem scanFrom_lead {p : Pending} (h : lead (UInt8.ofNat n) = some (.inr p)) :
    scanFrom .fresh (UInt8.ofNat n :: rest) = scanFrom p rest := by
  simp only [scanFrom, step, begin, h]
  rfl

theorem step_more {left value : Nat} {low high : UInt8} (hn : n < 64)
    (hlow : low.toNat ≤ 0x80 + n) (hhigh : 0x80 + n ≤ high.toNat) :
    step (.more left low high value) (UInt8.ofNat (0x80 + n)) =
      match left with
      | 0 => (.fresh, [some (Char.ofNat (value * 64 + n))])
      | left + 1 => (.more left 0x80 0xBF (value * 64 + n), []) := by
  have hb : (UInt8.ofNat (0x80 + n)).toNat = 0x80 + n := toNat_ofNat_of_lt (by omega)
  have hwithin : (low ≤ UInt8.ofNat (0x80 + n) && UInt8.ofNat (0x80 + n) ≤ high) = true := by
    simp only [Bool.and_eq_true, decide_eq_true_eq, UInt8.le_iff_toNat_le, hb]
    exact ⟨hlow, hhigh⟩
  cases left <;> rw [step, if_pos hwithin, hb, Nat.add_sub_cancel_left]

theorem scanFrom_last {value : Nat} {low high : UInt8} (hn : n < 64)
    (hlow : low.toNat ≤ 0x80 + n) (hhigh : 0x80 + n ≤ high.toNat) :
    scanFrom (.more 0 low high value) (UInt8.ofNat (0x80 + n) :: rest) =
      some (Char.ofNat (value * 64 + n)) :: scanFrom .fresh rest := by
  simp only [scanFrom, step_more hn hlow hhigh]
  rfl

theorem scanFrom_next {left value : Nat} {low high : UInt8} (hn : n < 64)
    (hlow : low.toNat ≤ 0x80 + n) (hhigh : 0x80 + n ≤ high.toNat) :
    scanFrom (.more (left + 1) low high value) (UInt8.ofNat (0x80 + n) :: rest) =
      scanFrom (.more left 0x80 0xBF (value * 64 + n)) rest := by
  simp only [scanFrom, step_more hn hlow hhigh]
  rfl

/-- The first byte of a character of three bytes, with what the second one has to be. The bounds
keep out what two bytes can hold, and the surrogates. -/
theorem lead_three (hlow : 0x800 ≤ n) (hhigh : n < 0x10000) (hvalid : n.isValidChar) :
    ∃ low high, lead (UInt8.ofNat (0xE0 + n / 4096)) = some (.inr (.more 1 low high (n / 4096))) ∧
      low.toNat ≤ 0x80 + n / 64 % 64 ∧ 0x80 + n / 64 % 64 ≤ high.toNat := by
  have hb : (UInt8.ofNat (0xE0 + n / 4096)).toNat = 0xE0 + n / 4096 := toNat_ofNat_of_lt (by omega)
  simp only [lead, hb]
  rw [if_neg (by omega), if_neg (by omega), if_neg (by omega)]
  by_cases hfirst : n / 4096 = 0
  · rw [if_pos (by omega), hfirst]
    exact ⟨_, _, rfl, by show 0xA0 ≤ _; omega, by show _ ≤ 0xBF; omega⟩
  rw [if_neg (by omega)]
  by_cases hsurrogate : n / 4096 = 13
  · rw [if_pos (by omega), hsurrogate]
    refine ⟨_, _, rfl, by show 0x80 ≤ _; omega, ?_⟩
    show _ ≤ 0x9F
    unfold Nat.isValidChar at hvalid
    omega
  · rw [if_neg (by omega), if_pos (by omega), Nat.add_sub_cancel_left]
    exact ⟨_, _, rfl, by show 0x80 ≤ _; omega, by show _ ≤ 0xBF; omega⟩

theorem lead_four (hlow : 0x10000 ≤ n) (hvalid : n.isValidChar) :
    ∃ low high,
      lead (UInt8.ofNat (0xF0 + n / 262144)) = some (.inr (.more 2 low high (n / 262144))) ∧
      low.toNat ≤ 0x80 + n / 4096 % 64 ∧ 0x80 + n / 4096 % 64 ≤ high.toNat := by
  have hlast : n < 0x110000 := by
    unfold Nat.isValidChar at hvalid
    omega
  have hb : (UInt8.ofNat (0xF0 + n / 262144)).toNat = 0xF0 + n / 262144 :=
    toNat_ofNat_of_lt (by omega)
  simp only [lead, hb]
  rw [if_neg (by omega), if_neg (by omega), if_neg (by omega), if_neg (by omega),
    if_neg (by omega), if_neg (by omega)]
  by_cases hfirst : n / 262144 = 0
  · rw [if_pos (by omega), hfirst]
    exact ⟨_, _, rfl, by show 0x90 ≤ _; omega, by show _ ≤ 0xBF; omega⟩
  rw [if_neg (by omega)]
  by_cases hend : n / 262144 = 4
  · rw [if_neg (by omega), if_pos (by omega), hend]
    exact ⟨_, _, rfl, by show 0x80 ≤ _; omega, by show _ ≤ 0x8F; omega⟩
  · rw [if_pos (by omega), Nat.add_sub_cancel_left]
    exact ⟨_, _, rfl, by show 0x80 ≤ _; omega, by show _ ≤ 0xBF; omega⟩

theorem encodeChar_ascii {c : Char} (h : c.toNat < 0x80) : encodeChar c = [UInt8.ofNat c.toNat] :=
  if_pos h

theorem scanFrom_encodeChar (c : Char) (rest : List UInt8) :
    scanFrom .fresh (encodeChar c ++ rest) = some c :: scanFrom .fresh rest := by
  have hvalid : c.toNat.isValidChar := c.valid
  have hc : Char.ofNat c.toNat = c := Char.ofNat_toNat c
  unfold encodeChar
  generalize c.toNat = n at hvalid hc
  simp only [show Nat.pow 64 0 = 1 from rfl, show Nat.pow 64 1 = 64 from rfl,
    show Nat.pow 64 2 = 4096 from rfl, Nat.div_one]
  split
  · next h => rw [List.singleton_append, scanFrom_ascii h, hc]
  split
  · next hlow hhigh =>
    have hlead : lead (UInt8.ofNat (0xC0 + n / 64)) = some (.inr (.more 0 0x80 0xBF (n / 64))) := by
      have hb : (UInt8.ofNat (0xC0 + n / 64)).toNat = 0xC0 + n / 64 := toNat_ofNat_of_lt (by omega)
      simp only [lead, hb]
      rw [if_neg (by omega), if_neg (by omega), if_pos (by omega), Nat.add_sub_cancel_left]
    simp only [List.cons_append, List.nil_append]
    rw [scanFrom_lead hlead, scanFrom_last (by omega) (by show 0x80 ≤ _; omega)
      (by show _ ≤ 0xBF; omega), show n / 64 * 64 + n % 64 = n by omega, hc]
  split
  · next hlow hhigh =>
    obtain ⟨low, high, hlead, hl, hh⟩ := lead_three (by omega) hhigh hvalid
    simp only [List.cons_append, List.nil_append]
    rw [scanFrom_lead hlead, scanFrom_next (by omega) hl hh,
      scanFrom_last (by omega) (by show 0x80 ≤ _; omega) (by show _ ≤ 0xBF; omega),
      show (n / 4096 * 64 + n / 64 % 64) * 64 + n % 64 = n by omega, hc]
  · next hlow =>
    obtain ⟨low, high, hlead, hl, hh⟩ := lead_four (by omega) hvalid
    simp only [List.cons_append, List.nil_append]
    rw [scanFrom_lead hlead, scanFrom_next (by omega) hl hh,
      scanFrom_next (by omega) (by show 0x80 ≤ _; omega) (by show _ ≤ 0xBF; omega),
      scanFrom_last (by omega) (by show 0x80 ≤ _; omega) (by show _ ≤ 0xBF; omega),
      show ((n / 262144 * 64 + n / 4096 % 64) * 64 + n / 64 % 64) * 64 + n % 64 = n by omega, hc]

theorem le_of_mem_encodeChar {c : Char} {b : UInt8} (hc : 0x80 ≤ c.toNat) (h : b ∈ encodeChar c) :
    0x80 ≤ b.toNat := by
  have hlast : c.toNat < 0x110000 := by
    have hvalid : c.toNat.isValidChar := c.valid
    unfold Nat.isValidChar at hvalid
    omega
  have hbyte : ∀ {m : Nat}, 0x80 ≤ m → m < 256 → b = UInt8.ofNat m → 0x80 ≤ b.toNat := by
    rintro m hlow hhigh rfl
    rwa [toNat_ofNat_of_lt hhigh]
  unfold encodeChar at h
  rw [if_neg (by omega)] at h
  split at h
  · simp only [List.mem_cons, List.not_mem_nil, or_false] at h
    rcases h with h | h <;> exact hbyte (by omega) (by omega) h
  split at h
  · simp only [List.mem_cons, List.not_mem_nil, or_false] at h
    rcases h with h | h | h <;> exact hbyte (by omega) (by omega) h
  · simp only [List.mem_cons, List.not_mem_nil, or_false] at h
    rcases h with h | h | h | h <;> exact hbyte (by omega) (by omega) h

@[simp] theorem encode_nil : encode [] = [] := rfl

theorem encode_cons (c : Char) (cs : List Char) : encode (c :: cs) = encodeChar c ++ encode cs :=
  List.flatMap_cons

theorem encode_append (cs ds : List Char) : encode (cs ++ ds) = encode cs ++ encode ds :=
  List.flatMap_append

theorem encode_of_ascii {cs : List Char} (h : ∀ c ∈ cs, c.toNat < 0x80) :
    encode cs = cs.map fun c => UInt8.ofNat c.toNat := by
  induction cs with
  | nil => rfl
  | cons c cs ih =>
    rw [List.forall_mem_cons] at h
    rw [encode_cons, encodeChar_ascii h.1, ih h.2]
    rfl

theorem ofNat_mem_encode_iff {c : Char} (hc : c.toNat < 0x80) {cs : List Char} :
    UInt8.ofNat c.toNat ∈ encode cs ↔ c ∈ cs := by
  have hbyte : (UInt8.ofNat c.toNat).toNat = c.toNat := toNat_ofNat_of_lt (by omega)
  rw [encode, List.mem_flatMap]
  constructor
  · rintro ⟨d, hd, hmem⟩
    rcases Nat.lt_or_ge d.toNat 0x80 with hlt | hle
    · rw [encodeChar_ascii hlt, List.mem_singleton] at hmem
      have hsame := congrArg UInt8.toNat hmem
      rw [hbyte, toNat_ofNat_of_lt (by omega)] at hsame
      rwa [Char.toNat_inj.mp hsame]
    · have hwide := le_of_mem_encodeChar hle hmem
      omega
  · intro hmem
    exact ⟨c, hmem, by rw [encodeChar_ascii hc]; exact List.mem_singleton_self _⟩

theorem scan_encode (cs : List Char) : scan (encode cs) = cs.map some := by
  unfold scan
  induction cs with
  | nil => rfl
  | cons c cs ih => rw [encode_cons, scanFrom_encodeChar, ih, List.map_cons]

theorem decodeLossy_encode (cs : List Char) : decodeLossy (encode cs) = cs := by
  rw [decodeLossy, scan_encode, List.map_map]
  exact List.map_id cs

theorem decode?_encode (cs : List Char) : decode? (encode cs) = some cs := by
  rw [decode?, scan_encode]
  induction cs with
  | nil => rfl
  | cons c cs ih => simp only [List.map_cons, List.mapM_cons, ih, id]; rfl

theorem decodeText?_encodeText (s : String) : decodeText? (encodeText s) = some s := by
  rw [decodeText?, encodeText, decode?_encode, Option.map_some, String.ofList_toList]

end QuotaDesk.Text.Utf8
