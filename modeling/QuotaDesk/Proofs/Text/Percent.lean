import QuotaDesk.Proofs.Text.Split
import QuotaDesk.Proofs.Text.Utf8
import QuotaDesk.Text.Percent

/-! Percent-encoding read back. Encoded text has only letters, digits, the four marks and percent
signs, and every percent sign begins the two hex digits of a byte. -/

namespace QuotaDesk.Text.Percent

def isEncoded (c : Char) : Bool :=
  c == '%' || (c.toNat < 0x80 && isUnreserved (UInt8.ofNat c.toNat))

theorem isEncoded_encodeByte : ∀ b : UInt8, (encodeByte b).all isEncoded = true :=
  Utf8.forall_byte (by decide +kernel)

theorem hexPair?_hexDigits : ∀ b : UInt8,
    hexPair? (UInt8.ofNat (hexDigit (b.toNat / 16)).toNat)
      (UInt8.ofNat (hexDigit (b.toNat % 16)).toNat) = some b :=
  Utf8.forall_byte (by decide +kernel)

theorem toNat_lt_of_isEncoded {c : Char} (h : isEncoded c = true) : c.toNat < 0x80 := by
  simp only [isEncoded, Bool.or_eq_true, beq_iff_eq, Bool.and_eq_true, decide_eq_true_eq] at h
  rcases h with rfl | h
  · decide
  · exact h.1

theorem isEncoded_encode {s : String} {c : Char} (h : c ∈ (encode s).toList) :
    isEncoded c = true := by
  rw [encode, String.toList_ofList, List.mem_flatMap] at h
  obtain ⟨b, _, hc⟩ := h
  exact List.all_eq_true.mp (isEncoded_encodeByte b) c hc

theorem not_mem_encode {c : Char} (h : isEncoded c = false) (s : String) : c ∉ (encode s).toList :=
  fun hc => Bool.false_ne_true (h.symm.trans (isEncoded_encode hc))

theorem decode_cons_of_ne {b : UInt8} (h : b ≠ 0x25) (rest : List UInt8) :
    decode (b :: rest) = b :: decode rest := by
  rw [decode.eq_def]
  split <;> simp_all

theorem decode_encodeByte (b : UInt8) (rest : List UInt8) :
    decode (Utf8.encode (encodeByte b) ++ rest) = b :: decode rest := by
  have hascii : ∀ c ∈ encodeByte b, c.toNat < 0x80 := fun c hc =>
    toNat_lt_of_isEncoded (List.all_eq_true.mp (isEncoded_encodeByte b) c hc)
  rw [Utf8.encode_of_ascii hascii]
  unfold encodeByte
  split
  · next hplain =>
    have hne : b ≠ 0x25 := by
      rintro rfl
      exact absurd hplain (by decide)
    have hb : UInt8.ofNat (Char.ofNat b.toNat).toNat = b :=
      Utf8.forall_byte (p := fun b => UInt8.ofNat (Char.ofNat b.toNat).toNat = b)
        (by decide +kernel) b
    rw [List.map_singleton, hb, List.singleton_append, decode_cons_of_ne hne]
  · simp only [List.map_cons, List.map_nil, List.cons_append, List.nil_append]
    rw [show UInt8.ofNat '%'.toNat = 0x25 from rfl, decode, hexPair?_hexDigits]

theorem decode_encodeBytes (bs : List UInt8) :
    decode (Utf8.encode (bs.flatMap encodeByte)) = bs := by
  induction bs with
  | nil => rfl
  | cons b bs ih => rw [List.flatMap_cons, Utf8.encode_append, decode_encodeByte, ih]

theorem decode_of_not_mem {bs : List UInt8} (h : 0x25 ∉ bs) : decode bs = bs := by
  induction bs with
  | nil => rfl
  | cons b bs ih =>
    rw [List.mem_cons, not_or] at h
    rw [decode_cons_of_ne (Ne.symm h.1), ih h.2]

theorem decode_encode_of_not_mem {cs : List Char} (h : '%' ∉ cs) :
    decode (Utf8.encode cs) = Utf8.encode cs :=
  decode_of_not_mem fun hmem => h ((Utf8.ofNat_mem_encode_iff (by decide)).mp hmem)

def Literal (s : String) : Prop :=
  ∀ c ∈ ['%', '+', '&', '='], c ∉ s.toList

instance (s : String) : Decidable (Literal s) :=
  List.decidableBAll (fun c => c ∉ s.toList) _

theorem formText_encode {cs : List Char} (hpercent : '%' ∉ cs) (hplus : '+' ∉ cs) :
    formText (Utf8.encode cs) = String.ofList cs := by
  have hspaced : (Utf8.encode cs).map (fun b => if b == 0x2B then 0x20 else b) =
      Utf8.encode cs := by
    refine (List.map_congr_left fun b hb => ?_).trans (List.map_id _)
    have hne : b ≠ 0x2B := by
      rintro rfl
      exact hplus ((Utf8.ofNat_mem_encode_iff (by decide)).mp hb)
    simp [hne]
  simp only [formText, hspaced, decode_encode_of_not_mem hpercent, Utf8.decodeLossy_encode]

theorem formPairs_field {name value : String} (hname : Literal name) (hvalue : Literal value) :
    formPairs (Utf8.encode (name.toList ++ '=' :: value.toList)) = [(name, value)] := by
  have hands : (0x26 : UInt8) ∉ Utf8.encode (name.toList ++ '=' :: value.toList) := by
    intro hmem
    have hmem' := (Utf8.ofNat_mem_encode_iff (c := '&') (by decide)).mp hmem
    simp [hname '&' (by decide), hvalue '&' (by decide)] at hmem'
  have hequals : (0x3D : UInt8) ∉ Utf8.encode name.toList := fun hmem =>
    hname '=' (by decide) ((Utf8.ofNat_mem_encode_iff (by decide)).mp hmem)
  have hbytes : Utf8.encode (name.toList ++ '=' :: value.toList) =
      Utf8.encode name.toList ++ 0x3D :: Utf8.encode value.toList := by
    rw [Utf8.encode_append, Utf8.encode_cons]
    rfl
  have hnames := formText_encode (hname '%' (by decide)) (hname '+' (by decide))
  have hvalues := formText_encode (hvalue '%' (by decide)) (hvalue '+' (by decide))
  rw [formPairs, splitOn_of_not_mem hands, hbytes]
  simp [cut_append_cons hequals, hnames, hvalues]

end QuotaDesk.Text.Percent
