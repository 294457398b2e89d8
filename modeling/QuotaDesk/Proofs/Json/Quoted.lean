import QuotaDesk.Proofs.Json.Scan
import QuotaDesk.Proofs.Text.Utf8

/-! Strings in quotes. Every text is written as a string that is scanned as one token, and the
pieces of that token stand for the text. -/

namespace QuotaDesk.Json

open Text

def isNamed (c : Char) : Bool :=
  ['"', '\\', '\x08', '\x0c', '\n', '\r', '\t'].contains c

def pieces (c : Char) : Quoted :=
  if isNamed c then [.escaped c]
  else if c.toNat < 0x20 then [.unit c.toNat]
  else (Utf8.encodeChar c).map .byte

def Quoted.ofText (s : String) : Quoted :=
  s.toList.flatMap pieces

namespace Quoted

theorem bytes?_map_byte (bs : List UInt8) (q : Quoted) :
    bytes? (bs.map .byte ++ q) = (bytes? q).map (bs ++ ·) := by
  induction bs with
  | nil => exact Option.map_id'.symm
  | cons b bs ih =>
    simp only [List.map_cons, List.cons_append, bytes?, ih, Option.map_map, Function.comp_def]

theorem bytes?_pieces (c : Char) (q : Quoted) :
    bytes? (pieces c ++ q) = (bytes? q).map (Utf8.encodeChar c ++ ·) := by
  unfold pieces
  split
  · rfl
  split
  · next h =>
    have hhigh : isHighSurrogate c.toNat = false := by simp [isHighSurrogate]; omega
    have hlow : isLowSurrogate c.toNat = false := by simp [isLowSurrogate]; omega
    rw [List.singleton_append, bytes?.eq_def]
    simp only [hhigh, hlow, Bool.false_eq_true, if_false, Char.ofNat_toNat]
  · exact bytes?_map_byte _ _

theorem bytes?_ofText (s : String) : bytes? (ofText s) = some (Utf8.encodeText s) := by
  unfold ofText Utf8.encodeText
  induction s.toList with
  | nil => rfl
  | cons c cs ih => rw [List.flatMap_cons, bytes?_pieces, ih, Option.map_some, Utf8.encode_cons]

theorem text?_ofText (s : String) : text? (ofText s) = some s := by
  rw [text?, bytes?_ofText, Option.bind_some, Utf8.decodeText?_encodeText]

end Quoted

def isPlain (b : UInt8) : Bool :=
  b != 0x22 && b != 0x5C && 0x20 ≤ b

theorem after?_plain {bs : List UInt8} (h : ∀ b ∈ bs, isPlain b = true) (seen : List Piece) :
    (Reading.quoted seen).after? bs = some (.quoted ((bs.map .byte).reverse ++ seen), []) := by
  induction bs generalizing seen with
  | nil => rfl
  | cons b bs ih =>
    rw [List.forall_mem_cons] at h
    have hstep : (Reading.quoted seen).step b = some (.quoted (.byte b :: seen), []) := by
      obtain ⟨⟨hquote, hslash⟩, hlow⟩ : (b ≠ 0x22 ∧ b ≠ 0x5C) ∧ 0x20 ≤ b := by
        simpa [isPlain] using h.1
      simp [Reading.step, hquote, hslash, hlow]
    simp only [Reading.after?, hstep, Option.bind_some, ih h.2, Option.map_some, List.map_cons,
      List.reverse_cons, List.append_assoc, List.singleton_append, List.append_nil]

theorem isPlain_iff {b : UInt8} :
    isPlain b = true ↔ b.toNat ≠ 0x22 ∧ b.toNat ≠ 0x5C ∧ 0x20 ≤ b.toNat := by
  simp [isPlain, UInt8.le_iff_toNat_le, ← UInt8.toNat_inj, and_assoc]

theorem isPlain_of_mem {c : Char} {b : UInt8} (hnamed : isNamed c = false) (hc : 0x20 ≤ c.toNat)
    (h : b ∈ Utf8.encodeChar c) : isPlain b = true := by
  rw [isPlain_iff]
  rcases Nat.lt_or_ge c.toNat 0x80 with hascii | hwide
  · rw [Utf8.encodeChar_ascii hascii, List.mem_singleton] at h
    rw [h, Utf8.toNat_ofNat_of_lt (by omega)]
    have hne : ∀ d, isNamed d = true → c.toNat ≠ d.toNat := by
      intro d hd heq
      rw [Char.toNat_inj.mp heq, hd] at hnamed
      cases hnamed
    exact ⟨hne '"' rfl, hne '\\' rfl, hc⟩
  · have hb := Utf8.le_of_mem_encodeChar hwide h
    omega

theorem hexValue?_hexDigitLower : ∀ n < 16, (hexDigitLower n).toNat < 0x80 ∧
    Percent.hexValue? (UInt8.ofNat (hexDigitLower n).toNat) = some n := by
  decide

theorem after?_control {n : Nat} (h : n < 0x20) (seen : List Piece) :
    (Reading.quoted seen).after? (Utf8.encode
      ['\\', 'u', '0', '0', hexDigitLower (n / 16), hexDigitLower (n % 16)]) =
      some (.quoted (.unit n :: seen), []) := by
  obtain ⟨hhigh, hhighValue⟩ := hexValue?_hexDigitLower (n / 16) (by omega)
  obtain ⟨hlow, hlowValue⟩ := hexValue?_hexDigitLower (n % 16) (by omega)
  have hbytes : Utf8.encode ['\\', 'u', '0', '0', hexDigitLower (n / 16), hexDigitLower (n % 16)] =
      [0x5C, 0x75, 0x30, 0x30, UInt8.ofNat (hexDigitLower (n / 16)).toNat,
        UInt8.ofNat (hexDigitLower (n % 16)).toNat] := by
    refine Utf8.encode_of_ascii ?_
    simp [hhigh, hlow]
  have hzero : Percent.hexValue? 0x30 = some 0 := rfl
  have hvalue : n / 16 * 16 + n % 16 = n := by omega
  rw [hbytes]
  simp [Reading.after?, Reading.step, hzero, hhighValue, hlowValue, hvalue]

theorem after?_quoteChar (c : Char) (seen : List Piece) :
    (Reading.quoted seen).after? (Utf8.encode (quoteChar c)) =
      some (.quoted ((pieces c).reverse ++ seen), []) := by
  by_cases hnamed : isNamed c = true
  · simp only [isNamed, List.contains_iff_mem, List.mem_cons, List.not_mem_nil, or_false] at hnamed
    rcases hnamed with rfl | rfl | rfl | rfl | rfl | rfl | rfl <;> rfl
  · have hnot : ∀ d, isNamed d = true → c ≠ d := by
      rintro d hd rfl
      exact hnamed hd
    have hquote : quoteChar c = if c.toNat < 0x20 then
        ['\\', 'u', '0', '0', hexDigitLower (c.toNat / 16), hexDigitLower (c.toNat % 16)]
        else [c] := by
      unfold quoteChar
      rw [if_neg (hnot _ rfl), if_neg (hnot _ rfl), if_neg (hnot _ rfl), if_neg (hnot _ rfl),
        if_neg (hnot _ rfl), if_neg (hnot _ rfl), if_neg (hnot _ rfl)]
    rw [hquote, pieces, if_neg hnamed]
    split
    · next hc => exact after?_control hc seen
    · next hc =>
      rw [Utf8.encode_cons, Utf8.encode_nil, List.append_nil]
      exact after?_plain (fun b hb =>
        isPlain_of_mem (Bool.eq_false_iff.mpr hnamed) (Nat.le_of_not_lt hc) hb) seen

theorem after?_quoteChars (cs : List Char) (seen : List Piece) :
    (Reading.quoted seen).after? (Utf8.encode (cs.flatMap quoteChar)) =
      some (.quoted ((cs.flatMap pieces).reverse ++ seen), []) := by
  induction cs generalizing seen with
  | nil => rfl
  | cons c cs ih =>
    rw [List.flatMap_cons, Utf8.encode_append, Reading.after?_append, after?_quoteChar,
      Option.bind_some, ih, List.flatMap_cons, List.reverse_append, List.append_assoc]
    rfl

theorem closed_quote (s : String) : Closed (Utf8.encode (quote s)) [.text (.ofText s)] := by
  have hopen : (Reading.between).step 0x22 = some (.quoted [], []) := rfl
  have hbytes : Utf8.encode (quote s) =
      0x22 :: (Utf8.encode (s.toList.flatMap quoteChar) ++ [0x22]) := by
    rw [quote, Utf8.encode_cons, Utf8.encode_append]
    rfl
  unfold Closed
  rw [hbytes, Reading.after?, hopen, Option.bind_some, Reading.after?_append, after?_quoteChars,
    Option.bind_some, List.append_nil]
  simp [Reading.after?, Reading.step, Quoted.ofText]

end QuotaDesk.Json
