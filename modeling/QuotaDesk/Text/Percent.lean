import QuotaDesk.Text.Utf8
import QuotaDesk.Text.Split

/-! Percent-encoding, and the name=value pairs of query strings and submitted
forms. Encoding leaves only letters, digits and the four marks `-` `_` `.` `~`
as they are. Decoding accepts everything: a percent sign without two hex
digits stands for itself. -/

namespace QuotaDesk.Text.Percent

def isUnreserved (b : UInt8) : Bool :=
  (0x30 ≤ b && b ≤ 0x39) || (0x41 ≤ b && b ≤ 0x5A) || (0x61 ≤ b && b ≤ 0x7A) ||
    b == 0x2D || b == 0x5F || b == 0x2E || b == 0x7E

def hexDigit (n : Nat) : Char :=
  if n < 10 then Char.ofNat (48 + n) else Char.ofNat (55 + n)

def encodeByte (b : UInt8) : List Char :=
  if isUnreserved b then [Char.ofNat b.toNat]
  else ['%', hexDigit (b.toNat / 16), hexDigit (b.toNat % 16)]

def encode (s : String) : String :=
  String.ofList ((Utf8.encodeText s).flatMap encodeByte)

def hexValue? (b : UInt8) : Option Nat :=
  if 0x30 ≤ b ∧ b ≤ 0x39 then some (b.toNat - 0x30)
  else if 0x41 ≤ b ∧ b ≤ 0x46 then some (b.toNat - 0x37)
  else if 0x61 ≤ b ∧ b ≤ 0x66 then some (b.toNat - 0x57)
  else none

def hexPair? (a b : UInt8) : Option UInt8 :=
  match hexValue? a, hexValue? b with
  | some x, some y => some (UInt8.ofNat (x * 16 + y))
  | _, _ => none

def decode : List UInt8 → List UInt8
  | [] => []
  | 0x25 :: a :: b :: rest =>
    match hexPair? a b with
    | some byte => byte :: decode rest
    | none => 0x25 :: decode (a :: b :: rest)
  | byte :: rest => byte :: decode rest

/-- A name or a value of a form: plus signs are spaces, ill-formed UTF-8 becomes U+FFFD. -/
def formText (bytes : List UInt8) : String :=
  let spaced := bytes.map fun b => if b == 0x2B then 0x20 else b
  String.ofList (Utf8.decodeLossy (decode spaced))

/-- The pairs of a query string or form, in order; empty parts between the
ampersands are skipped, and a part without an equals sign has an empty value. -/
def formPairs (bytes : List UInt8) : List (String × String) :=
  ((splitOn 0x26 bytes).filter fun part => !part.isEmpty).map fun part =>
    let (name, value) := cut 0x3D part
    (formText name, formText (value.getD []))

end QuotaDesk.Text.Percent
