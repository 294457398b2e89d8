import QuotaDesk.Binary64.Basic
import QuotaDesk.Text.Decimal

/-! Texts with one decimal. The digit comes from the exact binary value, a tie
goes to the even digit, and the sign is written even of a zero. -/

namespace QuotaDesk.Binary64

def signText (negative : Bool) : String :=
  if negative then "-" else ""

def oneDecimal : Binary64 → String
  | .finite s m e =>
    let (a, b) := ratio m e
    let tenths := nearestEven (a * 10) b
    signText s ++ Text.Decimal.ofNat (tenths / 10) ++ "." ++ Text.Decimal.ofNat (tenths % 10)
  | .infinite s => signText s ++ "inf"
  | .nan => "NaN"

end QuotaDesk.Binary64
