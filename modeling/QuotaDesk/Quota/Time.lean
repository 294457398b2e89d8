import QuotaDesk.Calendar

/-! Texts for times. The ledger counts seconds and the expiry milliseconds. -/

namespace QuotaDesk.Quota

/-- The second that a time in milliseconds falls in, or the number itself when
the calendar does not reach it. -/
def millisText (millis : Int64) : String :=
  match Calendar.instantOfSeconds? (millis.toInt / 1000) with
  | some t => t.text
  | none => "invalid time (" ++ Text.Decimal.ofInt millis.toInt ++ ")"

def expiryText : Option Int64 → String
  | some millis => if 0 < millis then millisText millis else "never expires"
  | none => "never expires"

def saturatedMillis (seconds : Int64) : Int64 :=
  Int64.ofInt (max Int64.minValue.toInt (min Int64.maxValue.toInt (seconds.toInt * 1000)))

def secondsText (seconds : Int64) : String :=
  millisText (saturatedMillis seconds)

end QuotaDesk.Quota
