import QuotaDesk.Binary64.Fixed

/-! Texts for amounts and for the share of a quota that is used. -/

namespace QuotaDesk.Quota

def microsPerCent : Nat := 5000

/-- Hundredths of a unit, a half rounded away from zero. -/
def cents (micros : Int) : Nat :=
  (micros.natAbs + microsPerCent / 2) / microsPerCent

def wideMagnitude (micros : Int64) : BitVec 128 :=
  (micros.toBitVec.signExtend 128).abs

def wideCents (micros : Int64) : BitVec 128 :=
  (wideMagnitude micros + 2500#128) / 5000#128

def amountText (micros : Option Int64) : String :=
  let value := (micros.getD 0).toInt
  let c := cents value
  let sign := if value < 0 ∧ 0 < c then "-" else ""
  sign ++ Text.Decimal.ofNat (c / 100) ++ "." ++ Text.Decimal.ofNatWidth 2 (c % 100)

def limitText (micros : Option Int64) (unlimited : Bool) : String :=
  if unlimited then "unlimited" else amountText micros

def usagePercent (used total : Option Int64) : Option Binary64 :=
  match total with
  | none => none
  | some t =>
    if t = 0 then none
    else
      let share := (Binary64.ofInt (used.getD 0).toInt).div (Binary64.ofInt t.toInt)
      some (share.mul (Binary64.ofNat 100))

def barWidth (percent : Binary64) : Binary64 :=
  percent.clampTo 100

structure Gauge where
  percent : Binary64
  width : Binary64
  deriving DecidableEq, Repr

def Gauge.ofPercent (percent : Binary64) : Gauge :=
  ⟨percent, barWidth percent⟩

def Gauge.text (g : Gauge) : String :=
  g.percent.oneDecimal ++ "%"

end QuotaDesk.Quota
