import QuotaDesk.Binary64.Fixed

/-! Shortest decimal texts. A decimal reads back as a value when it lies in the
value's rounding interval. The coarsest decimal grid with a point in that
interval fixes the number of digits, and of two such points the nearer is
taken. Which of two equally near ones is taken depends on the kind of text. -/

namespace QuotaDesk.Binary64

structure Decimal where
  digits : Nat
  power : Int
  deriving DecidableEq, Repr

structure Interval where
  low : Nat
  value : Nat
  high : Nat
  den : Nat
  closed : Bool

def interval (m : Nat) (e : Int) : Interval :=
  let narrow := m == Nat.pow 2 52 && leastExponent < e
  let (low, den) := ratio (if narrow then 4 * m - 1 else 4 * m - 2) (e - 2)
  let (value, _) := ratio (4 * m) (e - 2)
  let (high, _) := ratio (4 * m + 2) (e - 2)
  ⟨low, value, high, den, m % 2 == 0⟩

def Interval.holds (i : Interval) (c : Nat) (p : Int) : Bool :=
  let (a, b) := if 0 ≤ p then (c * Nat.pow 10 p.toNat, 1) else (c, Nat.pow 10 (-p).toNat)
  if i.closed then i.low * b ≤ a * i.den && a * i.den ≤ i.high * b
  else i.low * b < a * i.den && a * i.den < i.high * b

inductive Tie
  | even
  | upper
  deriving DecidableEq, Repr

def Tie.nearest (num den : Nat) : Tie → Nat
  | .even => nearestEven num den
  | .upper => (2 * num + den) / (2 * den)

def Interval.point? (tie : Tie) (i : Interval) (p : Int) : Option Decimal :=
  let (num, den) :=
    if 0 ≤ p then (i.value, i.den * Nat.pow 10 p.toNat)
    else (i.value * Nat.pow 10 (-p).toNat, i.den)
  let below := num / den
  let nearest := tie.nearest num den
  let other := if nearest = below then below + 1 else below
  if 0 < nearest ∧ i.holds nearest p then some ⟨nearest, p⟩
  else if 0 < other ∧ i.holds other p then some ⟨other, p⟩
  else none

def Interval.topPower (i : Interval) : Int :=
  if i.den ≤ i.high then (Nat.toDigits 10 (i.high / i.den)).length
  else 1 - ((Nat.toDigits 10 (i.den / i.high)).length : Int) + 1

/-- Nineteen grids from the top always reach seventeen digits. -/
def shortest (tie : Tie) (m : Nat) (e : Int) : Decimal :=
  let i := interval m e
  ((List.range 20).findSome? fun (k : Nat) => i.point? tie (i.topPower - (k : Int))).getD ⟨m, e⟩

def Decimal.digitText (d : Decimal) : List Char :=
  Nat.toDigits 10 d.digits

def positional (digits : List Char) (point : Int) : List Char × List Char :=
  if point ≤ 0 then (['0'], List.replicate (-point).toNat '0' ++ digits)
  else
    let whole := digits.take point.toNat
    (whole ++ List.replicate (point.toNat - whole.length) '0', digits.drop point.toNat)

/-- Positional from 0.00001 up to below 10^16 and always with a point, else one
digit before the point and a signed exponent. -/
def Decimal.jsonText (d : Decimal) : String :=
  let digits := d.digitText
  let point : Int := digits.length + d.power
  if -5 < point ∧ point ≤ 16 then
    let (whole, fraction) := positional digits point
    String.ofList (whole ++ '.' :: (if fraction.isEmpty then ['0'] else fraction))
  else
    let (first, rest) := (digits.take 1, digits.drop 1)
    let fraction := if rest.isEmpty then [] else '.' :: rest
    let exponent := point - 1
    let sign := if exponent < 0 then "e-" else "e+"
    String.ofList (first ++ fraction) ++ sign ++ Text.Decimal.ofNat exponent.natAbs

def Decimal.plainText (d : Decimal) : String :=
  let digits := d.digitText
  let (whole, fraction) := positional digits (digits.length + d.power)
  String.ofList (if fraction.isEmpty then whole else whole ++ '.' :: fraction)

def shortestText (tie : Tie) (zeroText : String) (write : Decimal → String) : Binary64 → String
  | .finite s m e => signText s ++ (if m = 0 then zeroText else write (shortest tie m e))
  | .infinite s => signText s ++ "inf"
  | .nan => "NaN"

def jsonText : Binary64 → String :=
  shortestText .even "0.0" Decimal.jsonText

def plainText : Binary64 → String :=
  shortestText .upper "0" Decimal.plainText

end QuotaDesk.Binary64
