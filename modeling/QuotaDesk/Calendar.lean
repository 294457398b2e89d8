import QuotaDesk.Text.Decimal

/-! The proleptic Gregorian calendar in UTC. Days and seconds count from
1970-01-01 00:00:00 and may be negative. -/

namespace QuotaDesk.Calendar

structure Date where
  year : Int
  month : Nat
  day : Nat
  deriving DecidableEq, Repr

structure Instant where
  date : Date
  hour : Nat
  minute : Nat
  second : Nat
  deriving DecidableEq, Repr

def isLeap (year : Int) : Bool :=
  year % 4 == 0 && (year % 100 != 0 || year % 400 == 0)

def daysBeforeYear (year : Int) : Int :=
  let y := year - 1
  365 * y + y / 4 - y / 100 + y / 400 - 719162

/-- The year that a day belongs to. The mean length of a year gives an estimate
that is at most one year off. -/
def yearOfDay (day : Int) : Int :=
  let guess := 400 * (day + 719162) / 146097 + 1
  if day < daysBeforeYear guess then guess - 1
  else if daysBeforeYear (guess + 1) ≤ day then guess + 1
  else guess

def monthLengths (leap : Bool) : List Nat :=
  [31, if leap then 29 else 28, 31, 30, 31, 30, 31, 31, 30, 31, 30, 31]

def monthDay (month day : Nat) : List Nat → Nat × Nat
  | [] => (month, day + 1)
  | length :: rest =>
    if day < length then (month, day + 1) else monthDay (month + 1) (day - length) rest

def dateOfDay (day : Int) : Date :=
  let year := yearOfDay day
  let (month, dayOfMonth) :=
    monthDay 1 (day - daysBeforeYear year).toNat (monthLengths (isLeap year))
  ⟨year, month, dayOfMonth⟩

def daysOfDate (d : Date) : Int :=
  let before := ((monthLengths (isLeap d.year)).take (d.month - 1)).foldr Nat.add 0
  daysBeforeYear d.year + before + d.day - 1

def leastYear : Int := -262143
def greatestYear : Int := 262142

def instantOfSeconds? (seconds : Int) : Option Instant :=
  let date := dateOfDay (seconds / 86400)
  let rest := (seconds % 86400).toNat
  if leastYear ≤ date.year ∧ date.year ≤ greatestYear then
    some ⟨date, rest / 3600, rest / 60 % 60, rest % 60⟩
  else none

def secondsOfInstant (t : Instant) : Int :=
  daysOfDate t.date * 86400 + (t.hour * 3600 + t.minute * 60 + t.second : Nat)

def yearText (year : Int) : String :=
  let digits := Text.Decimal.ofNatWidth 4 year.natAbs
  if 0 ≤ year ∧ year ≤ 9999 then digits
  else (if year < 0 then "-" else "+") ++ digits

def Date.text (d : Date) : String :=
  yearText d.year ++ "-" ++ Text.Decimal.ofNatWidth 2 d.month ++ "-" ++
    Text.Decimal.ofNatWidth 2 d.day

def Instant.text (t : Instant) : String :=
  t.date.text ++ " " ++ Text.Decimal.ofNatWidth 2 t.hour ++ ":" ++
    Text.Decimal.ofNatWidth 2 t.minute ++ ":" ++ Text.Decimal.ofNatWidth 2 t.second

end QuotaDesk.Calendar
