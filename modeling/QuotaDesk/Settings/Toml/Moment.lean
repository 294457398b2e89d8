import QuotaDesk.Calendar

/-! Dates and times of a TOML file. Seconds may be left out, a fraction counts
down to nanoseconds, and the offset from UTC needs both a date and a time. The
text of a moment is in one form, however it was written. -/

namespace QuotaDesk.Settings.Toml

structure Clock where
  hour : Nat
  minute : Nat
  second : Option Nat := none
  nanos : Option Nat := none
  deriving DecidableEq, Repr

inductive Offset
  | utc
  | minutes (n : Int)
  deriving DecidableEq, Repr

inductive Moment
  | date (d : Calendar.Date)
  | time (t : Clock)
  | dateTime (d : Calendar.Date) (t : Clock) (offset : Option Offset)
  deriving DecidableEq, Repr

def field? (width : Nat) (cs : List Char) : Option (Nat × List Char) :=
  let digits := cs.takeWhile Char.isDigit
  if digits.length = width then
    (Text.Decimal.nat? digits).map fun n => (n, cs.dropWhile Char.isDigit)
  else none

def fieldUpTo? (greatest : Nat) (cs : List Char) : Option (Nat × List Char) :=
  (field? 2 cs).filter fun f => f.1 ≤ greatest

def monthLength (year : Int) (month : Nat) : Nat :=
  ((Calendar.monthLengths (Calendar.isLeap year))[month - 1]?).getD 0

def date? (cs : List Char) : Option (Calendar.Date × List Char) :=
  match field? 4 cs with
  | some (year, '-' :: rest) =>
    match fieldUpTo? 12 rest with
    | some (month, '-' :: rest) =>
      if month = 0 then none
      else
        match fieldUpTo? (monthLength year month) rest with
        | some (day, rest) => if day = 0 then none else some (⟨year, month, day⟩, rest)
        | none => none
    | _ => none
  | _ => none

def nanosOf (digits : List Char) : Nat :=
  let digits := digits.take 9
  (Text.Decimal.nat? (digits ++ List.replicate (9 - digits.length) '0')).getD 0

def fraction? : List Char → Option (Option Nat × List Char)
  | '.' :: rest =>
    let digits := rest.takeWhile Char.isDigit
    if digits.isEmpty then none else some (some (nanosOf digits), rest.dropWhile Char.isDigit)
  | rest => some (none, rest)

def clock? (cs : List Char) : Option (Clock × List Char) :=
  match fieldUpTo? 23 cs with
  | some (hour, ':' :: rest) =>
    match fieldUpTo? 59 rest with
    | some (minute, ':' :: rest) =>
      (fieldUpTo? 60 rest).bind fun (second, rest) =>
        (fraction? rest).map fun (nanos, rest) => (⟨hour, minute, some second, nanos⟩, rest)
    | some (minute, rest) => some (⟨hour, minute, none, none⟩, rest)
    | none => none
  | _ => none

/-- The whole rest as an offset, `none` inside when there is no rest. -/
def offset? : List Char → Option (Option Offset)
  | [] => some none
  | ['Z'] | ['z'] => some (some .utc)
  | sign :: rest =>
    if sign = '+' ∨ sign = '-' then
      match fieldUpTo? 23 rest with
      | some (hours, ':' :: rest) =>
        match fieldUpTo? 59 rest with
        | some (minutes, []) =>
          let n : Int := (hours * 60 + minutes : Nat)
          some (some (.minutes (if sign = '-' then -n else n)))
        | _ => none
      | _ => none
    else none

def isDateBreak (c : Char) : Bool :=
  c == 'T' || c == 't' || c == ' '

def Moment.ofChars? (cs : List Char) : Option Moment :=
  match date? cs with
  | some (d, []) => some (.date d)
  | some (d, c :: rest) =>
    if isDateBreak c then
      (clock? rest).bind fun (t, rest) => (offset? rest).map fun offset => .dateTime d t offset
    else none
  | none =>
    match clock? cs with
    | some (t, []) => some (.time t)
    | _ => none

def pair (n : Nat) : String :=
  Text.Decimal.ofNatWidth 2 n

def nanosText (n : Nat) : String :=
  let digits := (Text.Decimal.ofNatWidth 9 n).toList
  let kept := (digits.reverse.dropWhile (· == '0')).reverse
  "." ++ (if kept.isEmpty then "0" else String.ofList kept)

def Clock.text (t : Clock) : String :=
  pair t.hour ++ ":" ++ pair t.minute ++ (t.second.map fun s => ":" ++ pair s).getD "" ++
    (t.nanos.map nanosText).getD ""

def Offset.text : Offset → String
  | .utc => "Z"
  | .minutes n =>
    (if n < 0 then "-" else "+") ++ pair (n.natAbs / 60) ++ ":" ++ pair (n.natAbs % 60)

def Moment.text : Moment → String
  | .date d => d.text
  | .time t => t.text
  | .dateTime d t offset => d.text ++ "T" ++ t.text ++ (offset.map Offset.text).getD ""

end QuotaDesk.Settings.Toml
