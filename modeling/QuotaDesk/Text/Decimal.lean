/-! Decimal numerals. -/

namespace QuotaDesk.Text.Decimal

def digitValue? (c : Char) : Option Nat :=
  if '0' ≤ c ∧ c ≤ '9' then some (c.toNat - 48) else none

def valueFrom (n : Nat) : List Char → Option Nat
  | [] => some n
  | c :: rest =>
    match digitValue? c with
    | some d => valueFrom (n * 10 + d) rest
    | none => none

def nat? : List Char → Option Nat
  | [] => none
  | cs => valueFrom 0 cs

def unsigned? : List Char → Option Nat
  | '+' :: rest => nat? rest
  | cs => nat? cs

def signed? : List Char → Option Int
  | '+' :: rest => (nat? rest).map Int.ofNat
  | '-' :: rest => (nat? rest).map fun n => -Int.ofNat n
  | cs => (nat? cs).map Int.ofNat

def ofNat (n : Nat) : String :=
  Nat.repr n

def ofInt (n : Int) : String :=
  if n < 0 then "-" ++ Nat.repr n.natAbs else Nat.repr n.natAbs

def ofNatWidth (width n : Nat) : String :=
  let digits := Nat.toDigits 10 n
  String.ofList (List.replicate (width - digits.length) '0' ++ digits)

end QuotaDesk.Text.Decimal
