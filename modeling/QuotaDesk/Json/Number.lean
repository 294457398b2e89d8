import QuotaDesk.Binary64.Basic
import QuotaDesk.Text.Decimal

/-! JSON numbers: the grammar, and the value a numeral stands for. A numeral
without fraction and exponent that fits 64 bits is an integer, `-0` excepted;
every other one is a binary real, and has no value when it overflows.

The real is the significand rounded once and then scaled by a rounded power of
ten. Digits past 64 bits do not enter the significand: in the whole part they
raise the power, in the fraction they are dropped. -/

namespace QuotaDesk.Json

structure Exponent where
  negative : Bool
  digits : List Nat
  deriving DecidableEq, Repr

structure Numeral where
  negative : Bool
  whole : List Nat
  fraction : Option (List Nat)
  exponent : Option Exponent
  deriving DecidableEq, Repr

def digit? (b : UInt8) : Option Nat :=
  if 0x30 ≤ b ∧ b ≤ 0x39 then some (b.toNat - 0x30) else none

def spanDigits : List UInt8 → List Nat × List UInt8
  | [] => ([], [])
  | b :: rest =>
    match digit? b with
    | some d =>
      let (ds, after) := spanDigits rest
      (d :: ds, after)
    | none => ([], b :: rest)

namespace Numeral

def exponent? : List UInt8 → Option (Option Exponent)
  | [] => some none
  | e :: rest =>
    if e == 0x65 || e == 0x45 then
      let (negative, rest) :=
        match rest with
        | 0x2D :: rest => (true, rest)
        | 0x2B :: rest => (false, rest)
        | rest => (false, rest)
      match spanDigits rest with
      | (d :: ds, []) => some (some ⟨negative, d :: ds⟩)
      | _ => none
    else none

def fraction? : List UInt8 → Option (Option (List Nat) × List UInt8)
  | 0x2E :: rest =>
    match spanDigits rest with
    | ([], _) => none
    | (ds, after) => some (some ds, after)
  | rest => some (none, rest)

def ofBytes? (bytes : List UInt8) : Option Numeral :=
  let (negative, bytes) :=
    match bytes with
    | 0x2D :: rest => (true, rest)
    | rest => (false, rest)
  let (whole, after) := spanDigits bytes
  if whole.isEmpty || (whole.head? == some 0 && 1 < whole.length) then none
  else
    match fraction? after with
    | none => none
    | some (fraction, after) =>
      (exponent? after).map fun exponent => ⟨negative, whole, fraction, exponent⟩

end Numeral

def wordBound : Nat := Nat.pow 2 64

/-- Takes digits into a 64-bit significand until one does not fit. -/
def accumulate (n : Nat) : List Nat → Nat × List Nat
  | [] => (n, [])
  | d :: rest => if n * 10 + d < wordBound then accumulate (n * 10 + d) rest else (n, d :: rest)

def powerOfTen (k : Nat) : Binary64 :=
  Binary64.ofNat (Nat.pow 10 k)

def scaleDown (steps : Nat) (x : Binary64) (k : Nat) : Binary64 :=
  match steps with
  | 0 => x
  | steps + 1 =>
    if k ≤ 308 then x.div (powerOfTen k)
    else if x = Binary64.zero false then x
    else scaleDown steps (x.div (powerOfTen 308)) (k - 308)

def scale? (n : Nat) (k : Int) : Option Binary64 :=
  let x := Binary64.ofNat n
  if 0 ≤ k then
    if k ≤ 308 then
      match x.mul (powerOfTen k.toNat) with
      | .infinite _ => none
      | y => some y
    else if n = 0 then some x
    else none
  else some (scaleDown (k.natAbs / 308 + 1) x k.natAbs)

def exponentBound : Nat := Nat.pow 2 31

inductive Number
  | integer (n : Int)
  | real (x : Binary64)
  deriving DecidableEq, Repr

namespace Numeral

def withSign (negative : Bool) : Binary64 → Binary64
  | .finite _ m e => .finite negative m e
  | .infinite _ => .infinite negative
  | .nan => .nan

def real? (n : Numeral) : Option Binary64 :=
  let (significand, excess) := accumulate 0 n.whole
  let fraction := n.fraction.getD []
  let (significand, dropped) := accumulate significand fraction
  let shift : Int := (excess.length : Int) - ((fraction.length - dropped.length : Nat) : Int)
  let magnitude :=
    match n.exponent with
    | none => scale? significand shift
    | some e =>
      let power : Nat := e.digits.foldl (fun k d => k * 10 + d) 0
      if power < exponentBound then
        scale? significand (if e.negative then shift - (power : Int) else shift + (power : Int))
      else if significand ≠ 0 ∧ ¬ e.negative then none
      else some (Binary64.zero false)
  magnitude.map (withSign n.negative)

def integer? (n : Numeral) : Option Int :=
  if n.fraction.isSome || n.exponent.isSome then none
  else
    let magnitude : Nat := n.whole.foldl (fun k d => k * 10 + d) 0
    if n.negative then
      if 0 < magnitude ∧ magnitude ≤ Nat.pow 2 63 then some (-(magnitude : Int)) else none
    else if magnitude < wordBound then some magnitude
    else none

def number? (n : Numeral) : Option Number :=
  match n.integer? with
  | some k => some (.integer k)
  | none => n.real?.map .real

end Numeral
end QuotaDesk.Json
