/-! Binary floating point with 53 significant bits. A finite value stands for
the exact number `mantissa * 2 ^ exponent`, and every operation rounds its
exact result once, to nearest, a tie going to the even mantissa. -/

namespace QuotaDesk

inductive Binary64
  | finite (negative : Bool) (mantissa : Nat) (exponent : Int)
  | infinite (negative : Bool)
  | nan
  deriving DecidableEq, Repr

namespace Binary64

def nearestEven (num den : Nat) : Nat :=
  let q := num / den
  let r := num % den
  if 2 * r < den then q
  else if den < 2 * r then q + 1
  else q + q % 2

def floorLog2 (num den : Nat) : Int :=
  let e := (Nat.log2 num : Int) - (Nat.log2 den : Int)
  let below := if 0 ≤ e then num < den * Nat.pow 2 e.toNat else num * Nat.pow 2 (-e).toNat < den
  if below then e - 1 else e

def leastExponent : Int := -1074
def greatestExponent : Int := 971
def mantissaBound : Nat := Nat.pow 2 53

def zero (negative : Bool) : Binary64 :=
  .finite negative 0 leastExponent

/-- The value nearest to `num / den`, infinite past the greatest finite one. -/
def ofRatio (negative : Bool) (num den : Nat) : Binary64 :=
  if num = 0 then zero negative
  else
    let e := max leastExponent (floorLog2 num den - 52)
    let m :=
      if 0 ≤ e then nearestEven num (den * Nat.pow 2 e.toNat)
      else nearestEven (num * Nat.pow 2 (-e).toNat) den
    let (m, e) := if m = mantissaBound then (m / 2, e + 1) else (m, e)
    if greatestExponent < e then .infinite negative else .finite negative m e

def ofNat (n : Nat) : Binary64 :=
  ofRatio false n 1

def ofInt (n : Int) : Binary64 :=
  ofRatio (n < 0) n.natAbs 1

def ratio (m : Nat) (e : Int) : Nat × Nat :=
  if 0 ≤ e then (m * Nat.pow 2 e.toNat, 1) else (m, Nat.pow 2 (-e).toNat)

def mul : Binary64 → Binary64 → Binary64
  | .finite s m e, .finite t n f =>
    let (a, b) := ratio (m * n) (e + f)
    ofRatio (s != t) a b
  | .infinite s, .finite t n _ => if n = 0 then .nan else .infinite (s != t)
  | .finite s m _, .infinite t => if m = 0 then .nan else .infinite (s != t)
  | .infinite s, .infinite t => .infinite (s != t)
  | .nan, _ => .nan
  | _, .nan => .nan

def div : Binary64 → Binary64 → Binary64
  | .finite s m e, .finite t n f =>
    if n = 0 then (if m = 0 then .nan else .infinite (s != t))
    else
      let (a, b) := ratio m (e - f)
      ofRatio (s != t) a (b * n)
  | .infinite s, .finite t _ _ => .infinite (s != t)
  | .finite s _ _, .infinite t => zero (s != t)
  | .infinite _, .infinite _ => .nan
  | .nan, _ => .nan
  | _, .nan => .nan

def magnitudeLt (m : Nat) (e : Int) (n : Nat) (f : Int) : Bool :=
  let (a, b) := ratio m e
  let (c, d) := ratio n f
  a * d < c * b

def clampTo (n : Nat) : Binary64 → Binary64
  | .finite s m e =>
    if m = 0 then .finite s m e
    else if s then zero false
    else if magnitudeLt n 0 m e then ofNat n
    else .finite s m e
  | .infinite s => if s then zero false else ofNat n
  | .nan => .nan

def bitsOfMagnitude (m : Nat) (e : Int) : Nat :=
  if m < Nat.pow 2 52 then m else (e + 1075).toNat * Nat.pow 2 52 + (m - Nat.pow 2 52)

def infiniteBits : Nat := 2047 * Nat.pow 2 52

def toBits : Binary64 → Nat
  | .finite s m e => bitsOfMagnitude m e + (if s then Nat.pow 2 63 else 0)
  | .infinite s => infiniteBits + (if s then Nat.pow 2 63 else 0)
  | .nan => infiniteBits + Nat.pow 2 51

def ofBits (bits : Nat) : Binary64 :=
  let s := (bits / Nat.pow 2 63) % 2 == 1
  let biased : Nat := bits / Nat.pow 2 52 % 2048
  let fraction : Nat := bits % Nat.pow 2 52
  if biased = 2047 then (if fraction = 0 then .infinite s else .nan)
  else if biased = 0 then .finite s fraction leastExponent
  else .finite s (Nat.pow 2 52 + fraction) ((biased : Int) - 1075)

end Binary64
end QuotaDesk
