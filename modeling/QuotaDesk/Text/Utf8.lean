/-! UTF-8 over lists of bytes. `scan` reads any bytes: well-formed sequences
become characters and every ill-formed stretch becomes one `none`. A stretch
ends at the first byte that cannot continue it, and that byte starts anew. -/

namespace QuotaDesk.Text.Utf8

/-- What the next byte must be: anything, or a continuation byte within bounds
that completes a character after `left` further ones. -/
inductive Pending
  | fresh
  | more (left : Nat) (low high : UInt8) (value : Nat)
  deriving DecidableEq

def lead (b : UInt8) : Option (Char ⊕ Pending) :=
  let n := b.toNat
  if n < 0x80 then some (.inl (Char.ofNat n))
  else if n < 0xC2 then none
  else if n < 0xE0 then some (.inr (.more 0 0x80 0xBF (n - 0xC0)))
  else if n = 0xE0 then some (.inr (.more 1 0xA0 0xBF 0))
  else if n = 0xED then some (.inr (.more 1 0x80 0x9F 13))
  else if n < 0xF0 then some (.inr (.more 1 0x80 0xBF (n - 0xE0)))
  else if n = 0xF0 then some (.inr (.more 2 0x90 0xBF 0))
  else if n < 0xF4 then some (.inr (.more 2 0x80 0xBF (n - 0xF0)))
  else if n = 0xF4 then some (.inr (.more 2 0x80 0x8F 4))
  else none

def begin (b : UInt8) : Pending × List (Option Char) :=
  match lead b with
  | some (.inl c) => (.fresh, [some c])
  | some (.inr p) => (p, [])
  | none => (.fresh, [none])

def step : Pending → UInt8 → Pending × List (Option Char)
  | .fresh, b => begin b
  | .more left low high value, b =>
    if low ≤ b && b ≤ high then
      let value := value * 64 + (b.toNat - 0x80)
      match left with
      | 0 => (.fresh, [some (Char.ofNat value)])
      | left + 1 => (.more left 0x80 0xBF value, [])
    else
      let (p, out) := begin b
      (p, none :: out)

def scanFrom : Pending → List UInt8 → List (Option Char)
  | .fresh, [] => []
  | .more .., [] => [none]
  | p, b :: rest =>
    let (p, out) := step p b
    out ++ scanFrom p rest

def scan (bytes : List UInt8) : List (Option Char) :=
  scanFrom .fresh bytes

def decode? (bytes : List UInt8) : Option (List Char) :=
  (scan bytes).mapM id

def decodeLossy (bytes : List UInt8) : List Char :=
  (scan bytes).map fun c => c.getD '\uFFFD'

def encodeChar (c : Char) : List UInt8 :=
  let n := c.toNat
  let tail (k : Nat) : UInt8 := UInt8.ofNat (0x80 + n / Nat.pow 64 k % 64)
  if n < 0x80 then [UInt8.ofNat n]
  else if n < 0x800 then [UInt8.ofNat (0xC0 + n / 64), tail 0]
  else if n < 0x10000 then [UInt8.ofNat (0xE0 + n / 4096), tail 1, tail 0]
  else [UInt8.ofNat (0xF0 + n / 262144), tail 2, tail 1, tail 0]

def encode (cs : List Char) : List UInt8 :=
  cs.flatMap encodeChar

def encodeText (s : String) : List UInt8 :=
  encode s.toList

def decodeText? (bytes : List UInt8) : Option String :=
  (decode? bytes).map String.ofList

end QuotaDesk.Text.Utf8
