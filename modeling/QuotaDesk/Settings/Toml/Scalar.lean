import QuotaDesk.Settings.Layer
import QuotaDesk.Text.Percent

/-! Strings and numbers of a TOML file. A reader takes characters off the front
and returns the rest. -/

namespace QuotaDesk.Settings.Toml

abbrev Reader (α : Type) : Type :=
  List Char → Option (α × List Char)

def isControl (c : Char) : Bool :=
  (c.toNat < 0x20 && c != '\t') || c.toNat == 0x7F

def hexValue? (cs : List Char) : Option Nat :=
  cs.foldlM (fun n c =>
    if c.toNat < 0x80 then
      (Text.Percent.hexValue? (UInt8.ofNat c.toNat)).map fun d => n * 16 + d
    else none) 0

def scalarChar? (n : Nat) : Option Char :=
  if n.isValidChar then some (Char.ofNat n) else none

def codePoint (width : Nat) : Reader Char := fun cs =>
  if cs.length < width then none
  else ((hexValue? (cs.take width)).bind scalarChar?).map fun c => (c, cs.drop width)

def escape : Reader Char
  | 'x' :: rest => codePoint 2 rest
  | 'u' :: rest => codePoint 4 rest
  | 'U' :: rest => codePoint 8 rest
  | 'e' :: rest => some ('\x1b', rest)
  | 'b' :: rest => some ('\x08', rest)
  | 't' :: rest => some ('\t', rest)
  | 'n' :: rest => some ('\n', rest)
  | 'f' :: rest => some ('\x0c', rest)
  | 'r' :: rest => some ('\r', rest)
  | '"' :: rest => some ('"', rest)
  | '\\' :: rest => some ('\\', rest)
  | _ => none

def lineText (fuel : Nat) (quote : Char) (cs : List Char) : Option (List Char × List Char) :=
  match fuel, cs with
  | 0, _ | _, [] => none
  | fuel + 1, c :: rest =>
    if c = quote then some ([], rest)
    else if isControl c then none
    else if c = '\\' && quote = '"' then
      (escape rest).bind fun (e, rest) =>
        (lineText fuel quote rest).map fun (s, rest) => (e :: s, rest)
    else (lineText fuel quote rest).map fun (s, rest) => (c :: s, rest)

def dropBlankLines : List Char → List Char
  | ' ' :: rest => dropBlankLines rest
  | '\t' :: rest => dropBlankLines rest
  | '\n' :: rest => dropBlankLines rest
  | '\r' :: '\n' :: rest => dropBlankLines rest
  | cs => cs

def foldedLine? (cs : List Char) : Option (List Char) :=
  match cs.dropWhile fun c => c == ' ' || c == '\t' with
  | '\n' :: rest => some (dropBlankLines rest)
  | '\r' :: '\n' :: rest => some (dropBlankLines rest)
  | _ => none

/-- The rest of a string of several lines up to its three closing quotes, which
one or two quotes of its own may precede. Line ends are kept as they are. -/
def blockText (fuel : Nat) (quote : Char) (cs : List Char) : Option (List Char × List Char) :=
  match fuel, cs with
  | 0, _ | _, [] => none
  | fuel + 1, c :: rest =>
    if c = quote then
      let run := (cs.takeWhile (· == quote)).length
      if 5 < run then none
      else if 3 ≤ run then some (List.replicate (run - 3) quote, cs.drop run)
      else
        (blockText fuel quote (cs.drop run)).map fun (s, rest) =>
          (List.replicate run quote ++ s, rest)
    else if c = '\r' then
      match rest with
      | '\n' :: rest => (blockText fuel quote rest).map fun (s, rest) => ('\r' :: '\n' :: s, rest)
      | _ => none
    else if isControl c && c != '\n' then none
    else if c = '\\' && quote = '"' then
      match foldedLine? rest with
      | some rest => blockText fuel quote rest
      | none =>
        (escape rest).bind fun (e, rest) =>
          (blockText fuel quote rest).map fun (s, rest) => (e :: s, rest)
    else (blockText fuel quote rest).map fun (s, rest) => (c :: s, rest)

def dropFirstBreak : List Char → List Char
  | '\n' :: rest => rest
  | '\r' :: '\n' :: rest => rest
  | cs => cs

def text (quote : Char) : Reader String := fun cs =>
  let read :=
    match Text.after? [quote, quote, quote] cs with
    | some rest => blockText (cs.length + 1) quote (dropFirstBreak rest)
    | none => lineText (cs.length + 1) quote (cs.drop 1)
  read.map fun (s, rest) => (String.ofList s, rest)

def ungroup (cs : List Char) : Option (List Char) :=
  let groups := Text.splitOn '_' cs
  if groups.any List.isEmpty then none else some groups.flatten

def digitsIn (base : Nat) (cs : List Char) : Option Nat :=
  (ungroup cs).bind fun cs =>
    cs.foldlM (fun n c =>
      (hexValue? [c]).bind fun d => if d < base then some (n * base + d) else none) 0

def cutSign : List Char → Bool × List Char
  | '-' :: rest => (true, rest)
  | '+' :: rest => (false, rest)
  | cs => (false, cs)

def whole? (cs : List Char) : Option Nat :=
  if cs.head? == some '0' && 1 < cs.length then none else digitsIn 10 cs

def integer? (word : List Char) : Option Int :=
  let n? : Option Int :=
    match word with
    | '0' :: 'x' :: cs => (digitsIn 16 cs).map Int.ofNat
    | '0' :: 'o' :: cs => (digitsIn 8 cs).map Int.ofNat
    | '0' :: 'b' :: cs => (digitsIn 2 cs).map Int.ofNat
    | _ =>
      let (negative, cs) := cutSign word
      (whole? cs).map fun n => if negative then -(n : Int) else n
  n?.bind fun n => if -(Nat.pow 2 63) ≤ n ∧ n < Nat.pow 2 63 then some n else none

def scaled (negative : Bool) (n : Nat) (k : Int) : Binary64 :=
  if 0 ≤ k then Binary64.ofRatio negative (n * Nat.pow 10 k.toNat) 1
  else Binary64.ofRatio negative n (Nat.pow 10 (-k).toNat)

/-- Exponents past this size give zero or infinity in any case. -/
def exponentLimit : Nat := 100000

def finite? : Binary64 → Option Binary64
  | .infinite _ => none
  | x => some x

def real? (word : List Char) : Option Binary64 :=
  let (negative, cs) := cutSign word
  if cs = "inf".toList then some (.infinite negative)
  else if cs = "nan".toList then some .nan
  else
    let (mantissa, exponent) := Text.cut 'e' (cs.map fun c => if c = 'E' then 'e' else c)
    let (front, fraction) := Text.cut '.' mantissa
    if fraction.isNone && exponent.isNone then none
    else do
      let n ← whole? front
      let digits ← match fraction with
        | some f => ungroup f
        | none => some []
      let m ← digitsIn 10 (if digits.isEmpty then ['0'] else digits)
      let k ← match exponent with
        | none => some 0
        | some e =>
          let (below, e) := cutSign e
          (digitsIn 10 e).map fun k => if below then -(min k exponentLimit : Int) else min k exponentLimit
      finite? (scaled negative (n * Nat.pow 10 digits.length + m) (k - digits.length))

end QuotaDesk.Settings.Toml
