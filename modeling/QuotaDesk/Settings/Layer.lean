import QuotaDesk.Json.Value
import QuotaDesk.Text.Split

/-! Where settings come from. A layer gives values to names, and of two values
for one name the later one counts. Names in the environment are read in lower
case. A name with dots or brackets reaches into a nested value. -/

namespace QuotaDesk.Settings

inductive Raw
  | nil
  | bool (b : Bool)
  | integer (n : Int)
  | real (x : Binary64)
  | text (s : String)
  | nested
  deriving DecidableEq, Repr

namespace Raw

def text? : Raw → Option String
  | .text s => some s
  | .bool b => some (if b then "true" else "false")
  | .integer n => some (Text.Decimal.ofInt n)
  | .real x => some x.plainText
  | .nil | .nested => none

def isYes (word : String) : Bool :=
  word == "true" || word == "on" || word == "yes"

def isNo (word : String) : Bool :=
  word == "false" || word == "off" || word == "no"

def lowerAscii (s : String) : String :=
  String.ofList (s.toList.map Char.toLower)

def roundReal : Binary64 → Nat
  | .finite true _ _ | .infinite true | .nan => 0
  | .infinite false => Json.wordBound - 1
  | .finite false m e =>
    let (num, den) := Binary64.ratio m e
    min ((2 * num + den) / (2 * den)) (Json.wordBound - 1)

def natOfText? (s : String) : Option Nat :=
  let word := lowerAscii s
  if isYes word then some 1
  else if isNo word then some 0
  else Text.Decimal.unsigned? s.toList

def nat? (bound : Nat) (r : Raw) : Option Nat :=
  let n? :=
    match r with
    | .integer n => if 0 ≤ n then some n.toNat else none
    | .bool b => some (if b then 1 else 0)
    | .real x => some (roundReal x)
    | .text s => natOfText? s
    | .nil | .nested => none
  n?.bind fun n => if n < bound then some n else none

def ofValue : Json.Value → Raw
  | .null => .nil
  | .bool b => .bool b
  | .integer n => .integer n
  | .real x => .real x
  | .text s => .text s
  | .list _ | .record _ => .nested

end Raw

abbrev Layer := List (String × Raw)

def isNameChar (c : Char) : Bool :=
  c.isAlphanum || c == '_' || c == '-'

inductive NamePlace
  | name (started : Bool)
  | opened
  | negative
  | index (below : Bool) (n : Nat)
  | ended
  | closed
  deriving DecidableEq, Repr

def isIndexBlank (c : Char) : Bool :=
  c == ' ' || c == '\t'

def fitsIndex (below : Bool) (n : Nat) : Bool :=
  if below then n ≤ Nat.pow 2 63 else n < Nat.pow 2 63

/-- A name goes on with `.name` and `[index]` steps. -/
def NamePlace.step? : NamePlace → Char → Option NamePlace
  | .name started, c =>
    if isNameChar c then some (.name true)
    else if started && c == '.' then some (.name false)
    else if started && c == '[' then some .opened
    else none
  | .opened, c =>
    if isIndexBlank c then some .opened
    else if c == '-' then some .negative
    else (Text.Decimal.digitValue? c).map (.index false)
  | .negative, c => (Text.Decimal.digitValue? c).map (.index true)
  | .index below n, c =>
    match Text.Decimal.digitValue? c with
    | some d => some (.index below (n * 10 + d))
    | none =>
      if !fitsIndex below n then none
      else if isIndexBlank c then some .ended
      else if c == ']' then some .closed
      else none
  | .ended, c => if isIndexBlank c then some .ended else if c == ']' then some .closed else none
  | .closed, c => if c == '.' then some (.name false) else if c == '[' then some .opened else none

def isPath (cs : List Char) : Bool :=
  match cs.foldlM NamePlace.step? (.name false) with
  | some (.name true) | some .closed => true
  | _ => false

def entry (name : String) (r : Raw) : String × Raw :=
  let cs := name.toList
  if isPath cs && !cs.all isNameChar then (String.ofList (cs.takeWhile isNameChar), .nested)
  else (name, r)

/-- The Kelvin sign is the one other character whose lower case is a plain letter. -/
def lowerChar (c : Char) : Char :=
  if c = '\u212A' then 'k' else c.toLower

def lowerName (name : String) : String :=
  String.ofList (name.toList.map lowerChar)

def Layer.ofEnvironment (env : List (String × String)) : Layer :=
  env.map fun v => entry (lowerName v.1) (.text v.2)

def Layer.ofJson? (bytes : List UInt8) : Option Layer :=
  match Json.Value.ofBytes? bytes with
  | some (.record members) => some (members.map fun m => entry m.1 (Raw.ofValue m.2))
  | _ => none

def Layer.get? (name : String) (l : Layer) : Option Raw :=
  l.reverse.lookup name

end QuotaDesk.Settings
