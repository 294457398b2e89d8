import QuotaDesk.Json.Quoted
import QuotaDesk.Json.Number
import QuotaDesk.Text.Percent

/-! JSON tokens. Blanks between tokens are space, tab, line feed and carriage
return. A word or a numeral is a longest run of bytes that are neither blank
nor punctuation nor a quote. -/

namespace QuotaDesk.Json

inductive Token
  | openList
  | closeList
  | openRecord
  | closeRecord
  | comma
  | colon
  | null
  | bool (b : Bool)
  | number (n : Numeral)
  | text (q : Quoted)
  deriving DecidableEq, Repr

def isSpace (b : UInt8) : Bool :=
  b == 0x20 || b == 0x09 || b == 0x0A || b == 0x0D

def punctuation? (b : UInt8) : Option Token :=
  match Char.ofNat b.toNat with
  | '[' => some .openList
  | ']' => some .closeList
  | '\x7b' => some .openRecord
  | '\x7d' => some .closeRecord
  | ',' => some .comma
  | ':' => some .colon
  | _ => none

def atom? (bytes : List UInt8) : Option Token :=
  if bytes == Text.Utf8.encodeText "null" then some .null
  else if bytes == Text.Utf8.encodeText "true" then some (.bool true)
  else if bytes == Text.Utf8.encodeText "false" then some (.bool false)
  else (Numeral.ofBytes? bytes).map .number

inductive Reading
  | between
  | atom (seen : List UInt8)
  | quoted (seen : List Piece)
  | escape (seen : List Piece)
  | unit (seen : List Piece) (left value : Nat)
  deriving DecidableEq, Repr

def atRest (b : UInt8) : Reading × List Token :=
  if isSpace b then (.between, [])
  else
    match punctuation? b with
    | some t => (.between, [t])
    | none => if b == 0x22 then (.quoted [], []) else (.atom [b], [])

def endsAtom (b : UInt8) : Bool :=
  isSpace b || (punctuation? b).isSome || b == 0x22

def Reading.step : Reading → UInt8 → Option (Reading × List Token)
  | .between, b => some (atRest b)
  | .atom seen, b =>
    if endsAtom b then
      (atom? seen.reverse).map fun t =>
        let (next, out) := atRest b
        (next, t :: out)
    else some (.atom (b :: seen), [])
  | .quoted seen, b =>
    if b == 0x22 then some (.between, [.text seen.reverse])
    else if b == 0x5C then some (.escape seen, [])
    else if b < 0x20 then none
    else some (.quoted (.byte b :: seen), [])
  | .escape seen, b =>
    if b == 0x75 then some (.unit seen 4 0, [])
    else (namedEscape? b).map fun c => (.quoted (.escaped c :: seen), [])
  | .unit seen left value, b =>
    (Text.Percent.hexValue? b).map fun d =>
      let value := value * 16 + d
      if left ≤ 1 then (.quoted (.unit value :: seen), []) else (.unit seen (left - 1) value, [])

def Reading.finish? : Reading → Option (List Token)
  | .between => some []
  | .atom seen => (atom? seen.reverse).map ([·])
  | _ => none

def tokensFrom : Reading → List Token → List UInt8 → Option (List Token)
  | r, done, [] => r.finish?.map fun last => done.reverse ++ last
  | r, done, b :: rest =>
    match r.step b with
    | none => none
    | some (r, out) => tokensFrom r (out.reverse ++ done) rest

def tokens? (bytes : List UInt8) : Option (List Token) :=
  tokensFrom .between [] bytes

end QuotaDesk.Json
