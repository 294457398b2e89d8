import QuotaDesk.Text.Utf8

/-! JSON strings. Between its quotes a string is a sequence of pieces: bytes
that stand for themselves, named escapes, and `\u` escapes that each give one
UTF-16 code unit. A string has a text when its surrogates pair up and its bytes
are UTF-8; the grammar alone asks for neither. -/

namespace QuotaDesk.Json

inductive Piece
  | byte (b : UInt8)
  | escaped (c : Char)
  | unit (u : Nat)
  deriving DecidableEq, Repr

abbrev Quoted := List Piece

namespace Quoted

def isHighSurrogate (u : Nat) : Bool := 0xD800 ≤ u && u < 0xDC00
def isLowSurrogate (u : Nat) : Bool := 0xDC00 ≤ u && u < 0xE000

def pairValue (high low : Nat) : Nat :=
  0x10000 + (high - 0xD800) * 0x400 + (low - 0xDC00)

def bytes? : Quoted → Option (List UInt8)
  | [] => some []
  | .byte b :: rest => (bytes? rest).map (b :: ·)
  | .escaped c :: rest => (bytes? rest).map (Text.Utf8.encodeChar c ++ ·)
  | .unit u :: rest =>
    if isHighSurrogate u then
      match rest with
      | .unit v :: rest =>
        if isLowSurrogate v then
          (bytes? rest).map (Text.Utf8.encodeChar (Char.ofNat (pairValue u v)) ++ ·)
        else none
      | _ => none
    else if isLowSurrogate u then none
    else (bytes? rest).map (Text.Utf8.encodeChar (Char.ofNat u) ++ ·)

def text? (q : Quoted) : Option String :=
  (bytes? q).bind Text.Utf8.decodeText?

end Quoted

def namedEscape? (b : UInt8) : Option Char :=
  match Char.ofNat b.toNat with
  | '"' => some '"'
  | '\\' => some '\\'
  | '/' => some '/'
  | 'b' => some '\x08'
  | 'f' => some '\x0c'
  | 'n' => some '\n'
  | 'r' => some '\r'
  | 't' => some '\t'
  | _ => none

def hexDigitLower (n : Nat) : Char :=
  if n < 10 then Char.ofNat (48 + n) else Char.ofNat (87 + n)

def quoteChar (c : Char) : List Char :=
  if c = '"' then ['\\', '"']
  else if c = '\\' then ['\\', '\\']
  else if c = '\x08' then ['\\', 'b']
  else if c = '\x0c' then ['\\', 'f']
  else if c = '\n' then ['\\', 'n']
  else if c = '\r' then ['\\', 'r']
  else if c = '\t' then ['\\', 't']
  else if c.toNat < 0x20 then
    ['\\', 'u', '0', '0', hexDigitLower (c.toNat / 16), hexDigitLower (c.toNat % 16)]
  else [c]

def quote (s : String) : List Char :=
  '"' :: (s.toList.flatMap quoteChar ++ ['"'])

end QuotaDesk.Json
