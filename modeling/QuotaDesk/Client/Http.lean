import QuotaDesk.Client.Basic

/-! HTTP/1.1 messages. A request closes its connection, and a reply is read
once the connection is closed: its body ends where its length or its last chunk
says, or with the connection. A body that breaks off has no reading. -/

namespace QuotaDesk.Client

structure Address where
  host : String
  port : Nat
  target : List UInt8
  deriving DecidableEq, Repr

def isTargetByte (b : UInt8) : Bool :=
  0x20 < b && b < 0x7F && !("\"<>`\x7b\x7d".toList.any fun c => c.toNat == b.toNat)

def targetByte (b : UInt8) : List UInt8 :=
  if isTargetByte b then [b]
  else Text.Utf8.encode ['%', Text.Percent.hexDigit (b.toNat / 16),
    Text.Percent.hexDigit (b.toNat % 16)]

def Address.ofUrl? (url : String) : Option Address :=
  (Text.after? "http://".toList url.toList).bind fun rest =>
    let (authority, path) := Text.cut '/' rest
    let (host, port) := Text.cut ':' authority
    let target := (Text.Utf8.encode ('/' :: path.getD [])).flatMap targetByte
    let port? := match port with
      | none => some 80
      | some digits => Text.Decimal.nat? digits
    port?.bind fun port =>
      if host.isEmpty || 65535 < port then none else some ⟨String.ofList host, port, target⟩

def crlf : List UInt8 := [0x0D, 0x0A]

def headerLine (name : String) (v : String) : List UInt8 :=
  Text.Utf8.encodeText (name ++ ": " ++ v) ++ crlf

def optionalHeader (name : String) (v : Option String) : List UInt8 :=
  match v with
  | some v => headerLine name v
  | none => []

def HttpRequest.bytes (r : HttpRequest) (a : Address) : List UInt8 :=
  let length :=
    if r.method = .get then none else some (Text.Decimal.ofNat r.body.length)
  Text.Utf8.encodeText (r.method.name ++ " ") ++ a.target ++
    Text.Utf8.encodeText " HTTP/1.1" ++ crlf ++
    headerLine "host" (a.host ++ ":" ++ Text.Decimal.ofNat a.port) ++
    headerLine "accept" "*/*" ++
    headerLine "connection" "close" ++
    optionalHeader "authorization" r.authorization ++
    optionalHeader "content-type" r.contentType ++
    optionalHeader "content-length" length ++ crlf ++ r.body

def cutLine : List UInt8 → Option (List UInt8 × List UInt8)
  | [] => none
  | 0x0D :: 0x0A :: rest => some ([], rest)
  | b :: rest => (cutLine rest).map fun (l, rest) => (b :: l, rest)

def headers (fuel : Nat) (bytes : List UInt8) :
    Option (List (String × String) × List UInt8) :=
  match fuel with
  | 0 => none
  | fuel + 1 =>
    (cutLine bytes).bind fun (l, rest) =>
      if l.isEmpty then some ([], rest)
      else
        let (name, v) := Text.cut ':' (Text.Utf8.decodeLossy l)
        let header := (String.ofList (name.map Char.toLower),
          Text.trim (String.ofList (v.getD [])))
        (headers fuel rest).map fun (hs, rest) => (header :: hs, rest)

def statusOfLine? (l : List UInt8) : Option Nat :=
  match Text.splitOn ' ' (Text.Utf8.decodeLossy l) with
  | version :: code :: _ =>
    if (Text.after? "HTTP/1.".toList version).isSome then Text.Decimal.nat? code else none
  | _ => none

def hexLength? (l : List UInt8) : Option Nat :=
  let digits := l.takeWhile fun b => (Text.Percent.hexValue? b).isSome
  if digits.isEmpty then none
  else digits.foldlM (fun n b => (Text.Percent.hexValue? b).map fun d => n * 16 + d) 0

def chunks (fuel : Nat) (bytes : List UInt8) : Option (List UInt8) :=
  match fuel with
  | 0 => none
  | fuel + 1 =>
    (cutLine bytes).bind fun (l, rest) =>
      (hexLength? l).bind fun n =>
        if n = 0 then some []
        else
          match Text.after? crlf (rest.drop n) with
          | some after => (chunks fuel after).map fun more => rest.take n ++ more
          | none => none

def replyBody (hs : List (String × String)) (bytes : List UInt8) : Option (List UInt8) :=
  if (hs.lookup "transfer-encoding").map (String.ofList ∘ List.map Char.toLower ∘ String.toList) =
      some "chunked" then chunks (bytes.length + 1) bytes
  else
    match hs.lookup "content-length" with
    | none => some bytes
    | some n =>
      (Text.Decimal.nat? n.toList).bind fun n =>
        if n ≤ bytes.length then some (bytes.take n) else none

def HttpReply.ofBytes? (bytes : List UInt8) : Option HttpReply := do
  let (first, rest) ← cutLine bytes
  let status ← statusOfLine? first
  let (hs, rest) ← headers (rest.length + 1) rest
  let body ← replyBody hs rest
  return ⟨status, body⟩

end QuotaDesk.Client
