import QuotaDesk.Json.Tree
import QuotaDesk.Binary64.Shortest

/-! JSON values by meaning, and their compact text. A record may embed a whole
document as a text, and then means what that document means. -/

namespace QuotaDesk.Json

inductive Value
  | null
  | bool (b : Bool)
  | integer (n : Int)
  | real (x : Binary64)
  | text (s : String)
  | list (items : List Value)
  | record (members : List (String × Value))
  deriving Repr

namespace Value

def insertMember (name : String) (v : Value) : List (String × Value) → List (String × Value)
  | [] => [(name, v)]
  | (other, w) :: rest =>
    if name < other then (name, v) :: (other, w) :: rest
    else if name = other then (name, v) :: rest
    else (other, w) :: insertMember name v rest

def sortMembers (members : List (String × Value)) : List (String × Value) :=
  members.foldl (fun sorted m => insertMember m.1 m.2 sorted) []

/-- The name that marks a record as standing for the document in its text. -/
def embeddingMark : String := "$serde_json::private::RawValue"

def isMarked : List (Quoted × Tree) → Bool
  | (name, _) :: _ => name.text? == some embeddingMark
  | [] => false

def embeddedText? : List (Quoted × Tree) → Option String
  | [(_, .text q)] => q.text?
  | _ => none

mutual

/-- The meaning of a document; `none` when a string has no text or a number
overflows. `read` gives the meaning of an embedded text. -/
def ofTreeWith (read : String → Option Value) : Tree → Option Value
  | .null => some .null
  | .bool b => some (.bool b)
  | .number n =>
    n.number?.map fun
      | .integer k => .integer k
      | .real x => .real x
  | .text q => q.text?.map .text
  | .list items => (ofItemsWith read items).map .list
  | .record members =>
    if isMarked members then (embeddedText? members).bind read
    else (ofMembersWith read members).map fun ms => .record (sortMembers ms)

def ofItemsWith (read : String → Option Value) : List Tree → Option (List Value)
  | [] => some []
  | t :: rest =>
    match ofTreeWith read t, ofItemsWith read rest with
    | some v, some vs => some (v :: vs)
    | _, _ => none

def ofMembersWith (read : String → Option Value) :
    List (Quoted × Tree) → Option (List (String × Value))
  | [] => some []
  | (name, t) :: rest =>
    match name.text?, ofTreeWith read t, ofMembersWith read rest with
    | some s, some v, some ms => some ((s, v) :: ms)
    | _, _, _ => none

end

def documentNesting : Nat := 127

/-- The meaning of a whole document with at most `layers` documents one inside
another, itself counted. -/
def ofBytesWithin : Nat → List UInt8 → Option Value
  | 0, _ => none
  | layers + 1, bytes =>
    (Tree.parse? bytes).bind fun t =>
      if documentNesting < t.nesting then none
      else ofTreeWith (fun s => ofBytesWithin layers (Text.Utf8.encodeText s)) t

def ofBytes? (bytes : List UInt8) : Option Value :=
  ofBytesWithin (bytes.length + 1) bytes

def ofTree? : Tree → Option Value :=
  ofTreeWith fun s => ofBytes? (Text.Utf8.encodeText s)

mutual

def print : Value → List Char
  | .null => "null".toList
  | .bool b => (if b then "true" else "false").toList
  | .integer n => (Text.Decimal.ofInt n).toList
  | .real x => x.jsonText.toList
  | .text s => quote s
  | .list items => '[' :: printItems items
  | .record members => '\x7b' :: printMembers members

def printItems : List Value → List Char
  | [] => [']']
  | [v] => print v ++ [']']
  | v :: w :: rest => print v ++ ',' :: printItems (w :: rest)

def printMembers : List (String × Value) → List Char
  | [] => ['\x7d']
  | [(name, v)] => quote name ++ ':' :: print v ++ ['\x7d']
  | (name, v) :: m :: rest => quote name ++ ':' :: print v ++ ',' :: printMembers (m :: rest)

end

def compact (v : Value) : String :=
  String.ofList (print v)

def option {α : Type} (write : α → Value) : Option α → Value
  | none => .null
  | some a => write a

end Value
end QuotaDesk.Json
