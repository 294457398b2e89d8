import QuotaDesk.Json.Value

/-! Reading structures and their fields from JSON documents. A structure is a
record of named fields or the list of its fields in order. Names are matched
exactly, other names are ignored, and a field given twice has no reading. -/

namespace QuotaDesk.Wire

open Json (Tree)

def namedMembers? : List (Json.Quoted × Tree) → Option (List (String × Tree))
  | [] => some []
  | (name, t) :: rest =>
    match name.text?, namedMembers? rest with
    | some s, some named => some ((s, t) :: named)
    | _, _ => none

/-- The only member of a name, if there is one; `none` when it stands twice. -/
def member? (name : String) (members : List (String × Tree)) : Option (Option Tree) :=
  match members.filter fun m => m.1 == name with
  | [] => some none
  | [m] => some (some m.2)
  | _ => none

/-- The fields of a structure in the order of their names, absent ones as `none`.
A list may end early after its first `required` fields. -/
def fields? (names : List String) (required : Nat) : Tree → Option (List (Option Tree))
  | .record members =>
    (namedMembers? members).bind fun named => names.mapM fun name => member? name named
  | .list items =>
    if required ≤ items.length ∧ items.length ≤ names.length then
      some (items.map some ++ List.replicate (names.length - items.length) none)
    else none
  | _ => none

def nullable? {α : Type} (read : Tree → Option α) : Option Tree → Option (Option α)
  | none | some .null => some none
  | some t => (read t).map some

def defaulted? {α : Type} (default : α) (read : Tree → Option α) (field : Option Tree) :
    Option α :=
  (nullable? read field).map fun a => a.getD default

def bool? : Tree → Option Bool
  | .bool b => some b
  | _ => none

def text? : Tree → Option String
  | .text q => q.text?
  | _ => none

def integer? : Tree → Option Int
  | .number n => n.integer?
  | _ => none

def int64? (t : Tree) : Option Int64 :=
  (integer? t).bind fun k =>
    if Int64.minValue.toInt ≤ k ∧ k ≤ Int64.maxValue.toInt then some (Int64.ofInt k) else none

def word? (t : Tree) : Option UInt64 :=
  (integer? t).bind fun k => if 0 ≤ k then some (UInt64.ofNat k.toNat) else none

def items? {α : Type} (read : Tree → Option α) : Tree → Option (List α)
  | .list items => items.mapM read
  | _ => none

end QuotaDesk.Wire
