import QuotaDesk.Json.Token

/-! JSON documents as written: strings keep their pieces, numbers their digits,
and records their members in order, repeated names included. A document nests
as deep as it likes. -/

namespace QuotaDesk.Json

inductive Tree
  | null
  | bool (b : Bool)
  | number (n : Numeral)
  | text (q : Quoted)
  | list (items : List Tree)
  | record (members : List (Quoted × Tree))
  deriving Repr

inductive Frame
  | items (before : List Tree)
  | members (before : List (Quoted × Tree)) (name : Quoted)

inductive Expect
  | value
  | firstItem
  | firstName
  | name (before : List (Quoted × Tree))
  | colon (before : List (Quoted × Tree)) (name : Quoted)
  | separator (done : Tree)

structure Position where
  stack : List Frame
  expect : Expect

namespace Position

def start : Position := ⟨[], .value⟩

def value? (stack : List Frame) : Token → Option Position
  | .null => some ⟨stack, .separator .null⟩
  | .bool b => some ⟨stack, .separator (.bool b)⟩
  | .number n => some ⟨stack, .separator (.number n)⟩
  | .text q => some ⟨stack, .separator (.text q)⟩
  | .openList => some ⟨stack, .firstItem⟩
  | .openRecord => some ⟨stack, .firstName⟩
  | _ => none

def after? (stack : List Frame) (t : Tree) : Token → Option Position
  | .comma =>
    match stack with
    | .items before :: outer => some ⟨.items (t :: before) :: outer, .value⟩
    | .members before name :: outer => some ⟨outer, .name ((name, t) :: before)⟩
    | [] => none
  | .closeList =>
    match stack with
    | .items before :: outer => some ⟨outer, .separator (.list (t :: before).reverse)⟩
    | _ => none
  | .closeRecord =>
    match stack with
    | .members before name :: outer =>
      some ⟨outer, .separator (.record ((name, t) :: before).reverse)⟩
    | _ => none
  | _ => none

def step? (p : Position) (token : Token) : Option Position :=
  match p.expect with
  | .value => value? p.stack token
  | .firstItem =>
    match token with
    | .closeList => some ⟨p.stack, .separator (.list [])⟩
    | token => value? (.items [] :: p.stack) token
  | .firstName =>
    match token with
    | .closeRecord => some ⟨p.stack, .separator (.record [])⟩
    | .text q => some ⟨p.stack, .colon [] q⟩
    | _ => none
  | .name before =>
    match token with
    | .text q => some ⟨p.stack, .colon before q⟩
    | _ => none
  | .colon before name =>
    match token with
    | .colon => some ⟨.members before name :: p.stack, .value⟩
    | _ => none
  | .separator t => after? p.stack t token

def done? (p : Position) : Option Tree :=
  match p.stack, p.expect with
  | [], .separator t => some t
  | _, _ => none

end Position

namespace Tree

def ofTokens? (tokens : List Token) : Option Tree :=
  (tokens.foldlM Position.step? Position.start).bind Position.done?

def parse? (bytes : List UInt8) : Option Tree :=
  (tokens? bytes).bind ofTokens?

mutual

def nesting : Tree → Nat
  | .list items => 1 + nestingItems items
  | .record members => 1 + nestingMembers members
  | _ => 0

def nestingItems : List Tree → Nat
  | [] => 0
  | t :: rest => max t.nesting (nestingItems rest)

def nestingMembers : List (Quoted × Tree) → Nat
  | [] => 0
  | (_, t) :: rest => max t.nesting (nestingMembers rest)

end

mutual

def isLegible : Tree → Bool
  | .number n => n.number?.isSome
  | .text q => q.text?.isSome
  | .list items => areLegibleItems items
  | .record members => areLegibleMembers members
  | _ => true

def areLegibleItems : List Tree → Bool
  | [] => true
  | t :: rest => t.isLegible && areLegibleItems rest

def areLegibleMembers : List (Quoted × Tree) → Bool
  | [] => true
  | (name, t) :: rest => name.text?.isSome && t.isLegible && areLegibleMembers rest

end

end Tree
end QuotaDesk.Json
