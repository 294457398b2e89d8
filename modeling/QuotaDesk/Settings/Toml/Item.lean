import QuotaDesk.Settings.Layer
import QuotaDesk.Settings.Toml.Moment

/-! What a TOML file defines. Every table remembers how it came to be, because
that decides what may still be added to it: a header opens a table once, a
dotted key adds to tables that no header has opened, and a table in braces is
closed at its brace. -/

namespace QuotaDesk.Settings.Toml

inductive Origin
  | header
  | implied
  | dotted
  | braces
  deriving DecidableEq, Repr

/-- What a name stands for. Of a list of tables that headers open, the last one
stands apart, since only it can be added to; it counts as opened by a header. -/
inductive Item
  | single (r : Raw)
  | moment (m : Moment)
  | list (items : List Item)
  | table (origin : Origin) (members : List (String × Item))
  | tables (earlier : List Item) (last : List (String × Item))
  deriving Repr

structure Table where
  origin : Origin
  members : List (String × Item) := []
  deriving Repr

namespace Table

def get? (name : String) (t : Table) : Option Item :=
  t.members.lookup name

def set (name : String) (item : Item) (t : Table) : Table :=
  if (t.get? name).isNone then { t with members := t.members ++ [(name, item)] }
  else { t with members := t.members.map fun m => if m.1 = name then (name, item) else m }

def item (t : Table) : Item :=
  .table t.origin t.members

/-- Changes the table at the end of a path and makes the missing ones on the
way. A dotted key passes through no table that a header has opened. -/
def within (dotted : Bool) (change : Table → Option Table) :
    List String → Table → Option Table
  | [], t => change t
  | name :: rest, t =>
    match t.get? name with
    | none =>
      (within dotted change rest ⟨if dotted then .dotted else .implied, []⟩).map fun u =>
        t.set name u.item
    | some (.table origin members) =>
      if origin = .braces || (dotted && origin = .header) then none
      else (within dotted change rest ⟨origin, members⟩).map fun u => t.set name u.item
    | some (.tables earlier last) =>
      (within dotted change rest ⟨.header, last⟩).map fun u =>
        t.set name (.tables earlier u.members)
    | some _ => none

def define (name : String) (item : Item) (t : Table) : Option Table :=
  if (t.get? name).isNone then some (t.set name item) else none

def defineDotted (name : String) (item : Item) (t : Table) : Option Table :=
  if t.origin = .header || t.origin = .braces then none
  else define name item { t with origin := .dotted }

def put (key : List String) (item : Item) (t : Table) : Option Table :=
  match key with
  | [] => none
  | [name] => define name item t
  | _ => (key.getLast?).bind fun name => within true (defineDotted name item) key.dropLast t

def openNamed (name : String) (t : Table) : Option Table :=
  match t.get? name with
  | none => some (t.set name (.table .header []))
  | some (.table .implied members) => some (t.set name (.table .header members))
  | some _ => none

def openNext (name : String) (t : Table) : Option Table :=
  match t.get? name with
  | none => some (t.set name (.tables [] []))
  | some (.tables earlier last) =>
    some (t.set name (.tables (earlier ++ [.table .header last]) []))
  | some _ => none

def atHeader (opening : String → Table → Option Table) (header : List String) (t : Table) :
    Option Table :=
  (header.getLast?).bind fun name => within false (opening name) header.dropLast t

end Table

def Item.raw : Item → Raw
  | .single r => r
  | .moment m => .text m.text
  | .list _ | .table .. | .tables .. => .nested

def Table.layer (t : Table) : Layer :=
  t.members.map fun m => entry m.1 m.2.raw

end QuotaDesk.Settings.Toml
