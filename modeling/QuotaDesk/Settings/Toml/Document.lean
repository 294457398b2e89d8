import QuotaDesk.Settings.Toml.Scalar
import QuotaDesk.Settings.Toml.Item

/-! TOML files as layers of settings. Only the names at the top have a use as
settings, but the whole file has to be well formed and define nothing twice. -/

namespace QuotaDesk.Settings.Toml

def isBlank (c : Char) : Bool :=
  c == ' ' || c == '\t'

def skipBlanks (cs : List Char) : List Char :=
  cs.dropWhile isBlank

def skipComment (cs : List Char) : Option (List Char) :=
  match cs with
  | '#' :: rest =>
    let body := rest.takeWhile fun c => c != '\n' && c != '\r'
    if body.any isControl then none else some (rest.dropWhile fun c => c != '\n' && c != '\r')
  | cs => some cs

def lineEnd (cs : List Char) : Option (List Char) :=
  (skipComment (skipBlanks cs)).bind fun cs =>
    match cs with
    | [] => some []
    | '\n' :: rest => some rest
    | '\r' :: '\n' :: rest => some rest
    | _ => none

def skipLinesWithin (fuel : Nat) (cs : List Char) : List Char :=
  match fuel with
  | 0 => cs
  | fuel + 1 =>
    let cs := skipBlanks cs
    match cs with
    | '#' :: _ | '\n' :: _ | '\r' :: _ =>
      match lineEnd cs with
      | some rest => skipLinesWithin fuel rest
      | none => cs
    | cs => cs

def skipLines (cs : List Char) : List Char :=
  skipLinesWithin (cs.length + 1) cs

def isKeyChar (c : Char) : Bool :=
  c.isAlphanum || c == '_' || c == '-'

def name : Reader String
  | '"' :: rest => (lineText (rest.length + 1) '"' rest).map fun (s, r) => (String.ofList s, r)
  | '\'' :: rest => (lineText (rest.length + 1) '\'' rest).map fun (s, r) => (String.ofList s, r)
  | cs =>
    let s := cs.takeWhile isKeyChar
    if s.isEmpty then none else some (String.ofList s, cs.dropWhile isKeyChar)

def keyWithin (fuel : Nat) (cs : List Char) : Option (List String × List Char) :=
  match fuel with
  | 0 => none
  | fuel + 1 =>
    (name (skipBlanks cs)).bind fun (n, rest) =>
      match skipBlanks rest with
      | '.' :: rest => (keyWithin fuel rest).map fun (ns, rest) => (n :: ns, rest)
      | rest => some ([n], rest)

/-- How many names a key may have, and how many lists and tables in braces may
stand one inside another. -/
def maxNesting : Nat := 80

def key : Reader (List String) := fun cs =>
  (keyWithin (cs.length + 1) cs).filter fun k => k.1.length ≤ maxNesting

def isWordChar (c : Char) : Bool :=
  c.isAlphanum || c == '+' || c == '-' || c == '.' || c == '_' || c == ':'

def wordChars (cs : List Char) : List Char × List Char :=
  let word := cs.takeWhile isWordChar
  match Moment.ofChars? word, cs.dropWhile isWordChar with
  | some (.date _), ' ' :: rest =>
    let more := rest.takeWhile isWordChar
    if more.isEmpty then (word, ' ' :: rest) else (word ++ ' ' :: more, rest.dropWhile isWordChar)
  | _, rest => (word, rest)

def word : Reader Item := fun cs =>
  let (w, rest) := wordChars cs
  let item? :=
    if w = "true".toList then some (.single (.bool true))
    else if w = "false".toList then some (.single (.bool false))
    else
      match integer? w, real? w with
      | some n, _ => some (.single (.integer n))
      | none, some x => some (.single (.real x))
      | none, none => (Moment.ofChars? w).map .moment
  item?.map fun i => (i, rest)

mutual

def value (fuel depth : Nat) (cs : List Char) : Option (Item × List Char) :=
  match fuel with
  | 0 => none
  | fuel + 1 =>
    match cs with
    | '"' :: _ => (text '"' cs).map fun (s, rest) => (.single (.text s), rest)
    | '\'' :: _ => (text '\'' cs).map fun (s, rest) => (.single (.text s), rest)
    | '[' :: rest =>
      if depth = 0 then none
      else (items fuel (depth - 1) rest).map fun (is, rest) => (.list is, rest)
    | '\x7b' :: rest =>
      if depth = 0 then none
      else
        (members fuel (depth - 1) ⟨.braces, []⟩ rest).map fun (t, rest) => (t.item, rest)
    | cs => word cs

def items (fuel depth : Nat) (cs : List Char) : Option (List Item × List Char) :=
  match fuel with
  | 0 => none
  | fuel + 1 =>
    match skipLines cs with
    | ']' :: rest => some ([], rest)
    | cs =>
      (value fuel depth cs).bind fun (i, rest) =>
        match skipLines rest with
        | ',' :: rest => (items fuel depth rest).map fun (is, rest) => (i :: is, rest)
        | ']' :: rest => some ([i], rest)
        | _ => none

def members (fuel depth : Nat) (t : Table) (cs : List Char) : Option (Table × List Char) :=
  match fuel with
  | 0 => none
  | fuel + 1 =>
    match skipLines cs with
    | '\x7d' :: rest => some (t, rest)
    | cs =>
      (key cs).bind fun (names, rest) =>
        match skipLines rest with
        | '=' :: rest =>
          (value fuel depth (skipLines rest)).bind fun (i, rest) =>
            (t.put names i).bind fun t =>
              match skipLines rest with
              | ',' :: rest => members fuel depth t rest
              | '\x7d' :: rest => some (t, rest)
              | _ => none
        | _ => none

end

structure Document where
  root : Table := ⟨.header, []⟩
  header : List String := []

def header (d : Document) (cs : List Char) : Option (Document × List Char) :=
  match cs with
  | '[' :: rest =>
    match key rest with
    | some (names, ']' :: ']' :: rest) =>
      (d.root.atHeader Table.openNext names).map fun root => (⟨root, names⟩, rest)
    | _ => none
  | cs =>
    match key cs with
    | some (names, ']' :: rest) =>
      (d.root.atHeader Table.openNamed names).map fun root => (⟨root, names⟩, rest)
    | _ => none

def member (d : Document) (cs : List Char) : Option (Document × List Char) :=
  match key cs with
  | some (names, '=' :: rest) =>
    (value (rest.length + 1) maxNesting (skipBlanks rest)).bind fun (i, rest) =>
      (d.root.within false (Table.put names i) d.header).map fun root => (⟨root, d.header⟩, rest)
  | _ => none

def document (fuel : Nat) (d : Document) (cs : List Char) : Option Table :=
  match fuel with
  | 0 => none
  | fuel + 1 =>
    match skipLines cs with
    | [] => some d.root
    | '[' :: rest =>
      (header d rest).bind fun (d, rest) => (lineEnd rest).bind fun rest => document fuel d rest
    | cs =>
      (member d cs).bind fun (d, rest) => (lineEnd rest).bind fun rest => document fuel d rest

def withoutMark : List Char → List Char
  | '\uFEFF' :: rest => rest
  | cs => cs

end QuotaDesk.Settings.Toml

namespace QuotaDesk.Settings

def Layer.ofToml? (cs : List Char) : Option Layer :=
  let cs := Toml.withoutMark cs
  (Toml.document (cs.length + 1) {} cs).map Toml.Table.layer

end QuotaDesk.Settings
