import QuotaDesk.Text.Split
import QuotaDesk.Text.Decimal
import QuotaDesk.Backup.Basic

/-! The command line: words, options and how they may be combined. Options
belong to the command they follow, a value follows its option as the next word
or after an equals sign, and after a double dash every word is an operand. -/

namespace QuotaDesk.CommandLine

inductive Level
  | root
  | query
  | sync
  | status
  | run
  | show
  | save
  deriving DecidableEq, Repr

inductive Kind
  | flag
  | text
  | number
  deriving DecidableEq, Repr

namespace Level

def options : Level → List (String × Kind)
  | .root => [("config-file", .text), ("demo", .flag)]
  | .query => [("page", .number)]
  | .save => [("token", .text), ("repo", .text), ("interval", .text)]
  | _ => []

def children : Level → List (String × Level)
  | .root => [("query", .query), ("sync", .sync)]
  | .sync => [("status", .status), ("run", .run), ("show", .show), ("save", .save)]
  | _ => []

def operands : Level → List String
  | .query => ["key"]
  | _ => []

def required : Level → List String
  | .query => ["key"]
  | .save => ["token", "repo"]
  | _ => []

def isGroup (l : Level) : Bool :=
  !l.children.isEmpty

end Level

inductive Usage
  | help
  | helpForMissing
  | missingCommand
  | missingArgument
  | unknownArgument
  | unknownCommand
  | repeatedArgument
  | unexpectedValue
  | missingValue
  | badValue
  deriving DecidableEq, Repr

/-- What has been read of one level. An option whose value is still open stays
pending, and is checked only when the next argument settles it. -/
structure Scan where
  found : List (String × String) := []
  pending : Option (String × Kind × Option String) := none
  trailing : Bool := false
  deriving DecidableEq, Repr

def pageNumber? (s : String) : Option UInt32 :=
  match Text.Decimal.signed? s.toList with
  | some n => if 0 ≤ n ∧ n < UInt32.size then some (UInt32.ofNat n.toNat) else none
  | none => none

def fits : Kind → String → Bool
  | .number, v => (pageNumber? v).isSome
  | _, _ => true

namespace Scan

def add (name : String) (kind : Kind) (v : String) (s : Scan) : Except Usage Scan :=
  if (s.found.lookup name).isSome then .error .repeatedArgument
  else if !fits kind v then .error .badValue
  else .ok { s with found := s.found ++ [(name, v)] }

def settle (s : Scan) : Except Usage Scan :=
  match s.pending with
  | none => .ok s
  | some (_, _, none) => .error .missingValue
  | some (name, kind, some v) => add name kind v { s with pending := none }

def isAwaiting (s : Scan) : Bool :=
  match s.pending with
  | some (_, _, none) => true
  | _ => false

def give (v : String) (s : Scan) : Scan :=
  { s with pending := s.pending.map fun p => (p.1, p.2.1, some v) }

end Scan

def longOption? (word : String) : Option (String × Option String) :=
  match word.toList with
  | '-' :: '-' :: c :: rest =>
    let (name, v) := Text.cut '=' (c :: rest)
    some (String.ofList name, v.map String.ofList)
  | _ => none

def shortOptions? (word : String) : Option (List Char) :=
  match word.toList with
  | '-' :: c :: rest => if c = '-' then none else some (c :: rest)
  | _ => none

def useHelp (v : Option String) (s : Scan) : Except Usage Scan :=
  match v with
  | some _ => .error .unexpectedValue
  | none => s.settle >>= fun _ => .error .help

def useLong (level : Level) (name : String) (v : Option String) (s : Scan) :
    Except Usage Scan :=
  if name = "help" then useHelp v s
  else
    match level.options.lookup name with
    | none => .error .unknownArgument
    | some .flag =>
      match v with
      | some _ => .error .unexpectedValue
      | none => s.settle >>= fun s => s.add name .flag ""
    | some kind =>
      s.settle >>= fun s =>
        match v with
        | some v => s.add name kind v
        | none => .ok { s with pending := some (name, kind, none) }

def useShort (letters : List Char) (s : Scan) : Except Usage Scan :=
  match letters with
  | 'h' :: _ => useHelp none s
  | _ => .error .unknownArgument

def surplus (level : Level) (word : String) (s : Scan) : Usage :=
  let known := (level.children.lookup word).isSome || word == "help"
  if level.isGroup && !(s.trailing && known) then .unknownCommand else .unknownArgument

def useOperand (level : Level) (word : String) (s : Scan) : Except Usage Scan :=
  match level.operands.filter fun name => (s.found.lookup name).isNone with
  | [] => .error (surplus level word s)
  | name :: _ => s.settle >>= fun s => s.add name .text word

def useHelpWords : Level → List String → Usage
  | _, [] => .help
  | level, word :: rest =>
    match level.children.lookup word with
    | some child => useHelpWords child rest
    | none => if level.isGroup && word == "help" && rest.isEmpty then .help else .unknownCommand

def finish (level : Level) (s : Scan) : Except Usage (Level × List (String × String)) :=
  s.settle >>= fun s =>
    if level.isGroup then .error (if s.found.isEmpty then .helpForMissing else .missingCommand)
    else if level.required.all fun name => (s.found.lookup name).isSome then
      .ok (level, s.found)
    else .error .missingArgument

def useWord (level : Level) (word : String) (s : Scan) : Except Usage Scan :=
  if s.trailing then useOperand level word s
  else if word = "--" then .ok { s with trailing := true }
  else
    match longOption? word, shortOptions? word with
    | some (name, v), _ => useLong level name v s
    | none, some letters => useShort letters s
    | none, none => if s.isAwaiting then .ok (s.give word) else useOperand level word s

/-- Reads the words of a level down to the command, which comes with everything
found on the way. The words of a command are checked before what its group
still has pending. -/
def scan (level : Level) (s : Scan) :
    List String → Except Usage (Level × List (String × String))
  | [] => finish level s
  | word :: rest =>
    let free := !s.trailing && !s.isAwaiting
    match if free then level.children.lookup word else none with
    | some child =>
      scan child {} rest >>= fun (leaf, found) =>
        s.settle >>= fun s => .ok (leaf, s.found ++ found)
    | none =>
      if free && level.isGroup && word == "help" then .error (useHelpWords level rest)
      else useWord level word s >>= fun s => scan level s rest

inductive Command
  | query (key : String) (page : UInt32)
  | status
  | run
  | show
  | save (c : Backup.Config)
  deriving DecidableEq, Repr

structure Arguments where
  configFile : String := "config"
  demo : Bool := false
  command : Command
  deriving DecidableEq, Repr

def command? (found : List (String × String)) : Level → Option Command
  | .query =>
    match found.lookup "page" with
    | none => some (.query ((found.lookup "key").getD "") 1)
    | some v => (pageNumber? v).map fun page => .query ((found.lookup "key").getD "") page
  | .status => some .status
  | .run => some .run
  | .show => some .show
  | .save =>
    some (.save ⟨(found.lookup "token").getD "", (found.lookup "repo").getD "",
      (found.lookup "interval").getD ""⟩)
  | .root | .sync => none

def Arguments.parse (words : List String) : Except Usage Arguments :=
  scan .root {} words >>= fun (leaf, found) =>
    match command? found leaf with
    | some command =>
      .ok ⟨(found.lookup "config-file").getD "config", (found.lookup "demo").isSome, command⟩
    | none => .error .missingCommand

end QuotaDesk.CommandLine
