import QuotaDesk.Dashboard.Path
import QuotaDesk.Text.Split

/-! Which page a request asks for. The base path is a pattern: a name in braces
stands for the rest of a segment, which may be empty only in front of a slash,
and a doubled brace stands for the brace itself. Addresses are compared as they
are sent, without decoding. -/

namespace QuotaDesk.Dashboard

inductive Route
  | home
  | query
  | sync
  | config
  | run
  deriving DecidableEq, Repr

def Route.suffix : Route → String
  | .home => "/"
  | .query => "/query"
  | .sync => "/sync"
  | .config => "/sync/config"
  | .run => "/sync/run"

def Route.all : List Route :=
  [.home, .query, .sync, .config, .run]

inductive Action
  | home
  | showLookup
  | submitLookup
  | showSync
  | saveConfig
  | runSync
  deriving DecidableEq, Repr

def Route.action? (route : Route) (method : String) : Option Action :=
  if method = "GET" ∨ method = "HEAD" then
    match route with
    | .home => some .home
    | .query => some .showLookup
    | .sync => some .showSync
    | _ => none
  else if method = "POST" then
    match route with
    | .query => some .submitLookup
    | .config => some .saveConfig
    | .run => some .runSync
    | _ => none
  else none

inductive Part
  | char (c : Char)
  | capture
  deriving DecidableEq, Repr

def unescape : List Char → List (Char × Bool)
  | '\x7b' :: '\x7b' :: rest => ('\x7b', true) :: unescape rest
  | '\x7d' :: '\x7d' :: rest => ('\x7d', true) :: unescape rest
  | c :: rest => (c, false) :: unescape rest
  | [] => []

inductive Place
  | outside
  | opened
  | name
  | closed
  deriving DecidableEq, Repr

def parts? : Place → List (Char × Bool) → Option (List Part)
  | .outside, [] => some []
  | .closed, [] => some []
  | .opened, [] | .name, [] => none
  | .outside, (c, literal) :: rest =>
    if literal then (parts? .outside rest).map (.char c :: ·)
    else if c = '\x7d' then none
    else if c = '\x7b' then parts? .opened rest
    else (parts? .outside rest).map (.char c :: ·)
  | .opened, (c, _) :: rest => if c = '\x7d' ∨ c = '*' then none else parts? .name rest
  | .name, (c, literal) :: rest =>
    if c = '\x7d' then
      if literal then parts? .name rest else (parts? .closed rest).map (.capture :: ·)
    else if c = '*' ∨ c = '/' then none
    else parts? .name rest
  | .closed, (c, _) :: rest =>
    if c = '/' then (parts? .outside rest).map (.char c :: ·) else none

def startsWithMark (segment : List Char) : Bool :=
  segment.head? == some ':' || segment.head? == some '*'

/-- Captures are told apart by single letters, the last of which stays free. -/
def maxCaptures : Nat := 25

/-- The pattern of a base path: it starts with a slash, no segment starts with a
colon or a star, and the captures are not too many. -/
def basePattern? (base : String) : Option (List Part) :=
  if base.toList.head? ≠ some '/' then none
  else if (Text.splitOn '/' base.toList).any startsWithMark then none
  else (parts? .outside (unescape base.toList)).filter fun parts =>
    parts.count .capture ≤ maxCaptures

def literal (cs : List Char) : List Part :=
  cs.map .char

/-- The pattern of a route under a base. A closing slash of the base is the
first one of the route, and the home page of a longer base is the base itself. -/
def joined (base : List Part) (suffix : String) : List Part :=
  if base = [.char '/'] then literal suffix.toList
  else if base.getLast? = some (.char '/') then base ++ literal (suffix.toList.drop 1)
  else if suffix = "/" then base
  else base ++ literal suffix.toList

def matchesFrom : List Part → List Char → Bool
  | [], path => path.isEmpty
  | .char c :: parts, path =>
    match path with
    | d :: rest => c == d && matchesFrom parts rest
    | [] => false
  | .capture :: parts, path => !path.isEmpty && matchesFrom parts (path.dropWhile (· != '/'))

structure Base where
  path : String
  pattern : List Part
  valid : basePattern? path = some pattern

def Base.ofPath? (path : String) : Option Base :=
  match h : basePattern? path with
  | some pattern => some ⟨path, pattern, h⟩
  | none => none

def Base.route? (base : Base) (path : String) : Option Route :=
  Route.all.find? fun r => matchesFrom (joined base.pattern r.suffix) path.toList

inductive Routing
  | found (a : Action)
  | wrongMethod
  | notFound
  deriving DecidableEq, Repr

def Base.resolve (base : Base) (method path : String) : Routing :=
  match base.route? path with
  | none => .notFound
  | some r =>
    match r.action? method with
    | some a => .found a
    | none => .wrongMethod

end QuotaDesk.Dashboard
