import QuotaDesk.Text.Split
import QuotaDesk.Text.Utf8

/-! Requests to the dashboard and its responses. -/

namespace QuotaDesk.Dashboard

structure Request where
  method : String
  target : String
  visitor : Option Nat := none
  contentType : Option String := none
  body : List UInt8 := []
  now : Nat := 0
  deriving DecidableEq, Repr

namespace Request

def afterHost? (target : List Char) : Option (List Char) :=
  match Text.cut ':' target with
  | (_, some ('/' :: '/' :: rest)) =>
    let place := rest.dropWhile fun c => c != '/' && c != '?'
    some (if place.head? == some '/' then place else '/' :: place)
  | _ => none

def address (r : Request) : List Char × Option (List Char) :=
  let target := (Text.cut '#' r.target.toList).1
  Text.cut '?' (if target.head? == some '/' then target else (afterHost? target).getD target)

def path (r : Request) : String :=
  String.ofList r.address.1

def query (r : Request) : List UInt8 :=
  Text.Utf8.encode (r.address.2.getD [])

def isHead (r : Request) : Bool :=
  r.method == "HEAD"

def formType : List Char := "application/x-www-form-urlencoded".toList

def isHeaderChar (c : Char) : Bool :=
  c == '\t' || (0x20 ≤ c.toNat && c.toNat < 0x7F)

def isForm (r : Request) : Bool :=
  match r.contentType with
  | none => false
  | some t => t.toList.all isHeaderChar && (Text.after? formType t.toList).isSome

end Request

structure Response where
  status : Nat
  contentType : Option String := none
  body : String := ""
  visitor : Option Nat := none
  deriving DecidableEq, Repr

namespace Response

def notFound : Response := ⟨404, none, "", none⟩
def wrongMethod : Response := ⟨405, none, "", none⟩

def plain (status : Nat) (text : String) : Response :=
  ⟨status, some "text/plain; charset=utf-8", text, none⟩

def page (markup : String) : Response :=
  ⟨200, some "text/html; charset=utf-8", markup, none⟩

def notForm : Response :=
  plain 415 "Form requests must have `Content-Type: application/x-www-form-urlencoded`"

def tooLarge : Response :=
  plain 413 "Failed to buffer the request body: length limit exceeded"

def repeatedQueryField (name : String) : Response :=
  plain 400 ("Failed to deserialize query string: duplicate field `" ++ name ++ "`")

def repeatedFormField (name : String) : Response :=
  plain 422 ("Failed to deserialize form body: duplicate field `" ++ name ++ "`")

def forHead (head : Bool) (r : Response) : Response :=
  if head then { r with body := "" } else r

end Response
end QuotaDesk.Dashboard
