import QuotaDesk.Text.Percent
import QuotaDesk.Text.Decimal
import QuotaDesk.Text.Blank
import QuotaDesk.Backup.Basic

/-! Fields of submitted forms and of query strings. A known field may stand
once, a missing one is empty, and unknown fields are ignored. -/

namespace QuotaDesk.Dashboard

def repeatedField? (known : List String) : List (String × String) → List String → Option String
  | [], _ => none
  | (name, _) :: rest, seen =>
    if known.contains name then
      if seen.contains name then some name else repeatedField? known rest (name :: seen)
    else repeatedField? known rest seen

def formFields (known : List String) (body : List UInt8) :
    Except String (List (String × String)) :=
  let pairs := Text.Percent.formPairs body
  match repeatedField? known pairs [] with
  | some name => .error name
  | none => .ok pairs

def fieldText (name : String) (fields : List (String × String)) : String :=
  (fields.lookup name).getD ""

def lookupFields : List String := ["key"]
def configFields : List String := ["token", "repo", "interval"]
def pageFields : List String := ["page"]

def formConfig (fields : List (String × String)) : Backup.Config :=
  Backup.Config.trimmed
    ⟨fieldText "token" fields, fieldText "repo" fields, fieldText "interval" fields⟩

def requestedPage? (fields : List (String × String)) : Option UInt32 :=
  match fields.lookup "page" with
  | none => none
  | some text =>
    match Text.Decimal.unsigned? (Text.trim text).toList with
    | some n => if n < UInt32.size then some (UInt32.ofNat n) else none
    | none => none

end QuotaDesk.Dashboard
