import QuotaDesk.Text.Blank

/-! Addresses of the pages under the base path. -/

namespace QuotaDesk.Dashboard

/-- The base path alone keeps its closing slashes; before a suffix they are dropped. -/
def pathUnder (base suffix : String) : String :=
  if suffix.isEmpty then base
  else String.ofList (Text.dropEndWhile (· == '/') base.toList) ++ suffix

end QuotaDesk.Dashboard
