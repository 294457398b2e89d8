import QuotaDesk.Fault
import QuotaDesk.Quota.Display
import QuotaDesk.Ledger.Basic

/-! What the lookup of a key shows. -/

namespace QuotaDesk.Lookup

structure View where
  key : String := ""
  summary : Option Quota.Summary := none
  records : List Ledger.Record := []
  paging : Ledger.Paging := {}
  busy : Bool := false
  loadingHistory : Bool := false
  notice : Option Notice := none
  deriving DecidableEq, Repr

namespace View

def display (v : View) : Option Quota.Display :=
  v.summary.map Quota.Summary.display

def rows (v : View) : List Ledger.Row :=
  v.records.map Ledger.Record.row

end View
end QuotaDesk.Lookup
