import QuotaDesk.Quota.Amount
import QuotaDesk.Quota.Time

/-! The usage ledger of a key and its pages. -/

namespace QuotaDesk.Ledger

structure Record where
  time : Int64 := 0
  model : String := ""
  promptTokens : UInt64 := 0
  completionTokens : UInt64 := 0
  cost : Option Int64 := none
  deriving DecidableEq, Repr

structure Page where
  records : List Record := []
  total : UInt64 := 0
  deriving DecidableEq, Repr

structure Row where
  time : String
  model : String
  promptTokens : UInt64
  completionTokens : UInt64
  cost : String
  deriving DecidableEq, Repr

def Record.row (r : Record) : Row :=
  ⟨Quota.secondsText r.time, r.model, r.promptTokens, r.completionTokens,
    Quota.amountText r.cost⟩

def pageSize : UInt32 := 10

structure Paging where
  current : UInt32 := 1
  size : UInt32 := pageSize
  total : UInt64 := 0
  deriving DecidableEq, Repr

namespace Paging

def perPage (p : Paging) : Nat :=
  max p.size.toNat 1

def pageCount (p : Paging) : Nat :=
  (p.total.toNat + (p.perPage - 1)) / p.perPage

def hasPrevious (p : Paging) : Bool :=
  1 < p.current

def hasNext (p : Paging) : Bool :=
  p.current.toNat < p.pageCount

/-- The first page can always be asked for, even of an empty ledger. -/
def accepts (p : Paging) (page : UInt32) : Bool :=
  page == 1 || (1 < page && page.toNat ≤ p.pageCount)

end Paging
end QuotaDesk.Ledger
