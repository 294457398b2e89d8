import QuotaDesk.Quota.Summary
import QuotaDesk.Quota.Amount
import QuotaDesk.Quota.Time

/-! A summary as it is shown. -/

namespace QuotaDesk.Quota

structure Display where
  status : Status
  total : String
  used : String
  remaining : String
  expires : String
  gauge : Option Gauge
  deriving DecidableEq, Repr

def Summary.display (s : Summary) : Display where
  status := s.status
  total := limitText s.total s.unlimited
  used := amountText s.used
  remaining := limitText s.remaining s.unlimited
  expires := expiryText s.expiry
  gauge := if s.unlimited then none else (usagePercent s.used s.total).map Gauge.ofPercent

end QuotaDesk.Quota
