import QuotaDesk.Proofs.Dashboard.Markup
import QuotaDesk.Proofs.Html.Contents

/-! What can be read back from the pages of the dashboard: the values of their fields, their
notices, and the rows of the ledger. -/

namespace QuotaDesk.Dashboard

open Html (words words_of_ne_blank Adds AddsAll AddsInner InfoRow Page fields
  textsOfClass ledgerRows tags outline classOf)
open Html.Node (plain labelled shown)

end QuotaDesk.Dashboard
