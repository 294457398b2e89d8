import QuotaDesk.Proofs.Dashboard.ReadBack

/-! The tables of the backup page as they are read back, and in them the rows that tell the status
of the backup. -/

namespace QuotaDesk.Dashboard

open Html (cellRows tags Tag Page InfoRow Reading reader_inner_escape)
open Html.Node (shown visit visitItems reader plain labelled link)

section Parts

variable (afterText : Bool) (r : Reading)

end Parts

section Rows

variable {r : Reading} {rows : List (List String)}

end Rows

end QuotaDesk.Dashboard
