import QuotaDesk.Main
import QuotaDesk.Proofs.Backup.DemoStore
import QuotaDesk.Proofs.Backup.Locator
import QuotaDesk.Proofs.Backup.Refusals
import QuotaDesk.Proofs.Client.Requests
import QuotaDesk.Proofs.CommandLine.Conversation
import QuotaDesk.Proofs.CommandLine.Failing
import QuotaDesk.Proofs.CommandLine.Query
import QuotaDesk.Proofs.CommandLine.Secrets
import QuotaDesk.Proofs.Dashboard.Links
import QuotaDesk.Proofs.Dashboard.PagingLinks
import QuotaDesk.Proofs.Dashboard.ReadBack
import QuotaDesk.Proofs.Dashboard.RunButton
import QuotaDesk.Proofs.Dashboard.Sessions
import QuotaDesk.Proofs.Dashboard.StatusReads
import QuotaDesk.Proofs.Html.Entities
import QuotaDesk.Proofs.Ledger.Pages
import QuotaDesk.Proofs.Lookup.NewestLookup
import QuotaDesk.Proofs.Lookup.NewestPage
import QuotaDesk.Proofs.Lookup.Notices
import QuotaDesk.Proofs.Lookup.Outcomes
import QuotaDesk.Proofs.Lookup.Requests
import QuotaDesk.Proofs.Lookup.ShownPage
import QuotaDesk.Proofs.Lookup.Verdict
import QuotaDesk.Proofs.Quota.Amount
import QuotaDesk.Proofs.Quota.Time
import QuotaDesk.Proofs.Settings.Sources
import QuotaDesk.Proofs.Wire.Options
import QuotaDesk.Proofs.Wire.Rewording
import QuotaDesk.Proofs.Wire.RoundTrip
import QuotaDesk.Proofs.Wire.StatusCode
