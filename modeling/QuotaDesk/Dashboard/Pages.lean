import QuotaDesk.Html.Page
import QuotaDesk.Lookup.View
import QuotaDesk.Backup.Locator
import QuotaDesk.Backup.Basic
import QuotaDesk.Dashboard.Path

/-! The three pages of the dashboard: home, lookup of a key and backup sync. -/

namespace QuotaDesk.Dashboard

open Html (Node Attribute InfoRow Breadcrumb Page)
open Html.Node (plain labelled)

def bannerOf (notice : Option Notice) : Option Html.Banner :=
  notice.map fun n => ⟨n.level.cssClass, n.message⟩

def breadcrumbs (base label : String) : List Breadcrumb :=
  [⟨"Quota Dashboard", some (pathUnder base "")⟩, ⟨label, none⟩]

def homePage (base service : String) : Page where
  title := "Quota Dashboard - Home"
  breadcrumbs := [⟨"Quota Dashboard", none⟩]
  info := [InfoRow.ofText "Service" service]
  subpages := [
    ⟨"Token Query", pathUnder base "/query", "Look up a key's quota and usage history"⟩,
    ⟨"GitHub Sync", pathUnder base "/sync", "Configure and run the GitHub backup sync"⟩]

def renderHome (base service : String) : String :=
  (homePage base service).render

def lookupForm (action key : String) (busy : Bool) : String :=
  "<form method=\"post\" action=\"" ++ Html.escape action ++
    "\"><input type=\"text\" name=\"key\" value=\"" ++ Html.escape key ++
    "\" placeholder=\"sk-...\" autocomplete=\"off\"> <button type=\"submit\"" ++
    (if busy then " disabled" else "") ++ ">Query</button></form>"

def usageRow : Option Quota.Gauge → InfoRow
  | some g => ⟨"Usage", Html.progressBar g.width g.text⟩
  | none => InfoRow.ofText "Usage" "-"

def displayRows (d : Quota.Display) : List InfoRow := [
  ⟨"Status", "<span class=\"" ++ d.status.cssClass ++ "\">" ++ d.status.label ++ "</span>"⟩,
  InfoRow.ofText "Total Quota" d.total,
  InfoRow.ofText "Used Quota" d.used,
  InfoRow.ofText "Remaining Quota" d.remaining,
  InfoRow.ofText "Expires" d.expires,
  usageRow d.gauge]

def ledgerHead : Node :=
  plain "tr" (["Time", "Model", "Prompt Tokens", "Completion Tokens", "Cost"].map (labelled "th"))

def ledgerRow (r : Ledger.Row) : Node :=
  plain "tr" ([r.time, r.model, Text.Decimal.ofNat r.promptTokens.toNat,
    Text.Decimal.ofNat r.completionTokens.toNat, r.cost].map (labelled "td"))

def ledgerTable (rows : List Ledger.Row) : Node :=
  if rows.isEmpty then labelled "p" "No usage records."
  else plain "table" [ledgerHead, .list (rows.map ledgerRow)]

def ledgerSection (links : String) (v : Lookup.View) : Node :=
  .fragment [
    labelled "h2" "Usage History",
    plain "p" [.text (Text.Decimal.ofNat v.paging.total.toNat), .text " records"],
    ledgerTable v.rows,
    .markup "div" [] links]

/-- Only a view with a summary shows a ledger, for which the links beside its page are needed. -/
def lookupContent? (path : String) (v : Lookup.View) : Option Node :=
  if v.display.isSome then
    (Html.pagingLinks? path v.paging.current v.paging.pageCount).map fun links =>
      ledgerSection links v
  else some .absent

def lookupPage (base : String) (v : Lookup.View) (content : Node) : Page where
  title := "Quota Dashboard - Token Query"
  breadcrumbs := breadcrumbs base "Token Query"
  links := [⟨"GitHub Sync", pathUnder base "/sync"⟩]
  banner := bannerOf v.notice
  info :=
    ⟨"Key", lookupForm (pathUnder base "/query") v.key v.busy⟩ ::
      ((v.display.map displayRows).getD [])
  content := content

def renderLookup? (base : String) (v : Lookup.View) : Option String :=
  (lookupContent? (pathUnder base "/query") v).map fun content =>
    (lookupPage base v content).render

def statusRows (c : Backup.Config) : Option Backup.Status → List InfoRow
  | none => [InfoRow.ofText "Sync" "status unavailable"]
  | some s =>
    [InfoRow.ofText "Sync" (if s.enabled then "enabled" else "not enabled"),
      InfoRow.ofText "Last Sync" (s.lastSync.getD "never synced")] ++
      if s.enabled then [InfoRow.ofText "Interval" (c.interval ++ " seconds")] else []

def repositoryText (repo : String) : String :=
  if Text.isBlankText repo then "-"
  else (Backup.repoSlug? repo).getD "invalid repository"

def fieldRow (label : String) (attributes : List Attribute) : Node :=
  plain "tr" [labelled "td" label, plain "td" [.void "input" attributes]]

def configForm (action : String) (c : Backup.Config) : Node :=
  .element "form" [.value "method" "post", .value "action" action] [
    plain "table" [
      fieldRow "GitHub Token" [.value "type" "password", .value "name" "token",
        .value "value" c.token, .value "autocomplete" "off"],
      fieldRow "Repository" [.value "type" "text", .value "name" "repo",
        .value "value" c.repo, .value "placeholder" "owner/repo"],
      fieldRow "Interval (seconds)" [.value "type" "text", .value "name" "interval",
        .value "value" c.interval]],
    .element "button" [.value "type" "submit"] [.text "Save"]]

def canRun (c : Backup.Config) (syncing : Bool) : Bool :=
  c.isComplete && !syncing

def runForm (action : String) (c : Backup.Config) (syncing : Bool) : Node :=
  .element "form" [.value "method" "post", .value "action" action] [
    .element "button" [.value "type" "submit", .flag "disabled" (!canRun c syncing)]
      [.text (if syncing then "Syncing..." else "Sync Now")]]

def completionHint (c : Backup.Config) : Node :=
  if c.isComplete then .absent
  else labelled "p" "Set the GitHub token and repository to enable manual sync."

def backupPage (base : String) (c : Backup.Config) (status : Option Backup.Status)
    (notice : Option Notice) (syncing : Bool) : Page where
  title := "Quota Dashboard - GitHub Sync"
  breadcrumbs := breadcrumbs base "GitHub Sync"
  links := [⟨"Token Query", pathUnder base "/query"⟩]
  banner := bannerOf notice
  info := statusRows c status ++ [InfoRow.ofText "Repository" (repositoryText c.repo)]
  content := .fragment [
    labelled "h2" "Configuration",
    configForm (pathUnder base "/sync/config") c,
    labelled "h2" "Manual Sync",
    runForm (pathUnder base "/sync/run") c syncing,
    completionHint c]

def renderBackup (base : String) (c : Backup.Config) (status : Option Backup.Status)
    (notice : Option Notice) (syncing : Bool) : String :=
  (backupPage base c status notice syncing).render

end QuotaDesk.Dashboard
