import QuotaDesk.Proofs.Dashboard.Addresses
import QuotaDesk.Proofs.Dashboard.Markup
import QuotaDesk.Proofs.Html.Targets

/-! The links and forms of the pages. Each of them is routed to what its label names, under every
base path without captures that ends in one slash or none. -/

namespace QuotaDesk.Dashboard

open Html (Target Leads LeadsAll LeadsInner InfoRow Page targets tags pagingTargets buttonText)
open Html.Node (plain labelled shown visit visitItems)

theorem leads_lookupFormNode (action key : String) (busy : Bool) :
    Leads (lookupFormNode action key busy) [.form "post" "Query" action] := by
  have hbutton : Leads (.element "button" [.value "type" "submit", .flag "disabled" busy]
      [.text "Query"]) [] := .element (by decide) (.skip (.text "Query") .nil)
  refine .form (.skip (.void (by decide) _) (.skip (.text " ") (.skip hbutton .nil))) (fun r => ?_) _ _
  simp [visit, visitItems, buttonText]
  rfl

theorem leadsInner_ofText (label s : String) : LeadsInner (InfoRow.ofText label s).value [] :=
  Html.leadsInner_escape s

theorem leadsInner_displayRows (d : Quota.Display) :
    ∀ row ∈ displayRows d, LeadsInner row.value [] := by
  have hstatus : LeadsInner
      ("<span class=\"" ++ d.status.cssClass ++ "\">" ++ d.status.label ++ "</span>") [] := by
    rw [status_eq]
    exact .of_render (proper_statusNode d.status) (.element (by decide) (.skip (.text _) .nil))
  have husage : LeadsInner (usageRow d.gauge).value [] := by
    cases d.gauge with
    | none => exact leadsInner_ofText "Usage" "-"
    | some g => exact Html.leadsInner_progressBar g.width g.text
  simp [displayRows, leadsInner_ofText, hstatus, husage]

theorem leads_infoNodes {info : List InfoRow} (h : ∀ row ∈ info, LeadsInner row.value []) :
    LeadsAll (info.map Page.infoNode) [] := by
  refine .still (List.forall_mem_map.mpr fun row hrow => ?_)
  exact Page.leads_infoNode (h row hrow)

theorem leads_cells (texts : List String) {tag : String}
    (ht : Html.Staying tag ∧ Html.Staying ("/" ++ tag)) :
    Leads (plain "tr" (texts.map (labelled tag))) [] :=
  .element (by decide) (.still (List.forall_mem_map.mpr fun text _ => .labelled ht text))

theorem leads_ledgerTable (rows : List Ledger.Row) : Leads (ledgerTable rows) [] := by
  unfold ledgerTable
  split
  · exact .labelled (by decide) _
  · have hrow (r : Ledger.Row) : Leads (ledgerRow r) [] := leads_cells _ (by decide)
    have hrows : LeadsAll (rows.map ledgerRow) [] :=
      .still (List.forall_mem_map.mpr fun r _ => hrow r)
    exact .element (by decide) (.skip (leads_cells _ (by decide)) (.skip (.list hrows) .nil))

theorem leads_ledgerSection {path links : String} {v : Lookup.View}
    (h : Html.pagingLinks? path v.paging.current v.paging.pageCount = some links) :
    Leads (ledgerSection links v) (pagingTargets path v.paging.current v.paging.pageCount) := by
  have hcount : Leads (plain "p" [.text (Text.Decimal.ofNat v.paging.total.toNat), .text " records"])
      [] := .element (by decide) (.skip (.text _) (.skip (.text _) .nil))
  have hpaging : Leads (.markup "div" [] links) _ :=
    .markup (by decide) (Html.leadsInner_pagingLinks h)
  exact .fragment (.skip (.labelled (by decide) _) (.skip hcount
    (.skip (leads_ledgerTable v.rows) (.singleton hpaging))))

theorem targets_renderHome (base service : String) :
    targets (tags (renderHome base service)) =
      [.link "Token Query" (pathUnder base "/query"), .link "GitHub Sync" (pathUnder base "/sync")] := by
  have hinfo : ∀ row ∈ (homePage base service).info, LeadsInner row.value [] := by
    simpa [homePage] using leadsInner_ofText "Service" service
  exact Page.targets_render (proper_homePage base service) (leads_infoNodes hinfo) .absent

theorem targets_renderLookup {base page : String} {v : Lookup.View}
    (h : renderLookup? base v = some page) :
    targets (tags page) =
      [.link "Quota Dashboard" (pathUnder base ""), .link "GitHub Sync" (pathUnder base "/sync"),
        .form "post" "Query" (pathUnder base "/query")] ++
        if v.summary.isSome then
          pagingTargets (pathUnder base "/query") v.paging.current v.paging.pageCount
        else [] := by
  obtain ⟨content, hcontent, rfl⟩ := Option.map_eq_some_iff.mp h
  have hform : LeadsInner (lookupForm (pathUnder base "/query") v.key v.busy)
      [.form "post" "Query" (pathUnder base "/query")] := by
    rw [lookupForm_eq]
    exact .of_render (proper_lookupFormNode _ _ _) (leads_lookupFormNode _ _ _)
  have hrows : ∀ row ∈ (v.display.map displayRows).getD [], LeadsInner row.value [] := by
    cases v.display with
    | none => simp
    | some d => exact leadsInner_displayRows d
  have hinfo : LeadsAll ((lookupPage base v content).info.map Page.infoNode) _ :=
    .cons (Page.leads_infoNode hform) (leads_infoNodes hrows)
  have hleads : Leads content
      (if v.summary.isSome then
        pagingTargets (pathUnder base "/query") v.paging.current v.paging.pageCount
      else []) := by
    obtain ⟨hshown, links, hlinks, rfl⟩ | ⟨hshown, rfl⟩ := lookupContent?_eq_some hcontent
    · rw [hshown]
      exact leads_ledgerSection hlinks
    · rw [hshown]
      exact .absent
  refine (Page.targets_render (proper_lookupPage hcontent) hinfo hleads).trans ?_
  simp [lookupPage, breadcrumbs, Page.crumbTargets, shown]

theorem leads_configForm (action : String) (c : Backup.Config) :
    Leads (configForm action c) [.form "post" "Save" action] := by
  have hrow (label : String) (attributes : List Html.Attribute) :
      Leads (fieldRow label attributes) [] :=
    .element (by decide) (.skip (.labelled (by decide) label)
      (.skip (.element (by decide) (.skip (.void (by decide) attributes) .nil)) .nil))
  have hbutton : Leads (.element "button" [.value "type" "submit"] [.text "Save"]) [] :=
    .element (by decide) (.skip (.text "Save") .nil)
  refine .form (.skip (.element (by decide) ?_) (.skip hbutton .nil)) (fun r => ?_) _ _
  · exact .skip (hrow _ _) (.skip (hrow _ _) (.skip (hrow _ _) .nil))
  · simp [visit, visitItems, buttonText, fieldRow, plain, labelled]
    rfl

def runLabel (syncing : Bool) : String :=
  if syncing then "Syncing..." else "Sync Now"

theorem leads_runForm (action : String) (c : Backup.Config) (syncing : Bool) :
    Leads (runForm action c syncing) [.form "post" (runLabel syncing) action] := by
  have hbutton (label : String) : Leads (.element "button"
      [.value "type" "submit", .flag "disabled" (!canRun c syncing)] [.text label]) [] :=
    .element (by decide) (.skip (.text label) .nil)
  refine .form (.skip (hbutton _) .nil) (fun r => ?_) _ _
  cases syncing
  all_goals
    simp [visit, visitItems, buttonText]
    rfl

theorem targets_renderBackup (base : String) (c : Backup.Config) (status : Option Backup.Status)
    (notice : Option Notice) (syncing : Bool) :
    targets (tags (renderBackup base c status notice syncing)) =
      [.link "Quota Dashboard" (pathUnder base ""), .link "Token Query" (pathUnder base "/query"),
        .form "post" "Save" (pathUnder base "/sync/config"),
        .form "post" (runLabel syncing) (pathUnder base "/sync/run")] := by
  have hinfo : ∀ row ∈ (backupPage base c status notice syncing).info,
      LeadsInner row.value [] := by
    have hstatus : ∀ row ∈ statusRows c status, LeadsInner row.value [] := by
      cases status with
      | none => simp [statusRows, leadsInner_ofText]
      | some s => cases hs : s.enabled <;> simp [statusRows, leadsInner_ofText, hs]
    have hrepo := leadsInner_ofText "Repository" (repositoryText c.repo)
    simpa [backupPage, or_imp, forall_and] using ⟨hstatus, hrepo⟩
  have hhint : Leads (completionHint c) [] := by
    unfold completionHint
    split
    · exact .absent
    · exact .labelled (by decide) _
  have hcontent : Leads (backupPage base c status notice syncing).content _ :=
    .fragment (.skip (.labelled (by decide) _) (.cons (leads_configForm _ c)
      (.skip (.labelled (by decide) _) (.cons (leads_runForm _ c syncing) (.skip hhint .nil)))))
  exact Page.targets_render (proper_backupPage base c status notice syncing)
    (leads_infoNodes hinfo) hcontent

def linkNames : List (String × Action) :=
  [("Quota Dashboard", .home), ("Token Query", .showLookup), ("Previous", .showLookup),
    ("Next", .showLookup), ("GitHub Sync", .showSync)]

def formNames : List (String × Action) :=
  [("Query", .submitLookup), ("Save", .saveConfig), ("Sync Now", .runSync),
    ("Syncing...", .runSync)]

def action? : Target → Option Action
  | .link label _ => linkNames.lookup label
  | .form _ label _ => formNames.lookup label

/-- The request that following a link or submitting a form sends; forms name their method in small
letters. -/
def requestOf : Target → Request
  | .link _ href => { method := "GET", target := href }
  | .form method _ action =>
    { method := String.ofList (method.toList.map Char.toUpper), target := action }

/-- The request is routed to what the label names. -/
def Base.Works (base : Base) (t : Target) : Prop :=
  ∃ a, action? t = some a ∧ base.resolve (requestOf t).method (requestOf t).path = .found a

inductive Serves (base : Base) : String → Prop
  | home (service : String) : Serves base (renderHome base.path service)
  | lookup {v : Lookup.View} {page : String} (h : renderLookup? base.path v = some page) :
      Serves base page
  | backup (c : Backup.Config) (status : Option Backup.Status) (notice : Option Notice)
      (syncing : Bool) : Serves base (renderBackup base.path c status notice syncing)

section Routed

variable {base : Base} {r : Route} {a : Action} {t : Target}

theorem resolve_written (h : PlainPath base.path) (hend : ¬ EndsDoubled base.path)
    {method : String} (ha : r.action? method = some a) :
    base.resolve method (written base r) = .found a := by
  have hroute : base.route? (written base r) = some r :=
    (route?_eq_some_iff h).mpr (written_eq_address hend r).symm
  rw [Base.resolve, hroute]
  simp only [ha]

theorem resolve_written_of_endsDoubled (h : PlainPath base.path) (hend : EndsDoubled base.path)
    (hr : r ≠ .home) (method : String) :
    base.resolve method (written base r) = .notFound := by
  have hroute : base.route? (written base r) = none := by
    rw [Option.eq_none_iff_forall_ne_some]
    exact fun r' hr' => address_ne_written hend hr r' ((route?_eq_some_iff h).mp hr')
  rw [Base.resolve, hroute]

theorem path_written_alone (h : PlainPath base.path) (r : Route) (method : String) :
    ({ method, target := written base r } : Request).path = written base r := by
  simpa using path_written h r method List.not_mem_nil (.inl rfl)

theorem works_link (h : PlainPath base.path) (hend : ¬ EndsDoubled base.path) {label : String}
    (hname : linkNames.lookup label = some a) (ha : r.action? "GET" = some a) :
    base.Works (.link label (written base r)) := by
  refine ⟨a, hname, ?_⟩
  rw [requestOf, path_written_alone h]
  exact resolve_written h hend ha

theorem works_form (h : PlainPath base.path) (hend : ¬ EndsDoubled base.path) {label : String}
    (hname : formNames.lookup label = some a) (ha : r.action? "POST" = some a) :
    base.Works (.form "post" label (written base r)) := by
  have hmethod : String.ofList ("post".toList.map Char.toUpper) = "POST" := by decide
  refine ⟨a, hname, ?_⟩
  rw [requestOf, hmethod, path_written_alone h]
  exact resolve_written h hend ha

theorem works_neighbour (h : PlainPath base.path) (hend : ¬ EndsDoubled base.path) (page : Nat)
    {label : String} (hname : linkNames.lookup label = some .showLookup) (there : Prop)
    [Decidable there] : ∀ t ∈ Html.neighbour (written base .query) page label there,
      base.Works t := by
  intro t ht
  have hfragment : '#' ∉ ("?page=" ++ Text.Decimal.ofNat page).toList := by
    have hdigits : '#' ∉ (Text.Decimal.ofNat page).toList :=
      Text.Decimal.not_mem_ofNat (by decide) _
    simpa using hdigits
  obtain ⟨-, rfl⟩ : there ∧ t = _ := by simpa [Html.neighbour] using ht
  refine ⟨_, hname, ?_⟩
  have hpath := path_written h .query "GET" hfragment (.inr (by simp))
  rw [String.ofList_toList, ← String.append_assoc] at hpath
  rw [requestOf, hpath]
  exact resolve_written h hend rfl

end Routed

/-- Under a base of slashes and unreserved characters, the links and forms of a page are routed to
what they name unless the base ends in more than one slash. -/
theorem links_work_iff (base : Base) (h : PlainPath base.path) {page : String}
    (hpage : Serves base page) :
    (∀ t ∈ targets (tags page), base.Works t) ↔ ¬ EndsDoubled base.path := by
  constructor
  · intro hworks hend
    -- Every page has a link to another page than the home page.
    obtain ⟨label, r, hr, hmem⟩ : ∃ label r, r ≠ .home ∧
        Target.link label (written base r) ∈ targets (tags page) := by
      cases hpage with
      | home service =>
        rw [targets_renderHome]
        exact ⟨_, .query, nofun, List.mem_cons_self⟩
      | lookup h =>
        rw [targets_renderLookup h]
        exact ⟨_, .sync, nofun, List.mem_cons_of_mem _ List.mem_cons_self⟩
      | backup c status notice syncing =>
        rw [targets_renderBackup]
        exact ⟨_, .query, nofun, List.mem_cons_of_mem _ List.mem_cons_self⟩
    obtain ⟨a, -, hfound⟩ := hworks _ hmem
    rw [requestOf, path_written_alone h, resolve_written_of_endsDoubled h hend hr] at hfound
    cases hfound
  · intro hend
    have hhome : base.Works (.link "Quota Dashboard" (written base .home)) :=
      works_link h hend rfl rfl
    have hlookup : base.Works (.link "Token Query" (written base .query)) :=
      works_link h hend rfl rfl
    have hsync : base.Works (.link "GitHub Sync" (written base .sync)) := works_link h hend rfl rfl
    cases hpage with
    | home service =>
      rw [targets_renderHome]
      exact List.forall_mem_cons.mpr ⟨hlookup, List.forall_mem_singleton.mpr hsync⟩
    | @lookup v _ hpage =>
      have hquery : base.Works (.form "post" "Query" (written base .query)) :=
        works_form h hend rfl rfl
      have hpaging : ∀ t ∈ pagingTargets (written base .query) v.paging.current v.paging.pageCount,
          base.Works t := List.forall_mem_append.mpr
        ⟨works_neighbour h hend _ rfl _, works_neighbour h hend _ rfl _⟩
      rw [targets_renderLookup hpage, List.forall_mem_append]
      simp only [List.forall_mem_cons]
      refine ⟨⟨hhome, hsync, hquery, nofun⟩, ?_⟩
      split
      · exact hpaging
      · exact nofun
    | backup c status notice syncing =>
      have hsave : base.Works (.form "post" "Save" (written base .config)) :=
        works_form h hend rfl rfl
      have hrun : base.Works (.form "post" (runLabel syncing) (written base .run)) :=
        works_form h hend (a := .runSync) (by cases syncing <;> rfl) rfl
      rw [targets_renderBackup]
      simp only [List.forall_mem_cons]
      exact ⟨hhome, hlookup, hsave, hrun, nofun⟩

theorem links_work_nested :
    let base : Base := ⟨"/apps/quota-1/", literal "/apps/quota-1/".toList, by decide +kernel⟩
    let v : Lookup.View := { summary := some {}, paging := { current := 2, total := 25 } }
    PlainPath base.path ∧ ∃ page, renderLookup? base.path v = some page ∧
      ∀ t ∈ targets (tags page), base.Works t := by
  intro base v
  have hplain : PlainPath base.path := by decide +kernel
  obtain ⟨page, hpage⟩ := exists_renderLookup base.path (v := v) fun h =>
    absurd h.2.2 (by decide)
  exact ⟨hplain, page, hpage, (links_work_iff base hplain (.lookup hpage)).mpr (by decide +kernel)⟩

/-- Behind two closing slashes the pages write one slash, and what they link to is not found. -/
theorem links_broken_behind_two_slashes :
    let base : Base := ⟨"/app//", literal "/app//".toList, by decide +kernel⟩
    PlainPath base.path ∧
      Target.link "Token Query" "/app/query" ∈ targets (tags (renderHome base.path "demo")) ∧
      base.resolve "GET" "/app/query" = .notFound ∧
      (∃ page, renderLookup? base.path {} = some page ∧
        Target.form "post" "Query" "/app/query" ∈ targets (tags page)) ∧
      base.resolve "POST" "/app/query" = .notFound := by
  intro base
  have hquery : pathUnder base.path "/query" = "/app/query" := by decide +kernel
  have hhome := targets_renderHome base.path "demo"
  obtain ⟨page, hpage⟩ := exists_renderLookup base.path (v := {}) nofun
  have hlookup := targets_renderLookup hpage
  rw [hquery] at hhome hlookup
  refine ⟨by decide +kernel, ?_, by decide +kernel, ⟨page, hpage, ?_⟩, by decide +kernel⟩
  · rw [hhome]
    exact List.mem_cons_self
  · rw [hlookup]
    simp

end QuotaDesk.Dashboard
