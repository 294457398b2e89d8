import QuotaDesk.Dashboard.Pages
import QuotaDesk.Proofs.Html.Page
import QuotaDesk.Proofs.Ledger.Paging

/-! The markup of the pages. Each page is well formed, and two pages of one shape have the
same parts, whatever texts and numbers these show. -/

namespace QuotaDesk.Dashboard

open Html (Node Attribute InfoRow Page PlainName Unescaped Closed outline escape)
open Html.Node (plain labelled Alike)

def lookupFormNode (action key : String) (busy : Bool) : Node :=
  .element "form" [.value "method" "post", .value "action" action] [
    .void "input" [.value "type" "text", .value "name" "key", .value "value" key,
      .value "placeholder" "sk-...", .value "autocomplete" "off"],
    .text " ",
    .element "button" [.value "type" "submit", .flag "disabled" busy] [.text "Query"]]

def statusNode (s : Quota.Status) : Node :=
  .element "span" [.value "class" s.cssClass] [.text s.label]

theorem lookupForm_eq (action key : String) (busy : Bool) :
    lookupForm action key busy = (lookupFormNode action key busy).render := by
  have hwords : ∀ s ∈ ["post", "text", "key", "sk-...", "off", "submit"], escape s = s := by decide
  have hblank : Node.renderText false " " = " " := rfl
  have hquery : Node.renderText false "Query" = "Query" := rfl
  simp only [List.forall_mem_cons] at hwords
  unfold lookupForm
  apply String.toList_inj.mp
  cases busy
  all_goals
    simp [lookupFormNode, Node.render, Node.renderAfter, Node.renderItems, Node.openTag,
      Node.closeTag, Html.Attribute.renderAll, Html.Attribute.render, hwords, hblank, hquery]

theorem status_eq (s : Quota.Status) :
    "<span class=\"" ++ s.cssClass ++ "\">" ++ s.label ++ "</span>" = (statusNode s).render := by
  have hclass : escape s.cssClass = s.cssClass := Unescaped.escape_eq (by cases s <;> decide)
  have hlabel : Node.renderText false s.label = s.label := by cases s <;> rfl
  apply String.toList_inj.mp
  simp [statusNode, Node.render, Node.renderAfter, Node.renderItems, Node.openTag, Node.closeTag,
    Html.Attribute.renderAll, Html.Attribute.render, hclass, hlabel]

theorem proper_lookupFormNode (action key : String) (busy : Bool) :
    (lookupFormNode action key busy).Proper := by
  have hnames : ∀ name ∈ ["form", "method", "action", "input", "type", "name", "value",
      "placeholder", "autocomplete", "button", "disabled"], PlainName name := by decide
  simp only [List.forall_mem_cons] at hnames
  simp [lookupFormNode, Node.Proper, Node.ProperItems, Html.Attribute.Plain, hnames]

theorem proper_statusNode (s : Quota.Status) : (statusNode s).Proper := by
  have hnames : ∀ name ∈ ["span", "class"], PlainName name := by decide
  simp only [List.forall_mem_cons] at hnames
  simp [statusNode, Node.Proper, Node.ProperItems, Html.Attribute.Plain, hnames]

theorem closed_ofText (label s : String) : Closed (InfoRow.ofText label s).value :=
  (Html.tagless_escape s).closed

theorem closed_displayRows (d : Quota.Display) : ∀ r ∈ displayRows d, Closed r.value := by
  have hstatus : Closed
      ("<span class=\"" ++ d.status.cssClass ++ "\">" ++ d.status.label ++ "</span>") := by
    rw [status_eq]
    exact (proper_statusNode d.status).closed_render
  have husage : Closed (usageRow d.gauge).value := by
    cases d.gauge with
    | none => exact closed_ofText "Usage" "-"
    | some g => exact Html.closed_progressBar g.width g.text
  simp [displayRows, closed_ofText, hstatus, husage]

theorem proper_ledgerRow (r : Ledger.Row) : (ledgerRow r).Proper := by
  have hcell (s : String) : (labelled "td" s).Proper := Node.proper_labelled (by decide) s
  apply Node.proper_plain (by decide)
  simp [hcell]

theorem proper_ledgerTable (rows : List Ledger.Row) : (ledgerTable rows).Proper := by
  have hhead : ledgerHead.Proper := by
    have hcell (s : String) : (labelled "th" s).Proper := Node.proper_labelled (by decide) s
    apply Node.proper_plain (by decide)
    simp [hcell]
  have hlist : (Node.list (rows.map ledgerRow)).Proper := by
    simpa [Node.Proper, Node.properItems_iff] using fun r _ => proper_ledgerRow r
  unfold ledgerTable
  split
  · exact Node.proper_labelled (by decide) _
  · apply Node.proper_plain (by decide)
    simpa using ⟨hhead, hlist⟩

theorem proper_ledgerSection {links : String} (hlinks : Closed links) (v : Lookup.View) :
    (ledgerSection links v).Proper := by
  have hh2 : (labelled "h2" "Usage History").Proper := Node.proper_labelled (by decide) _
  have hp : PlainName "p" := by decide
  have hdiv : PlainName "div" := by decide
  have hcount (s t : String) : (plain "p" [.text s, .text t]).Proper :=
    Node.proper_plain hp (by simp [Node.Proper])
  exact ⟨hh2, hcount _ _, proper_ledgerTable _, ⟨⟨hdiv, by simp⟩, hlinks⟩, trivial⟩

theorem lookupContent?_eq_some {path : String} {v : Lookup.View} {content : Node}
    (h : lookupContent? path v = some content) :
    (v.summary.isSome = true ∧ ∃ links,
        Html.pagingLinks? path v.paging.current v.paging.pageCount = some links ∧
          content = ledgerSection links v) ∨
      v.summary.isSome = false ∧ content = .absent := by
  have hdisplay : v.display.isSome = v.summary.isSome := Option.isSome_map
  rw [lookupContent?, hdisplay] at h
  split at h
  · next hshown =>
    obtain ⟨links, hlinks, rfl⟩ := Option.map_eq_some_iff.mp h
    exact .inl ⟨hshown, links, hlinks, rfl⟩
  · next hshown => exact .inr ⟨Bool.eq_false_iff.mpr hshown, (Option.some.inj h).symm⟩

theorem pagingLinks?_eq_none_iff (path : String) (p : Ledger.Paging) :
    Html.pagingLinks? path p.current p.pageCount = none ↔ p.AtLimit := by
  rw [Html.pagingLinks?_eq_none_iff, Ledger.Paging.AtLimit, Ledger.Paging.hasNext,
    decide_eq_true_iff]

theorem renderLookup?_eq_none_iff {base : String} {v : Lookup.View} :
    renderLookup? base v = none ↔ v.summary.isSome = true ∧ v.paging.AtLimit := by
  have hdisplay : v.display.isSome = v.summary.isSome := Option.isSome_map
  rw [renderLookup?, Option.map_eq_none_iff, lookupContent?, hdisplay]
  split
  · next hshown =>
    rw [Option.map_eq_none_iff, pagingLinks?_eq_none_iff]
    exact (and_iff_right hshown).symm
  · next hshown => exact ⟨nofun, fun h => absurd h.1 hshown⟩

theorem exists_renderLookup (base : String) {v : Lookup.View}
    (h : ¬(v.summary.isSome = true ∧ v.paging.AtLimit)) :
    ∃ page, renderLookup? base v = some page :=
  Option.ne_none_iff_exists'.mp (mt renderLookup?_eq_none_iff.mp h)

theorem proper_homePage (base service : String) : (homePage base service).Proper where
  info := by simpa [homePage] using closed_ofText "Service" service
  content := trivial

theorem proper_lookupPage {base : String} {v : Lookup.View} {content : Node}
    (h : lookupContent? (pathUnder base "/query") v = some content) :
    (lookupPage base v content).Proper where
  info := by
    have hform : Closed (lookupForm (pathUnder base "/query") v.key v.busy) := by
      rw [lookupForm_eq]
      exact (proper_lookupFormNode _ _ _).closed_render
    have hrows : ∀ r ∈ (v.display.map displayRows).getD [], Closed r.value := by
      cases v.display with
      | none => simp
      | some d => exact closed_displayRows d
    unfold lookupPage
    rw [List.forall_mem_cons]
    exact ⟨hform, hrows⟩
  content := by
    obtain ⟨-, links, hlinks, rfl⟩ | ⟨-, rfl⟩ := lookupContent?_eq_some h
    · exact proper_ledgerSection (Html.closed_pagingLinks hlinks) v
    · trivial

theorem proper_configForm (action : String) (c : Backup.Config) : (configForm action c).Proper := by
  have hnames : ∀ name ∈ ["form", "method", "action", "table", "tr", "td", "input", "type", "name",
      "value", "placeholder", "autocomplete", "button"], PlainName name := by decide
  simp only [List.forall_mem_cons] at hnames
  simp [configForm, fieldRow, labelled, plain, Node.Proper, Node.ProperItems, Html.Attribute.Plain,
    hnames]

theorem proper_runForm (action : String) (c : Backup.Config) (syncing : Bool) :
    (runForm action c syncing).Proper := by
  have hnames : ∀ name ∈ ["form", "method", "action", "button", "type", "disabled"],
      PlainName name := by decide
  simp only [List.forall_mem_cons] at hnames
  simp [runForm, Node.Proper, Node.ProperItems, Html.Attribute.Plain, hnames]

theorem proper_completionHint (c : Backup.Config) : (completionHint c).Proper := by
  unfold completionHint
  split
  · trivial
  · exact Node.proper_labelled (by decide) _

theorem proper_backupPage (base : String) (c : Backup.Config) (status : Option Backup.Status)
    (notice : Option Notice) (syncing : Bool) :
    (backupPage base c status notice syncing).Proper where
  info := by
    have hrows : ∀ r ∈ statusRows c status, Closed r.value := by
      cases status with
      | none => simp [statusRows, closed_ofText]
      | some s => cases hs : s.enabled <;> simp [statusRows, closed_ofText, hs]
    have hrepo := closed_ofText "Repository" (repositoryText c.repo)
    simpa [backupPage, or_imp, forall_and] using ⟨hrows, hrepo⟩
  content := by
    have hh2 (s : String) : (labelled "h2" s).Proper := Node.proper_labelled (by decide) s
    exact ⟨hh2 _, proper_configForm _ c, hh2 _, proper_runForm _ c syncing, proper_completionHint c,
      trivial⟩

end QuotaDesk.Dashboard
