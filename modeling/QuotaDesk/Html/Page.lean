import QuotaDesk.Html.Node
import QuotaDesk.Html.Parts

/-! The sections that every page of the dashboard is made of. -/

namespace QuotaDesk.Html

structure Breadcrumb where
  label : String
  href : Option String

structure Link where
  label : String
  href : String

structure Banner where
  level : String
  message : String

structure InfoRow where
  label : String
  value : String

def InfoRow.ofText (label value : String) : InfoRow :=
  ⟨label, escape value⟩

structure Subpage where
  label : String
  href : String
  description : String

structure Page where
  title : String := ""
  breadcrumbs : List Breadcrumb := []
  links : List Link := []
  banner : Option Banner := none
  info : List InfoRow := []
  content : Node := .absent
  subpages : List Subpage := []

namespace Page

open Node (plain labelled link)

def crumb (separator : String) (b : Breadcrumb) : Node :=
  let label :=
    match b.href with
    | some href => link href b.label
    | none => .text b.label
  .fragment [.text separator, label]

def breadcrumbNode : List Breadcrumb → Node
  | [] => .absent
  | first :: rest => plain "h1" [.list (crumb "" first :: rest.map (crumb " / "))]

def bannerNode : Option Banner → Node
  | none => .absent
  | some b => .element "div" [.cssClass ("notice " ++ b.level)] [.text b.message]

def headedTable (heading : String) (head rows : List Node) : Node :=
  if rows.isEmpty then .absent
  else .fragment [labelled "h2" heading, plain "table" (head ++ [.list rows])]

def linkRow (l : Link) : Node :=
  plain "tr" [plain "td" [link l.href l.label]]

def infoNode (r : InfoRow) : Node :=
  plain "tr" [labelled "td" r.label, .markup "td" [] r.value]

def subpageRow (s : Subpage) : Node :=
  plain "tr" [plain "td" [link s.href s.label], labelled "td" s.description]

def body (p : Page) : Node :=
  .fragment [
    breadcrumbNode p.breadcrumbs,
    bannerNode p.banner,
    headedTable "Navigation" [] (p.links.map linkRow),
    headedTable "Info" [] (p.info.map infoNode),
    p.content,
    headedTable "Views" [plain "tr" [labelled "th" "View", labelled "th" "Description"]]
      (p.subpages.map subpageRow)]

def render (p : Page) : String :=
  frame p.title p.body.render

end Page
end QuotaDesk.Html
