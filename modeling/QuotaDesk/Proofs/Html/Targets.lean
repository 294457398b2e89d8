import QuotaDesk.Proofs.Html.Contents

/-! Where a page leads: its links with their labels, and its forms with the labels of their
buttons. Those of a page are those of its parts in order. -/

namespace QuotaDesk.Html

open Node (visit visitItems reader plain labelled link shown)

/-- A way off a page, under the label that names it. -/
inductive Target
  | link (label href : String)
  | form (method label action : String)
  deriving DecidableEq, Repr

def Tag.value (name : String) (t : Tag) : String :=
  (t.values.lookup name).getD ""

def buttonText (ts : List Tag) : String :=
  ((ts.find? (·.name = "button")).map (·.text)).getD ""

def targets : List Tag → List Target
  | [] => []
  | t :: rest =>
    if t.name = "a" then .link t.text (t.value "href") :: targets rest
    else if t.name = "form" then
      .form (t.value "method") (buttonText rest) (t.value "action") :: targets rest
    else targets rest

def Leads (n : Node) (ts : List Target) : Prop :=
  ∀ afterText r, targets (visit reader afterText n r).tags = ts ++ targets r.tags

def LeadsAll (items : List Node) (ts : List Target) : Prop :=
  ∀ afterText r, targets (visitItems reader afterText items r).tags = ts ++ targets r.tags

def LeadsInner (inner : String) (ts : List Target) : Prop :=
  ∀ r, targets (reader.inner inner r).tags = ts ++ targets r.tags

def Staying (tag : String) : Prop :=
  tag ∉ ["a", "form"]
  deriving Decidable

section Parts

variable {ts ts' : List Target}

theorem targets_tag {name : String} (h : Staying name) (attributes : List Attribute) (r : Reading) :
    targets (reader.tag name attributes r).tags = targets r.tags := by
  simp only [Staying, List.mem_cons, List.not_mem_nil, or_false, not_or] at h
  simp [targets, h.1, h.2]

theorem LeadsAll.nil : LeadsAll [] [] := fun _ _ => rfl

theorem LeadsAll.cons {n : Node} {rest : List Node} (hn : Leads n ts) (hrest : LeadsAll rest ts') :
    LeadsAll (n :: rest) (ts ++ ts') := by
  intro afterText r
  rw [visitItems, hn, hrest, List.append_assoc]

theorem LeadsAll.skip {n : Node} {rest : List Node} (hn : Leads n []) (hrest : LeadsAll rest ts) :
    LeadsAll (n :: rest) ts :=
  LeadsAll.cons hn hrest

theorem LeadsAll.skipAll {front rest : List Node} (hfront : ∀ n ∈ front, Leads n [])
    (hrest : LeadsAll rest ts) : LeadsAll (front ++ rest) ts := by
  induction front with
  | nil => exact hrest
  | cons n front ih =>
    rw [List.forall_mem_cons] at hfront
    exact .skip hfront.1 (ih hfront.2)

theorem LeadsAll.still {items : List Node} (h : ∀ n ∈ items, Leads n []) : LeadsAll items [] := by
  have hitems := LeadsAll.skipAll h .nil
  rwa [List.append_nil] at hitems

theorem LeadsAll.singleton {n : Node} (h : Leads n ts) : LeadsAll [n] ts :=
  fun afterText r => h afterText r

theorem LeadsAll.map {α : Type} {write : α → Node} {leads : α → List Target} {l : List α}
    (h : ∀ x ∈ l, Leads (write x) (leads x)) : LeadsAll (l.map write) (l.flatMap leads) := by
  induction l with
  | nil => exact .nil
  | cons x l ih =>
    rw [List.forall_mem_cons] at h
    exact LeadsAll.cons h.1 (ih h.2)

theorem Leads.text (s : String) : Leads (.text s) [] := by
  intro afterText r
  cases afterText with
  | false => rfl
  | true => exact targets_tag (by decide) [] _

theorem Leads.absent : Leads .absent [] :=
  fun _ r => targets_tag (by decide) [] r

theorem Leads.fragment {items : List Node} (h : LeadsAll items ts) : Leads (.fragment items) ts := h

theorem Leads.list {items : List Node} (h : LeadsAll items ts) : Leads (.list items) ts := by
  intro afterText r
  rw [visit, h, targets_tag (by decide)]

theorem Leads.void {tag : String} (ht : Staying tag) (attributes : List Attribute) :
    Leads (.void tag attributes) [] :=
  fun _ r => targets_tag ht attributes r

theorem Leads.element {tag : String} (ht : Staying tag ∧ Staying ("/" ++ tag))
    {attributes : List Attribute} {children : List Node} (h : LeadsAll children ts) :
    Leads (.element tag attributes children) ts := by
  intro afterText r
  rw [visit, targets_tag ht.1, h, targets_tag ht.2]

theorem Leads.labelled {tag : String} (ht : Staying tag ∧ Staying ("/" ++ tag)) (label : String) :
    Leads (labelled tag label) [] :=
  .element ht (.skip (.text label) .nil)

theorem Leads.markup {tag : String} (ht : Staying tag ∧ Staying ("/" ++ tag))
    {attributes : List Attribute} {inner : String} (h : LeadsInner inner ts) :
    Leads (.markup tag attributes inner) ts := by
  intro afterText r
  rw [visit, targets_tag ht.1, h, targets_tag ht.2]

theorem Leads.link (href label : String) : Leads (link href label) [.link (shown label) href] := by
  intro afterText r
  simp [Node.link, visit, visitItems, targets, Tag.value]

theorem Leads.form {children : List Node} {label : String} (h : LeadsAll children [])
    (hbutton : ∀ r, buttonText (visitItems reader false children r).tags = label)
    (method action : String) :
    Leads (.element "form" [.value "method" method, .value "action" action] children)
      [.form method label action] := by
  intro afterText r
  have hname : "form" ≠ "a" := by decide
  rw [visit, Node.reader_tag, targets, if_neg hname, if_pos rfl, hbutton, h, targets_tag (by decide)]
  rfl

theorem LeadsInner.of_render {n : Node} (hn : n.Proper) (h : Leads n ts) :
    LeadsInner n.render ts := by
  intro r
  rw [Node.reader_follows.inner_render hn, h]

theorem leadsInner_escape (s : String) : LeadsInner (escape s) [] := by
  intro r
  rw [reader_inner_escape]
  rfl

end Parts

theorem leadsInner_progressBar (width : Binary64) (label : String) :
    LeadsInner (progressBar width label) [] := by
  rw [progressBar_eq]
  refine .of_render (Node.proper_progressNode width label) (.fragment (.skip ?_ (.skip ?_ .nil)))
  · exact .element (by decide) (.skip (.element (by decide) .nil) .nil)
  · exact .markup (by decide) (leadsInner_escape label)

def neighbour (path : String) (page : Nat) (label : String) (there : Prop) [Decidable there] :
    List Target :=
  if there then [.link label (path ++ "?page=" ++ Text.Decimal.ofNat page)] else []

def pagingTargets (path : String) (current : UInt32) (pageCount : Nat) : List Target :=
  neighbour path (current.toNat - 1) "Previous" (1 < current) ++
    neighbour path (current.toNat + 1) "Next" (current.toNat < pageCount)

theorem leads_neighbour (path : String) (page : Nat) {label : String} (hlabel : shown label = label)
    (there : Prop) [Decidable there] :
    Leads (if there then Node.pageLinkNode path page label else Node.disabledNode label)
      (neighbour path page label there) := by
  unfold neighbour
  split
  · have hlink := Leads.link (path ++ "?page=" ++ Text.Decimal.ofNat page) label
    rwa [hlabel] at hlink
  · exact .element (by decide) (.skip (.text label) .nil)

theorem leadsInner_pagingLinks {path links : String} {current : UInt32} {pageCount : Nat}
    (h : pagingLinks? path current pageCount = some links) :
    LeadsInner links (pagingTargets path current pageCount) := by
  rw [pagingLinks?_eq_some h]
  refine .of_render (Node.proper_pagingNode path current pageCount) (.element (by decide) ?_)
  refine .cons (leads_neighbour path _ rfl _) (.skip (.text " ") (.skip (.labelled (by decide) _) ?_))
  exact .skip (.text " ") (.singleton (leads_neighbour path _ rfl _))

namespace Page

theorem leads_linkCell (href label : String) :
    Leads (plain "td" [Node.link href label]) [.link (shown label) href] :=
  .element (by decide) (.singleton (.link href label))

theorem leads_linkRow (l : Link) : Leads (linkRow l) [.link (shown l.label) l.href] :=
  .element (by decide) (.singleton (leads_linkCell l.href l.label))

theorem leads_subpageRow (s : Subpage) : Leads (subpageRow s) [.link (shown s.label) s.href] :=
  .element (by decide) (.cons (leads_linkCell s.href s.label)
    (.singleton (.labelled (by decide) s.description)))

theorem leads_infoNode {row : InfoRow} {ts : List Target} (h : LeadsInner row.value ts) :
    Leads (infoNode row) ts :=
  .element (by decide) (.skip (.labelled (by decide) row.label) (.singleton (.markup (by decide) h)))

theorem leads_headedTable (heading : String) {head rows : List Node} {ts : List Target}
    (hh : ∀ n ∈ head, Leads n []) (h : LeadsAll rows ts) :
    Leads (headedTable heading head rows) ts := by
  unfold headedTable
  split
  case isTrue hempty =>
    obtain rfl : rows = [] := by simpa using hempty
    intro afterText r
    rw [Leads.absent, ← h false]
    rfl
  case isFalse =>
    have htable : Leads (plain "table" (head ++ [.list rows])) ts :=
      .element (by decide) (.skipAll hh (.singleton (.list h)))
    exact .fragment (.skip (.labelled (by decide) heading) (.singleton htable))

def crumbTargets (b : Breadcrumb) : List Target :=
  b.href.toList.map fun href => .link (shown b.label) href

theorem leads_crumb (separator : String) (b : Breadcrumb) :
    Leads (crumb separator b) (crumbTargets b) := by
  unfold crumb crumbTargets
  cases b.href with
  | none => exact .fragment (.skip (.text separator) (.skip (.text b.label) .nil))
  | some href => exact .fragment (.skip (.text separator) (.singleton (.link href b.label)))

theorem leads_breadcrumbNode (crumbs : List Breadcrumb) :
    Leads (breadcrumbNode crumbs) (crumbs.flatMap crumbTargets) := by
  cases crumbs with
  | nil => exact .absent
  | cons first rest =>
    exact .element (by decide) (.singleton (.list (.cons (leads_crumb "" first)
      (.map fun b _ => leads_crumb " / " b))))

theorem leads_bannerNode (b : Option Banner) : Leads (bannerNode b) [] := by
  cases b with
  | none => exact .absent
  | some b => exact .element (by decide) (.skip (.text b.message) .nil)

theorem targets_render {p : Page} (h : p.Proper) {facts content : List Target}
    (hinfo : LeadsAll (p.info.map infoNode) facts) (hcontent : Leads p.content content) :
    targets (tags p.render) = p.breadcrumbs.flatMap crumbTargets ++
      (p.links.map (fun l => .link (shown l.label) l.href) ++ (facts ++ (content ++
        p.subpages.map fun s => .link (shown s.label) s.href))) := by
  have hcell (label : String) : Leads (labelled "th" label) [] := .labelled (by decide) label
  have hhead : Leads (plain "tr" [labelled "th" "View", labelled "th" "Description"]) [] :=
    .element (by decide) (.skip (hcell "View") (.skip (hcell "Description") .nil))
  have hlinks : LeadsAll (p.links.map linkRow) _ := .map fun l _ => leads_linkRow l
  have hviews : LeadsAll (p.subpages.map subpageRow) _ := .map fun s _ => leads_subpageRow s
  have hparts := LeadsAll.cons (leads_headedTable "Navigation" (List.forall_mem_nil _) hlinks)
    (.cons (leads_headedTable "Info" (List.forall_mem_nil _) hinfo) (.cons hcontent
      (.singleton (leads_headedTable "Views" (List.forall_mem_singleton.mpr hhead) hviews))))
  have hbody : Leads p.body _ := .fragment
    (.cons (leads_breadcrumbNode p.breadcrumbs) (.skip (leads_bannerNode p.banner) hparts))
  obtain ⟨style, body, htags⟩ := tags_render h
  have hend : targets pageEnd.tags = [] := rfl
  rw [htags, List.map_eq_flatMap, List.map_eq_flatMap]
  show targets (visit reader false p.body pageEnd).tags = _
  exact (hbody false pageEnd).trans (by rw [hend, List.append_nil])

end Page
end QuotaDesk.Html
