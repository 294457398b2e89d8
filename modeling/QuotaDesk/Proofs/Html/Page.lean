import QuotaDesk.Html.Page
import QuotaDesk.Proofs.Html.Outline
import QuotaDesk.Proofs.Html.Tags
import QuotaDesk.Proofs.Html.Parts

/-! What a page shows of its parts: its outline depends on how many there are and which of
them are present, and its tags are those of its body within those of the document. -/

namespace QuotaDesk.Html

theorem tagless_rules : ∀ r ∈ rules, Tagless r.selector ∧ Tagless r.declarations := by
  simp only [rules, List.forall_mem_cons]
  and_intros <;> first | exact tagless_ofList (by decide +kernel) | simp

theorem tagless_styleSheet : Tagless styleSheet := by
  intro c hc
  rw [styleSheet, String.toList_join, List.mem_flatMap] at hc
  obtain ⟨s, hs, hc⟩ := hc
  obtain ⟨r, hr, rfl⟩ := List.mem_map.mp hs
  obtain ⟨hselector, hdeclarations⟩ := tagless_rules r hr
  have hopen : Tagless " \x7b " := by decide
  have hclose : Tagless " \x7d\n" := by decide
  exact ((hselector.append hopen).append hdeclarations).append hclose c hc

namespace Node

theorem proper_plain {tag : String} (ht : PlainName tag) {children : List Node}
    (hc : ∀ n ∈ children, n.Proper) : (plain tag children).Proper :=
  ⟨⟨ht, by simp⟩, properItems_iff.mpr hc⟩

theorem proper_labelled {tag : String} (ht : PlainName tag) (label : String) :
    (labelled tag label).Proper :=
  proper_plain ht (by simp [Proper])

theorem proper_link (href label : String) : (link href label).Proper := by
  have ha : PlainName "a" := by decide
  have hhref : PlainName "href" := by decide
  simpa [link, Proper, ProperItems, Attribute.Plain] using ⟨ha, hhref⟩

theorem closed_newline : Closed "\n" := Tagless.closed (by decide)

theorem proper_documentNode (title : String) {body : String} (h : Closed body) :
    (documentNode title body).Proper := by
  have hnames : ∀ name ∈ ["!DOCTYPE", "html", "head", "meta", "charset", "title", "style", "body"],
      PlainName name := by decide
  have htitle : Closed (escape title) := (tagless_escape title).closed
  have hstyle : Closed ("\n" ++ styleSheet) :=
    closed_newline.append tagless_styleSheet.closed
  have hbody : Closed ("\n" ++ body ++ "\n") := (closed_newline.append h).append closed_newline
  simp only [List.forall_mem_cons] at hnames
  simp [documentNode, plain, Proper, ProperItems, Attribute.Plain, hnames, htitle, hstyle, hbody]

theorem alike_documentNode (title title' : String) {body body' : String} (hbody : Closed body)
    (hbody' : Closed body') (h : outline body = outline body') :
    Alike (documentNode title body) (documentNode title' body') := by
  have htitle : outline (escape title) = outline (escape title') := by
    rw [outline_escape, outline_escape]
  have hinner : outline ("\n" ++ body ++ "\n") = outline ("\n" ++ body' ++ "\n") := by
    simp only [outline_append (closed_newline.append hbody),
      outline_append (closed_newline.append hbody'), outline_append closed_newline, h]
  have hhead : Alike (.markup "title" [] (escape title)) (.markup "title" [] (escape title')) :=
    .markup "title" rfl htitle
  have hbody : Alike (.markup "body" [] ("\n" ++ body ++ "\n"))
      (.markup "body" [] ("\n" ++ body' ++ "\n")) := .markup "body" rfl hinner
  unfold documentNode
  apply Alike.fragment
  refine .cons (.refl _) (.cons (.refl _) (.cons (.plain "html" ?_) .nil))
  refine .cons (.refl _) (.cons (.plain "head" ?_)
    (.cons (.refl _) (.cons hbody (.cons (.refl _) .nil))))
  exact .cons (.refl _) (.cons (.refl _) (.cons (.refl _) (.cons hhead (forall₂_alike_refl _))))

end Node

namespace Page

open Node (plain labelled link Alike)

structure Proper (p : Page) : Prop where
  info : ∀ r ∈ p.info, Closed r.value
  content : p.content.Proper

structure Alike (p q : Page) : Prop where
  breadcrumbs : p.breadcrumbs.map (·.href.isSome) = q.breadcrumbs.map (·.href.isSome)
  links : p.links.length = q.links.length
  banner : p.banner.isSome = q.banner.isSome
  info : p.info.map (outline ·.value) = q.info.map (outline ·.value)
  content : Node.Alike p.content q.content
  subpages : p.subpages.length = q.subpages.length

theorem proper_headedTable {heading : String} {head rows : List Node}
    (hh : ∀ n ∈ head, n.Proper) (hr : ∀ n ∈ rows, n.Proper) :
    (headedTable heading head rows).Proper := by
  unfold headedTable
  split
  · trivial
  · have htable : (plain "table" (head ++ [.list rows])).Proper := by
      refine Node.proper_plain (by decide) ?_
      simpa [or_imp, forall_and, Node.Proper, Node.properItems_iff] using ⟨hh, hr⟩
    exact ⟨Node.proper_labelled (by decide) _, htable, trivial⟩

theorem proper_crumb (separator : String) (b : Breadcrumb) : (crumb separator b).Proper := by
  unfold crumb
  cases b.href with
  | none => exact ⟨trivial, trivial, trivial⟩
  | some href => exact ⟨trivial, Node.proper_link href b.label, trivial⟩

theorem proper_breadcrumbNode (crumbs : List Breadcrumb) : (breadcrumbNode crumbs).Proper := by
  cases crumbs with
  | nil => trivial
  | cons first rest =>
    have hcrumbs : ∀ n ∈ crumb "" first :: rest.map (crumb " / "), n.Proper := by
      simp [proper_crumb]
    apply Node.proper_plain (by decide)
    simpa [Node.Proper, Node.properItems_iff] using hcrumbs

theorem proper_bannerNode (b : Option Banner) : (bannerNode b).Proper := by
  have hdiv : PlainName "div" := by decide
  have hclass : PlainName "class" := by decide
  cases b with
  | none => trivial
  | some b =>
    simpa [bannerNode, Node.Proper, Node.ProperItems, Attribute.cssClass, Attribute.Plain] using
      ⟨hdiv, hclass⟩

theorem proper_row {cells : List Node} (h : ∀ n ∈ cells, n.Proper) : (plain "tr" cells).Proper :=
  Node.proper_plain (by decide) h

theorem proper_linkCell (href label : String) : (plain "td" [link href label]).Proper :=
  Node.proper_plain (by decide) (by simpa using Node.proper_link href label)

theorem proper_infoNode {r : InfoRow} (h : Closed r.value) : (infoNode r).Proper := by
  have hlabel : (labelled "td" r.label).Proper := Node.proper_labelled (by decide) _
  have hvalue : (Node.markup "td" [] r.value).Proper := ⟨⟨by decide, by simp⟩, h⟩
  apply proper_row
  simpa using ⟨hlabel, hvalue⟩

theorem body_proper {p : Page} (h : p.Proper) : p.body.Proper := by
  have hlinks : ∀ n ∈ p.links.map linkRow, n.Proper := by
    simpa [linkRow] using fun l _ => proper_row (by simpa using proper_linkCell l.href l.label)
  have hinfo : ∀ n ∈ p.info.map infoNode, n.Proper := by
    simpa using fun r hr => proper_infoNode (h.info r hr)
  have hviews : ∀ n ∈ p.subpages.map subpageRow, n.Proper := by
    have hrow (s : Subpage) : (subpageRow s).Proper := by
      have hcell : (labelled "td" s.description).Proper := Node.proper_labelled (by decide) _
      apply proper_row
      simpa using ⟨proper_linkCell s.href s.label, hcell⟩
    simpa using fun s _ => hrow s
  have hhead : ∀ n ∈ [plain "tr" [labelled "th" "View", labelled "th" "Description"]], n.Proper := by
    have hcell (label : String) : (labelled "th" label).Proper := Node.proper_labelled (by decide) _
    simpa using proper_row (by simp [hcell])
  exact ⟨proper_breadcrumbNode _, proper_bannerNode _, proper_headedTable (by simp) hlinks,
    proper_headedTable (by simp) hinfo, h.content, proper_headedTable hhead hviews, trivial⟩

theorem alike_crumb (separator : String) {b c : Breadcrumb} (h : b.href.isSome = c.href.isSome) :
    Node.Alike (crumb separator b) (crumb separator c) := by
  unfold crumb
  apply Node.Alike.fragment
  refine .cons (.refl _) (.cons ?_ .nil)
  cases hb : b.href <;> cases hc : c.href <;> simp only [hb, hc, Option.isSome] at h
  · exact Node.alike_text _ _
  · cases h
  · cases h
  · exact Node.alike_link _ _ _ _

theorem alike_bannerNode {b c : Option Banner} (h : b.isSome = c.isSome) :
    Node.Alike (bannerNode b) (bannerNode c) := by
  cases b <;> cases c <;> simp only [Option.isSome] at h
  · exact .refl _
  · cases h
  · cases h
  · exact .element "div" (by simp [Attribute.cssClass]) (.cons (Node.alike_text _ _) .nil)

theorem alike_headedTable (heading : String) (head : List Node) {rows rows' : List Node}
    (h : List.Forall₂ Node.Alike rows rows') :
    Node.Alike (headedTable heading head rows) (headedTable heading head rows') := by
  have hempty : rows.isEmpty = rows'.isEmpty := by cases h <;> rfl
  unfold headedTable
  rw [hempty]
  split
  · exact .refl _
  · have hlist : List.Forall₂ Node.Alike (head ++ [.list rows]) (head ++ [.list rows']) :=
      List.rel_append (Node.forall₂_alike_refl head) (.cons (.list h) .nil)
    exact .fragment (.cons (.refl _) (.cons (.plain "table" hlist) .nil))

theorem alike_linkCell (href href' s t : String) :
    Node.Alike (plain "td" [link href s]) (plain "td" [link href' t]) :=
  .plain "td" (.cons (Node.alike_link _ _ _ _) .nil)

theorem alike_linkRow (l l' : Link) : Node.Alike (linkRow l) (linkRow l') :=
  .plain "tr" (.cons (alike_linkCell _ _ _ _) .nil)

theorem alike_subpageRow (s s' : Subpage) : Node.Alike (subpageRow s) (subpageRow s') :=
  .plain "tr" (.cons (alike_linkCell _ _ _ _) (.cons (Node.alike_labelled _ _ _) .nil))

theorem alike_infoNode {r r' : InfoRow} (h : outline r.value = outline r'.value) :
    Node.Alike (infoNode r) (infoNode r') :=
  .plain "tr" (.cons (Node.alike_labelled _ _ _) (.cons (.markup "td" rfl h) .nil))

theorem alike_breadcrumbNode {crumbs crumbs' : List Breadcrumb}
    (h : crumbs.map (·.href.isSome) = crumbs'.map (·.href.isSome)) :
    Node.Alike (breadcrumbNode crumbs) (breadcrumbNode crumbs') := by
  cases crumbs with
  | nil =>
    cases crumbs' with
    | nil => exact .refl _
    | cons _ _ => cases h
  | cons first rest =>
    cases crumbs' with
    | nil => cases h
    | cons first' rest' =>
      rw [List.map_cons, List.map_cons, List.cons.injEq] at h
      have hrest := Node.forall₂_alike_map (fun hview => alike_crumb " / " hview) h.2
      exact .plain "h1" (.cons (.list (.cons (alike_crumb "" h.1) hrest)) .nil)

theorem body_alike {p q : Page} (h : Alike p q) : Node.Alike p.body q.body := by
  have hlinks := Node.forall₂_alike_map_of_length alike_linkRow h.links
  have hinfo := Node.forall₂_alike_map (fun hview => alike_infoNode hview) h.info
  have hviews := Node.forall₂_alike_map_of_length alike_subpageRow h.subpages
  apply Node.Alike.fragment
  refine .cons (alike_breadcrumbNode h.breadcrumbs) (.cons (alike_bannerNode h.banner) ?_)
  refine .cons (alike_headedTable _ _ hlinks) (.cons (alike_headedTable _ _ hinfo) ?_)
  exact .cons h.content (.cons (alike_headedTable _ _ hviews) .nil)

theorem Alike.outline_render {p q : Page} (h : Alike p q) (hp : p.Proper) (hq : q.Proper) :
    outline p.render = outline q.render := by
  have hpbody : Closed p.body.render := (body_proper hp).closed_render
  have hqbody : Closed q.body.render := (body_proper hq).closed_render
  have hbody : outline p.body.render = outline q.body.render :=
    (body_alike h).outline_eq (body_proper hp) (body_proper hq)
  have hdocument := Node.alike_documentNode p.title q.title hpbody hqbody hbody
  unfold Page.render
  rw [frame_eq, frame_eq]
  exact hdocument.outline_eq (Node.proper_documentNode _ hpbody) (Node.proper_documentNode _ hqbody)

end Page
end QuotaDesk.Html
