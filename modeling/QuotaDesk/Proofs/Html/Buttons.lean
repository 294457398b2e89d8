import QuotaDesk.Proofs.Html.Page
import QuotaDesk.Proofs.Text.Split

/-! The buttons of markup, and which of them can be pressed. Those of a rendered tree are those
of its parts in order. -/

namespace QuotaDesk.Html

def disabling (word : List Char) : Bool :=
  word = "disabled".toList ∨ word = "disabled=\"\"".toList

/-- Whether a button can be pressed, read from its tag with the opening bracket. The words behind
the name are the attributes. -/
def pressable? (tag : List Char) : Option Bool :=
  match Text.splitOn ' ' tag with
  | [] => none
  | name :: words =>
    if name = "<button".toList then some (!words.any disabling) else none

def pressables (tags : List Char) : List Bool :=
  (Text.splitOn '>' tags).filterMap pressable?

def buttons (s : String) : List Bool :=
  pressables (outline s).toList

theorem pressables_nil : pressables [] = [] := by decide

theorem pressables_append (tags rest : List Char) :
    pressables (tags ++ '>' :: rest) = pressables tags ++ pressables rest := by
  rw [pressables, Text.splitOn_append, List.filterMap_append, pressables, pressables]

theorem buttons_of_tagless {s : String} (h : Tagless s) : buttons s = [] := by
  rw [buttons, outline_of_tagless h, String.toList_empty]
  exact pressables_nil

theorem eq_close_of_step {p : Place} {c : Char} (htext : p.step c = .text)
    (hkept : ¬(p ≠ .tag ∧ p.step c = p)) : c = '>' := by
  cases p with
  | text => exact absurd ⟨nofun, htext⟩ hkept
  | tag =>
    by_contra hc
    by_cases hquote : c = '"' <;> simp [Place.step, hc, hquote] at htext
  | quoted => by_cases hquote : c = '"' <;> simp [Place.step, hquote] at htext

theorem scan_keep_ends {s : List Char} (p : Place) (h : p.after s = .text) :
    p = .text ∧ scan keep p s [] = [] ∨ ∃ tags, scan keep p s [] = tags ++ ['>'] := by
  induction s generalizing p with
  | nil => exact .inl ⟨h, rfl⟩
  | cons c s ih =>
    rw [Place.after_cons] at h
    rw [scan, keep]
    rcases ih _ h with ⟨htext, hnil⟩ | ⟨tags, htags⟩
    · rw [hnil]
      split
      · next hstays => exact .inl ⟨hstays.2.symm.trans htext, rfl⟩
      · next hkept => exact .inr ⟨[], by rw [eq_close_of_step htext hkept]; rfl⟩
    · rw [htags]
      split
      · exact .inr ⟨tags, rfl⟩
      · exact .inr ⟨c :: tags, rfl⟩

theorem buttons_append {s : String} (h : Closed s) (t : String) :
    buttons (s ++ t) = buttons s ++ buttons t := by
  rw [buttons, outline_append h, String.toList_append, buttons, buttons]
  rcases scan_keep_ends .text h with ⟨-, hnil⟩ | ⟨tags, htags⟩
  · rw [toList_outline s, hnil, pressables_nil, List.nil_append, List.nil_append]
  · rw [toList_outline s, htags, List.append_assoc, List.singleton_append, pressables_append,
      pressables_append, pressables_nil, List.append_nil]

def Attribute.disables : Attribute → Bool
  | .value name _ => name = "disabled"
  | .flag name on => on && name = "disabled"

def Attribute.words : Attribute → List (List Char)
  | .value name _ => [name.toList ++ "=\"\"".toList]
  | .flag name on => if on then [name.toList] else []

def button? (tag : String) (attributes : List Attribute) : Option Bool :=
  if tag = "button" then some (!attributes.any Attribute.disables) else none

theorem splitOn_renderAll {attributes : List Attribute} (h : ∀ a ∈ attributes, a.Plain)
    {front : List Char} (hf : ' ' ∉ front) :
    Text.splitOn ' ' (front ++ (Attribute.renderAll (attributes.map Attribute.bare)).toList) =
      front :: attributes.flatMap Attribute.words := by
  induction attributes generalizing front with
  | nil => simp [Attribute.renderAll, Text.splitOn_of_not_mem hf]
  | cons a attributes ih =>
    rw [List.forall_mem_cons] at h
    simp only [Attribute.renderAll, List.map_cons, String.join_cons, String.toList_append] at ih ⊢
    cases a with
    | value name v =>
      have hname : PlainName name := h.1
      have hword : ' ' ∉ name.toList ++ "=\"\"".toList := by
        simpa using fun hb => (hname _ hb).2.2 rfl
      have hparts : front ++ ((Attribute.value name v).bare.render.toList ++
            (String.join ((attributes.map Attribute.bare).map Attribute.render)).toList) =
          front ++ ' ' :: (name.toList ++ "=\"\"".toList ++
            (String.join ((attributes.map Attribute.bare).map Attribute.render)).toList) := by
        simp [Attribute.value_toList, escape]
      rw [hparts, Text.splitOn_append_cons hf, ih h.2 hword]
      rfl
    | flag name on =>
      have hname : PlainName name := h.1
      have hword : ' ' ∉ name.toList := fun hb => (hname _ hb).2.2 rfl
      cases on with
      | false =>
        have hrest := ih h.2 hf
        simpa [Attribute.render, Attribute.words] using hrest
      | true =>
        have hparts : front ++ ((Attribute.flag name true).bare.render.toList ++
              (String.join ((attributes.map Attribute.bare).map Attribute.render)).toList) =
            front ++ ' ' :: (name.toList ++
              (String.join ((attributes.map Attribute.bare).map Attribute.render)).toList) := by
          simp [Attribute.render]
        rw [hparts, Text.splitOn_append_cons hf, ih h.2 hword]
        rfl

theorem Attribute.any_disabling {a : Attribute} (h : a.Plain) :
    a.words.any disabling = a.disables := by
  cases a with
  | value name v =>
    have hlong : "disabled=\"\"".toList = "disabled".toList ++ "=\"\"".toList := by decide
    have hshort : name.toList ++ "=\"\"".toList ≠ "disabled".toList := by
      intro heq
      have hquote : '"' ∈ "disabled".toList := by
        rw [← heq]
        simp
      exact absurd hquote (by decide)
    have hname : name.toList ++ "=\"\"".toList = "disabled=\"\"".toList ↔ name = "disabled" := by
      rw [hlong, List.append_left_inj, String.toList_inj]
    simp only [disables, words, disabling, List.any_cons, List.any_nil, Bool.or_false, hshort,
      false_or, hname]
  | flag name on =>
    have hname : PlainName name := h
    have hlong : name.toList ≠ "disabled=\"\"".toList := by
      intro heq
      have hquote : '"' ∈ name.toList := by
        rw [heq]
        decide
      exact (hname _ hquote).2.1 rfl
    cases on with
    | false => simp [disables, words]
    | true =>
      have hshort : name.toList = "disabled".toList ↔ name = "disabled" := String.toList_inj
      simp only [disables, words, disabling, if_true, List.any_cons, List.any_nil, Bool.or_false,
        hshort, hlong, or_false, Bool.true_and]

theorem pressable?_inside {tag : String} {attributes : List Attribute} (ht : PlainName tag)
    (ha : ∀ a ∈ attributes, a.Plain) :
    pressable? ('<' :: Node.inside tag (attributes.map Attribute.bare)) =
      button? tag attributes := by
  have hname : ' ' ∉ '<' :: tag.toList := by
    simpa using fun hb => (ht _ hb).2.2 rfl
  have hsplit := splitOn_renderAll ha hname
  have hbutton : '<' :: tag.toList = "<button".toList ↔ tag = "button" := by
    rw [show "<button".toList = '<' :: "button".toList by decide, List.cons_inj_right,
      String.toList_inj]
  have hwords : (attributes.flatMap Attribute.words).any disabling =
      attributes.any Attribute.disables := by
    rw [List.any_flatMap, Bool.eq_iff_iff, List.any_eq_true, List.any_eq_true]
    refine exists_congr fun a => and_congr_right fun hmem => ?_
    rw [Attribute.any_disabling (ha a hmem)]
  rw [pressable?, Node.inside, ← List.cons_append, hsplit, button?]
  simp only [hbutton, hwords]

open Node (openTag closeTag)

theorem outline_openTag {tag : String} {attributes : List Attribute} (ht : PlainName tag)
    (ha : ∀ a ∈ attributes, a.Plain) :
    outline (openTag tag attributes) = openTag tag (attributes.map Attribute.bare) := by
  have htag := Node.outliner_follows.tag ht ha []
  apply String.toList_inj.mp
  rw [toList_outline, htag]
  exact List.append_nil _

theorem close_not_mem_renderAll {attributes : List Attribute} (h : ∀ a ∈ attributes, a.Plain) :
    '>' ∉ (Attribute.renderAll (attributes.map Attribute.bare)).toList := by
  induction attributes with
  | nil => simp [Attribute.renderAll]
  | cons a attributes ih =>
    rw [List.forall_mem_cons] at h
    rw [List.map_cons, Attribute.renderAll, List.map_cons, String.join_cons, String.toList_append,
      List.mem_append, not_or]
    refine ⟨?_, ih h.2⟩
    cases a with
    | value name v =>
      have hname : PlainName name := h.1
      simpa [Attribute.value_toList, escape] using fun hc => (hname _ hc).1 rfl
    | flag name on =>
      have hname : PlainName name := h.1
      cases on with
      | false => simp [Attribute.render]
      | true => simpa [Attribute.render] using fun hc => (hname _ hc).1 rfl

theorem buttons_openTag {tag : String} {attributes : List Attribute} (ht : PlainName tag)
    (ha : ∀ a ∈ attributes, a.Plain) :
    buttons (openTag tag attributes) = (button? tag attributes).toList := by
  have hclose : '>' ∉ '<' :: Node.inside tag (attributes.map Attribute.bare) := by
    have hname : '>' ∉ tag.toList := fun hc => (ht _ hc).1 rfl
    simp [Node.inside, hname, close_not_mem_renderAll ha]
  have hbutton := pressable?_inside ht ha
  rw [buttons, outline_openTag ht ha, Node.openTag_toList, ← List.cons_append, pressables_append,
    pressables_nil, List.append_nil, pressables, Text.splitOn_of_not_mem hclose]
  rw [List.filterMap_cons, hbutton]
  cases button? tag attributes <;> rfl

theorem buttons_closeTag {tag : String} (h : PlainName tag) : buttons (closeTag tag) = [] := by
  have hne : "/" ++ tag ≠ "button" := by
    intro heq
    have hfirst : '/' ∈ "button".toList := by
      rw [← heq]
      simp
    exact absurd hfirst (by decide)
  rw [Node.closeTag_eq, buttons_openTag h.closing (by simp), button?, if_neg hne]
  rfl

theorem buttons_marker : buttons Node.marker = [] := by
  rw [Node.marker_eq, buttons_openTag (by decide) (by simp)]
  rfl

namespace Node

mutual

def buttons : Node → List Bool
  | .text _ => []
  | .element tag attributes children => (button? tag attributes).toList ++ buttonsAll children
  | .markup tag attributes inner => (button? tag attributes).toList ++ Html.buttons inner
  | .void tag attributes => (button? tag attributes).toList
  | .list items => buttonsAll items
  | .fragment items => buttonsAll items
  | .absent => []

def buttonsAll : List Node → List Bool
  | [] => []
  | n :: rest => buttons n ++ buttonsAll rest

end

theorem buttons_renderText (afterText : Bool) (s : String) :
    Html.buttons (renderText afterText s) = [] := by
  have hwritten : Html.buttons (written s) = [] := buttons_of_tagless (tagless_written s)
  cases afterText with
  | false => simpa [renderText, written] using hwritten
  | true =>
    have hmarked : Html.buttons (marker ++ written s) = [] := by
      rw [buttons_append closed_marker, buttons_marker, hwritten, List.append_nil]
    simpa [renderText, written] using hmarked

theorem buttons_around {tag : String} {attributes : List Attribute}
    (h : PlainName tag ∧ ∀ a ∈ attributes, a.Plain) {s : String} (hs : Closed s) :
    Html.buttons (openTag tag attributes ++ s ++ closeTag tag) =
      (button? tag attributes).toList ++ Html.buttons s := by
  rw [buttons_append ((closed_openTag h.1 h.2).append hs), buttons_append (closed_openTag h.1 h.2),
    buttons_openTag h.1 h.2, buttons_closeTag h.1, List.append_nil]

mutual

theorem buttons_renderAfter (afterText : Bool) :
    ∀ n : Node, n.Proper → Html.buttons (renderAfter afterText n).1 = n.buttons
  | .text s, _ => buttons_renderText afterText s
  | .element tag attributes children, h => by
    rw [buttons, ← buttons_renderItems false children h.2]
    exact buttons_around h.1 (closed_renderItems false children h.2)
  | .markup tag attributes inner, h => buttons_around h.1 h.2
  | .void tag attributes, h => buttons_openTag h.1 h.2
  | .list items, h => by
    rw [buttons, renderAfter, buttons_append (closed_renderItems afterText items h),
      buttons_marker, List.append_nil, buttons_renderItems afterText items h]
  | .fragment items, h => by
    rw [buttons, renderAfter, buttons_renderItems afterText items h]
  | .absent, _ => buttons_marker

theorem buttons_renderItems (afterText : Bool) :
    ∀ items : List Node, ProperItems items →
      Html.buttons (renderItems afterText items).1 = buttonsAll items
  | [], _ => buttons_of_tagless (s := "") (by decide)
  | n :: rest, h => by
    rw [buttonsAll, ← buttons_renderAfter afterText n h.1, ← buttons_renderItems _ rest h.2]
    exact buttons_append (closed_renderAfter afterText n h.1) _

end

theorem buttons_render {n : Node} (h : n.Proper) : Html.buttons n.render = n.buttons :=
  buttons_renderAfter false n h

theorem buttonsAll_append (front rest : List Node) :
    buttonsAll (front ++ rest) = buttonsAll front ++ buttonsAll rest := by
  induction front with
  | nil => rfl
  | cons n front ih => rw [List.cons_append, buttonsAll, buttonsAll, ih, List.append_assoc]

theorem buttonsAll_map {α : Type} (write : α → Node) (l : List α) :
    buttonsAll (l.map write) = l.flatMap fun x => (write x).buttons := by
  induction l with
  | nil => rfl
  | cons x l ih => rw [List.map_cons, buttonsAll, List.flatMap_cons, ih]

theorem buttons_labelled {tag : String} (h : tag ≠ "button") (s : String) :
    (labelled tag s).buttons = [] := by
  simp [labelled, plain, buttons, buttonsAll, button?, h]

end Node

namespace Page

open Node (buttonsAll buttonsAll_map plain labelled)

theorem buttons_crumb (separator : String) (b : Breadcrumb) : (crumb separator b).buttons = [] := by
  unfold crumb
  cases b.href <;> simp [Node.link, Node.buttons, buttonsAll, button?]

theorem buttons_breadcrumbNode (crumbs : List Breadcrumb) :
    (breadcrumbNode crumbs).buttons = [] := by
  cases crumbs with
  | nil => rfl
  | cons first rest =>
    simp [breadcrumbNode, plain, Node.buttons, buttonsAll, buttonsAll_map, buttons_crumb, button?]

theorem buttons_bannerNode (b : Option Banner) : (bannerNode b).buttons = [] := by
  cases b <;> simp [bannerNode, Node.buttons, buttonsAll, button?]

theorem buttons_headedTable (heading : String) {head : List Node} (hhead : buttonsAll head = [])
    (rows : List Node) : (headedTable heading head rows).buttons = buttonsAll rows := by
  unfold headedTable
  split
  case isTrue hempty =>
    obtain rfl : rows = [] := by simpa using hempty
    rfl
  case isFalse =>
    simp [plain, labelled, Node.buttons, buttonsAll, Node.buttonsAll_append, hhead, button?]

theorem buttons_linkRow (l : Link) : (linkRow l).buttons = [] := by
  simp [linkRow, plain, Node.link, Node.buttons, buttonsAll, button?]

theorem buttons_subpageRow (s : Subpage) : (subpageRow s).buttons = [] := by
  simp [subpageRow, plain, labelled, Node.link, Node.buttons, buttonsAll, button?]

theorem buttons_infoNode (row : InfoRow) : (infoNode row).buttons = buttons row.value := by
  simp [infoNode, plain, labelled, Node.buttons, buttonsAll, button?]

theorem buttons_body (p : Page) :
    p.body.buttons = (p.info.flatMap fun row => buttons row.value) ++ p.content.buttons := by
  have hlinks : buttonsAll (p.links.map linkRow) = [] := by
    simp [buttonsAll_map, buttons_linkRow]
  have hviews : buttonsAll (p.subpages.map subpageRow) = [] := by
    simp [buttonsAll_map, buttons_subpageRow]
  have hinfo : buttonsAll (p.info.map infoNode) = p.info.flatMap fun row => buttons row.value := by
    simp [buttonsAll_map, buttons_infoNode]
  have hhead :
      buttonsAll [plain "tr" [labelled "th" "View", labelled "th" "Description"]] = [] := by
    simp [plain, labelled, Node.buttons, buttonsAll, button?]
  have hnone : buttonsAll [] = [] := rfl
  simp only [body, Node.buttons, buttonsAll, buttons_breadcrumbNode, buttons_bannerNode,
    buttons_headedTable _ hnone, buttons_headedTable _ hhead, hlinks, hinfo, hviews,
    List.nil_append, List.append_nil]

theorem buttons_render {p : Page} (h : p.Proper) :
    buttons p.render = (p.info.flatMap fun row => buttons row.value) ++ p.content.buttons := by
  have hbody := body_proper h
  have htitle : buttons (escape p.title) = [] := buttons_of_tagless (tagless_escape p.title)
  have hstyle : buttons ("\n" ++ styleSheet) = [] :=
    buttons_of_tagless (Tagless.append (by decide) tagless_styleSheet)
  have hnewline : buttons "\n" = [] := buttons_of_tagless (by decide)
  have hinner : buttons ("\n" ++ p.body.render ++ "\n") = p.body.buttons := by
    rw [buttons_append (Node.closed_newline.append hbody.closed_render),
      buttons_append Node.closed_newline, hnewline, Node.buttons_render hbody, List.nil_append,
      List.append_nil]
  unfold Page.render
  rw [frame_eq, Node.buttons_render (Node.proper_documentNode _ hbody.closed_render),
    ← buttons_body]
  simp [Node.documentNode, plain, Node.buttons, buttonsAll, button?, htitle, hstyle, hinner]

end Page
end QuotaDesk.Html
