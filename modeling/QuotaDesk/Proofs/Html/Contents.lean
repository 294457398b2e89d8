import QuotaDesk.Proofs.Html.Page

/-! What a reader finds in a page: the values of its fields, the texts of its notices and the
rows of its ledger. Each part of a page adds to what is found behind it. -/

namespace QuotaDesk.Html

open Node (visit visitItems reader plain labelled link shown)

def ledgerRows (ts : List Tag) : List (List String) :=
  (cellRows ts).filter (·.length = 5)

theorem words_of_ne_blank {s : String} (h : ' ' ∉ s.toList) : words s = [s] := by
  rw [words, Text.splitOn_of_not_mem h, List.map_singleton, String.ofList_toList]

@[simp]
theorem words_empty : words "" = [""] := words_of_ne_blank (by decide)

/-- What is read from a place on: the values of the fields, the notices, the cells up to the
next row, and the rows of the ledger after that. -/
structure Finds (r : Reading) (values : List (List (String × String))) (notices cells : List String)
    (rows : List (List String)) : Prop where
  inputs : fields r.tags = values
  notices : textsOfClass "notice" r.tags = notices
  rows : ∃ all, cellRows r.tags = cells :: all ∧ all.filter (·.length = 5) = rows

section Parts

variable {r : Reading} {values values' : List (List (String × String))}
  {notices notices' cells : List String} {rows rows' : List (List String)}

def Quiet (tag : String) : Prop :=
  tag ∉ ["input", "tr", "td"]

instance (tag : String) : Decidable (Quiet tag) :=
  inferInstanceAs (Decidable (tag ∉ ["input", "tr", "td"]))

def classOf (attributes : List Attribute) : String :=
  ((attributes.filterMap Attribute.pair?).lookup "class").getD ""

@[simp]
theorem classOf_nil : classOf [] = "" := rfl

@[simp]
theorem classOf_value (name v : String) (attributes : List Attribute) :
    classOf (.value name v :: attributes) = if name = "class" then v else classOf attributes := by
  unfold classOf
  by_cases h : name = "class"
  · simp [h]
  · have hne : ("class" == name) = false := beq_eq_false_iff_ne.mpr (Ne.symm h)
    simp [List.lookup_cons, h, hne]

@[simp]
theorem classOf_flag (name : String) (on : Bool) (attributes : List Attribute) :
    classOf (.flag name on :: attributes) = classOf attributes := rfl

theorem Finds.text (h : Finds r values notices cells rows) (s : String) :
    Finds (reader.text s r) values notices cells rows :=
  ⟨h.inputs, h.notices, h.rows⟩

theorem Finds.tag (h : Finds r values notices cells rows) {name : String} (hname : Quiet name)
    {attributes : List Attribute} (hclass : "notice" ∉ words (classOf attributes)) :
    Finds (reader.tag name attributes r) values notices cells rows := by
  obtain ⟨hfields, hnotices, all, hcells, hrows⟩ := h
  simp only [Quiet, List.mem_cons, List.not_mem_nil, or_false, not_or] at hname
  obtain ⟨hinput, htr, htd⟩ := hname
  constructor
  · simpa [fields_cons, hinput] using hfields
  · unfold classOf at hclass
    simpa [textsOfClass_cons, Tag.hasClass, hclass] using hnotices
  · exact ⟨all, by simpa [cellRows, htr, htd] using hcells, hrows⟩

theorem Finds.bare (h : Finds r values notices cells rows) {name : String} (hname : Quiet name) :
    Finds (reader.tag name [] r) values notices cells rows :=
  h.tag hname (by simp)

theorem Finds.notice (h : Finds r values notices cells rows) {name : String} (hname : Quiet name)
    {attributes : List Attribute} (hclass : "notice" ∈ words (classOf attributes)) :
    Finds (reader.tag name attributes r) values (unescape (String.ofList r.behind) :: notices)
      cells rows := by
  obtain ⟨hfields, hnotices, all, hcells, hrows⟩ := h
  simp only [Quiet, List.mem_cons, List.not_mem_nil, or_false, not_or] at hname
  obtain ⟨hinput, htr, htd⟩ := hname
  constructor
  · simpa [fields_cons, hinput] using hfields
  · unfold classOf at hclass
    simpa [textsOfClass_cons, Tag.hasClass, hclass] using hnotices
  · exact ⟨all, by simpa [cellRows, htr, htd] using hcells, hrows⟩

theorem Finds.input (h : Finds r values notices cells rows) {attributes : List Attribute}
    (hclass : "notice" ∉ words (classOf attributes)) :
    Finds (reader.tag "input" attributes r) (attributes.filterMap Attribute.pair? :: values)
      notices cells rows := by
  obtain ⟨hfields, hnotices, all, hcells, hrows⟩ := h
  constructor
  · simpa [fields_cons] using hfields
  · unfold classOf at hclass
    simpa [textsOfClass_cons, Tag.hasClass, hclass] using hnotices
  · exact ⟨all, by simpa [cellRows] using hcells, hrows⟩

/-- What a part of a page adds, wherever it stands. -/
def Adds (n : Node) (values : List (List (String × String))) (notices : List String)
    (rows : List (List String)) : Prop :=
  ∀ afterText r values' notices' rows', Finds r values' notices' [] rows' →
    Finds (visit reader afterText n r) (values ++ values') (notices ++ notices') [] (rows ++ rows')

def AddsAll (items : List Node) (values : List (List (String × String))) (notices : List String)
    (rows : List (List String)) : Prop :=
  ∀ afterText r values' notices' rows', Finds r values' notices' [] rows' →
    Finds (visitItems reader afterText items r) (values ++ values') (notices ++ notices') []
      (rows ++ rows')

def AddsInner (inner : String) (values : List (List (String × String))) : Prop :=
  ∀ r values' notices rows, Finds r values' notices [] rows →
    Finds (reader.inner inner r) (values ++ values') notices [] rows

theorem AddsAll.nil : AddsAll [] [] [] [] := fun _ _ _ _ _ h => h

theorem AddsAll.cons {n : Node} {rest : List Node} (hn : Adds n values notices rows)
    (hrest : AddsAll rest values' notices' rows') :
    AddsAll (n :: rest) (values ++ values') (notices ++ notices') (rows ++ rows') := by
  intro afterText r _ _ _ h
  rw [List.append_assoc, List.append_assoc, List.append_assoc]
  exact hn _ _ _ _ _ (hrest _ _ _ _ _ h)

theorem AddsAll.map {α : Type} {write : α → Node} {row : α → List (List String)}
    (hw : ∀ x, Adds (write x) [] [] (row x)) (l : List α) :
    AddsAll (l.map write) [] [] (l.flatMap row) := by
  induction l with
  | nil => exact .nil
  | cons x l ih => exact AddsAll.cons (hw x) ih

theorem AddsAll.map_nil {α : Type} {write : α → Node} (hw : ∀ x, Adds (write x) [] [] [])
    (l : List α) : AddsAll (l.map write) [] [] [] := by
  have hrows : l.flatMap (fun _ => ([] : List (List String))) = [] := by simp
  rw [← hrows]
  exact .map hw l

theorem Adds.text (s : String) : Adds (.text s) [] [] [] := by
  intro afterText r _ _ _ h
  cases afterText with
  | false => exact h.text s
  | true => exact (h.text s).bare (by decide)

theorem Adds.absent : Adds .absent [] [] [] :=
  fun _ _ _ _ _ h => h.bare (by decide)

theorem Adds.fragment {items : List Node} (h : AddsAll items values notices rows) :
    Adds (.fragment items) values notices rows := h

theorem Adds.list {items : List Node} (h : AddsAll items values notices rows) :
    Adds (.list items) values notices rows :=
  fun _ _ _ _ _ hr => h _ _ _ _ _ (hr.bare (by decide))

theorem Adds.element {tag : String} (ht : Quiet tag ∧ Quiet ("/" ++ tag))
    {attributes : List Attribute} (hclass : "notice" ∉ words (classOf attributes))
    {children : List Node} (h : AddsAll children values notices rows) :
    Adds (.element tag attributes children) values notices rows :=
  fun _ _ _ _ _ hr => (h _ _ _ _ _ (hr.bare ht.2)).tag ht.1 hclass

theorem Adds.plain {tag : String} (ht : Quiet tag ∧ Quiet ("/" ++ tag)) {children : List Node}
    (h : AddsAll children values notices rows) : Adds (plain tag children) values notices rows :=
  .element ht (by simp) h

theorem Adds.labelled {tag : String} (ht : Quiet tag ∧ Quiet ("/" ++ tag)) (label : String) :
    Adds (labelled tag label) [] [] [] :=
  .plain ht (.cons (.text label) .nil)

theorem Adds.link (href label : String) : Adds (link href label) [] [] [] :=
  .element (by decide) (by simp) (.cons (.text label) .nil)

theorem Adds.markup {tag : String} (ht : Quiet tag ∧ Quiet ("/" ++ tag))
    {attributes : List Attribute} (hclass : "notice" ∉ words (classOf attributes)) {inner : String}
    (h : AddsInner inner values) : Adds (.markup tag attributes inner) values [] [] :=
  fun _ _ _ _ _ hr => (h _ _ _ _ (hr.bare ht.2)).tag ht.1 hclass

theorem AddsInner.of_render {n : Node} (hn : n.Proper) (h : Adds n values [] []) :
    AddsInner n.render values := by
  intro r _ _ _ hr
  rw [Node.reader_follows.inner_render hn]
  exact h _ _ _ _ _ hr

theorem reader_inner_escape (s : String) (r : Reading) :
    reader.inner (escape s) r = { r with behind := (escape s).toList ++ r.behind } := by
  rw [← Node.reader_follows.inner, scan_collect_of_tagless (tagless_escape s)]

end Parts

namespace Page

def pageEnd : Reading where
  behind := ['\n']
  tags := [⟨"/body", [], "\n"⟩, ⟨"/html", [], ""⟩]

theorem reader_inner_body {body : Node} (h : body.Proper) (r : Reading) :
    (reader.inner ("\n" ++ body.render ++ "\n") r).tags =
      (visit reader false body { r with behind := '\n' :: r.behind }).tags := by
  have hnewline (t : Reading) :
      scan collect .text "\n".toList t = { t with behind := '\n' :: t.behind } :=
    scan_collect_of_tagless (by decide) t
  have hinner := Node.reader_follows.inner_render h { r with behind := '\n' :: r.behind }
  rw [← hinner, ← Node.reader_follows.inner, ← Node.reader_follows.inner,
    scan_closed_append (Node.closed_newline.append h.closed_render),
    scan_closed_append Node.closed_newline, hnewline, hnewline]

theorem tags_render {p : Page} (h : p.Proper) : ∃ style body : String, tags p.render = [
    ⟨"!DOCTYPE", [], "\n"⟩, ⟨"html", [], "\n"⟩, ⟨"head", [], "\n"⟩,
    ⟨"meta", [("charset", "utf-8")], "\n"⟩, ⟨"title", [], p.title⟩, ⟨"/title", [], "\n"⟩,
    ⟨"style", [], style⟩, ⟨"/style", [], "\n"⟩, ⟨"/head", [], "\n"⟩, ⟨"body", [], body⟩] ++
      (visit reader false p.body pageEnd).tags := by
  have hbody := body_proper h
  have hblank : shown "\n" = "\n" := rfl
  have hdocument := Node.scan_renderAfter Node.reader_follows false
    (Node.documentNode p.title p.body.render) (Node.proper_documentNode _ hbody.closed_render) {}
  have hstyle (r : Reading) : reader.inner ("\n" ++ styleSheet) r =
      { r with behind := '\n' :: styleSheet.toList ++ r.behind } := by
    have htagless : Tagless ("\n" ++ styleSheet) := Tagless.append (by decide) tagless_styleSheet
    rw [← Node.reader_follows.inner, scan_collect_of_tagless htagless, String.toList_append]
    rfl
  unfold tags Page.render
  rw [frame_eq, Node.render, hdocument]
  refine ⟨unescape (String.ofList ('\n' :: styleSheet.toList)),
    unescape (String.ofList (reader.inner ("\n" ++ p.body.render ++ "\n")
      { tags := pageEnd.tags }).behind), ?_⟩
  simp [Node.documentNode, visit, visitItems, plain, reader_inner_body hbody, hstyle, hblank, pageEnd,
    reader_inner_escape]

theorem finds_pageEnd : Finds pageEnd [] [] [] [] where
  inputs := rfl
  notices := rfl
  rows := ⟨[], rfl, rfl⟩

theorem found {p : Page} (h : p.Proper) {values : List (List (String × String))}
    {notices : List String} {rows : List (List String)} (hbody : Adds p.body values notices rows) :
    fields (tags p.render) = values ∧ textsOfClass "notice" (tags p.render) = notices ∧
      ledgerRows (tags p.render) = rows := by
  obtain ⟨style, body, htags⟩ := tags_render h
  obtain ⟨hfields, hnotices, all, hcells, hrows⟩ := hbody false _ _ _ _ finds_pageEnd
  rw [htags]
  refine ⟨?_, ?_, ?_⟩
  · simpa [fields_cons] using hfields
  · simpa [textsOfClass_cons, Tag.hasClass, List.lookup_cons] using hnotices
  · simpa [ledgerRows, cellRows, hcells] using hrows

end Page
end QuotaDesk.Html
