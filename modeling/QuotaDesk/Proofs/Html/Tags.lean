import QuotaDesk.Proofs.Html.Scan
import QuotaDesk.Proofs.Text.Split

/-! Reading the tags of markup, with the values and the texts they carry. -/

namespace QuotaDesk.Html

open Text (splitOn_of_not_mem splitOn_append_cons)

/-- A tag with its quoted values under their names, and the text between it and the next
tag; values and text are unescaped. -/
structure Tag where
  name : String
  values : List (String × String)
  text : String
  deriving DecidableEq, Repr

namespace Tag

def valueName (front : List Char) : String :=
  String.ofList (front.reverse.takeWhile (· ≠ ' ')).reverse.dropLast

def namedValues : List (List Char) → List (String × String)
  | front :: v :: rest => (valueName front, unescape (String.ofList v)) :: namedValues rest
  | _ => []

def read (inside behind : List Char) : Tag where
  name := String.ofList (inside.takeWhile (· ≠ ' '))
  values := namedValues (Text.splitOn '"' inside)
  text := unescape (String.ofList behind)

end Tag

/-- What is read from a place to the end of the markup: the rest of the tag at that place,
the text in front of the next tag, and the tags from there on. -/
structure Reading where
  inside : List Char := []
  behind : List Char := []
  tags : List Tag := []

def collect (p : Place) (c : Char) (r : Reading) : Reading :=
  match p, p.step c with
  | .text, .tag => { tags := Tag.read r.inside r.behind :: r.tags }
  | .text, _ => { r with behind := c :: r.behind }
  | _, .text => { r with inside := [] }
  | _, _ => { r with inside := c :: r.inside }

def tags (s : String) : List Tag :=
  (scan collect .text s.toList {}).tags

def fields (ts : List Tag) : List (List (String × String)) :=
  (ts.filter (·.name = "input")).map (·.values)

def words (s : String) : List String :=
  (Text.splitOn ' ' s.toList).map String.ofList

def Tag.hasClass (name : String) (t : Tag) : Bool :=
  (words ((t.values.lookup "class").getD "")).contains name

def textsOfClass (name : String) (ts : List Tag) : List String :=
  (ts.filter (·.hasClass name)).map (·.text)

theorem fields_cons (t : Tag) (ts : List Tag) :
    fields (t :: ts) = if t.name = "input" then t.values :: fields ts else fields ts := by
  unfold fields
  rw [List.filter_cons]
  by_cases h : t.name = "input" <;> simp [h]

theorem textsOfClass_cons (name : String) (t : Tag) (ts : List Tag) :
    textsOfClass name (t :: ts) =
      if t.hasClass name then t.text :: textsOfClass name ts else textsOfClass name ts := by
  unfold textsOfClass
  rw [List.filter_cons]
  by_cases h : t.hasClass name <;> simp [h]

def cellRows : List Tag → List (List String)
  | [] => [[]]
  | t :: rest =>
    if t.name = "tr" then [] :: cellRows rest
    else if t.name = "td" then (cellRows rest).modifyHead (t.text :: ·)
    else cellRows rest

theorem collect_text {c : Char} (h : c ≠ '<') (r : Reading) :
    collect .text c r = { r with behind := c :: r.behind } := by
  simp [collect, Place.step_text h]

theorem foldr_collect_text {s : List Char} (h : ∀ c ∈ s, c ≠ '<') (r : Reading) :
    s.foldr (collect .text) r = { r with behind := s ++ r.behind } := by
  induction s with
  | nil => rfl
  | cons c s ih =>
    rw [List.forall_mem_cons] at h
    rw [List.foldr_cons, ih h.2, collect_text h.1]
    rfl

theorem scan_collect_of_tagless {s : String} (h : Tagless s) (r : Reading) :
    scan collect .text s.toList r = { r with behind := s.toList ++ r.behind } := by
  rw [scan_of_stays fun c hc => Place.step_text (h c hc), foldr_collect_text h]

theorem collect_inside {p : Place} {c : Char} (hp : p ≠ .text) (h : p.step c ≠ .text)
    (r : Reading) : collect p c r = { r with inside := c :: r.inside } := by
  unfold collect
  split <;> simp_all

theorem foldr_collect_inside {p : Place} (hp : p ≠ .text) {s : List Char}
    (h : ∀ c ∈ s, p.step c = p) (r : Reading) :
    s.foldr (collect p) r = { r with inside := s ++ r.inside } := by
  induction s with
  | nil => rfl
  | cons c s ih =>
    rw [List.forall_mem_cons] at h
    rw [List.foldr_cons, ih h.2, collect_inside hp (by rwa [h.1])]
    rfl

theorem scan_collect_render {a : Attribute} (h : a.Plain) (r : Reading) :
    scan collect .tag a.render.toList r = { r with inside := a.render.toList ++ r.inside } := by
  cases a with
  | value name v =>
    rw [Attribute.scan_value h, collect_inside (by decide) (by decide),
      foldr_collect_inside (by decide) (Attribute.escape_stays v),
      collect_inside (by decide) (by decide),
      foldr_collect_inside (by decide) (Attribute.name_stays h)]
    simp [Attribute.value_toList]
  | flag name on =>
    have hs := Attribute.flag_stays h on
    rw [scan_of_stays hs, foldr_collect_inside (by decide) hs]

theorem scan_collect_renderAll {attributes : List Attribute} (h : ∀ a ∈ attributes, a.Plain)
    (r : Reading) :
    scan collect .tag (Attribute.renderAll attributes).toList r =
      { r with inside := (Attribute.renderAll attributes).toList ++ r.inside } := by
  induction attributes with
  | nil => rfl
  | cons a attributes ih =>
    rw [List.forall_mem_cons] at h
    simp only [Attribute.renderAll, List.map_cons, String.join_cons, String.toList_append] at ih ⊢
    rw [scan_append, Attribute.after_render h.1, ih h.2, scan_collect_render h.1, List.append_assoc]

def Attribute.pair? : Attribute → Option (String × String)
  | .value name v => some (name, v)
  | .flag _ _ => none

@[simp]
theorem Attribute.pair?_value (name v : String) : (value name v).pair? = some (name, v) := rfl

@[simp]
theorem Attribute.pair?_flag (name : String) (on : Bool) : (flag name on).pair? = none := rfl

theorem takeWhile_word {w rest : List Char} (hw : ∀ c ∈ w, c ≠ ' ')
    (hrest : rest = [] ∨ ∃ t, rest = ' ' :: t) : (w ++ rest).takeWhile (· ≠ ' ') = w := by
  rw [List.takeWhile_append_of_pos fun c hc => decide_eq_true (hw c hc)]
  rcases hrest with rfl | ⟨t, rfl⟩ <;> simp

theorem valueName_append {name : String} (h : PlainName name) (front : List Char) :
    Tag.valueName (front ++ (' ' :: name.toList ++ ['='])) = name := by
  have hword : ∀ c ∈ '=' :: name.toList.reverse, c ≠ ' ' := by
    simpa using fun c hc => (h c hc).2.2
  have hreverse : (front ++ (' ' :: name.toList ++ ['='])).reverse =
      ('=' :: name.toList.reverse) ++ ' ' :: front.reverse := by simp
  rw [Tag.valueName, hreverse, takeWhile_word hword (.inr ⟨_, rfl⟩)]
  simp

theorem namedValues_renderAll {attributes : List Attribute} (h : ∀ a ∈ attributes, a.Plain)
    {front : List Char} (hf : '"' ∉ front) :
    Tag.namedValues (Text.splitOn '"' (front ++ (Attribute.renderAll attributes).toList)) =
      attributes.filterMap Attribute.pair? := by
  -- A flag has no quotes and joins the text in front of the next value.
  induction attributes generalizing front with
  | nil => simp [Attribute.renderAll, splitOn_of_not_mem hf, Tag.namedValues]
  | cons a attributes ih =>
    rw [List.forall_mem_cons] at h
    simp only [Attribute.renderAll, List.map_cons, String.join_cons, String.toList_append] at ih ⊢
    cases a with
    | value name v =>
      have hname : PlainName name := h.1
      have hfront : '"' ∉ front ++ (' ' :: name.toList ++ ['=']) := by
        simpa [hf] using fun hq => (hname _ hq).2.1 rfl
      have hv : '"' ∉ (escape v).toList := fun hq => (escape_ne v _ hq).2 rfl
      have htail := ih h.2 (List.not_mem_nil (a := '"'))
      have hparts : front ++ ((Attribute.value name v).render.toList ++
            (String.join (attributes.map Attribute.render)).toList) =
          (front ++ (' ' :: name.toList ++ ['='])) ++ '"' :: ((escape v).toList ++ '"' ::
            ([] ++ (String.join (attributes.map Attribute.render)).toList)) := by
        simp [Attribute.value_toList]
      rw [hparts, splitOn_append_cons hfront, splitOn_append_cons hv, Tag.namedValues, htail,
        valueName_append hname, String.ofList_toList, unescape_escape]
      rfl
    | flag name on =>
      have hname : PlainName name := h.1
      have hflag : '"' ∉ (Attribute.flag name on).render.toList := by
        cases on with
        | false => simp [Attribute.render]
        | true => simpa [Attribute.render] using fun hq => (hname _ hq).2.1 rfl
      rw [← List.append_assoc, ih h.2 (by simp [hf, hflag])]
      rfl

theorem renderAll_front (attributes : List Attribute) :
    (Attribute.renderAll attributes).toList = [] ∨
      ∃ t, (Attribute.renderAll attributes).toList = ' ' :: t := by
  induction attributes with
  | nil => exact .inl rfl
  | cons a attributes ih =>
    rw [Attribute.renderAll, List.map_cons, String.join_cons, String.toList_append]
    cases a with
    | value name v =>
      rw [Attribute.value_toList]
      exact .inr ⟨_, rfl⟩
    | flag name on =>
      cases on with
      | false => exact ih
      | true =>
        right
        simp [Attribute.render]

theorem tagName_inside {tag : String} (h : PlainName tag) (attributes : List Attribute) :
    String.ofList ((Node.inside tag attributes).takeWhile (· ≠ ' ')) = tag := by
  rw [Node.inside, takeWhile_word (fun c hc => (h c hc).2.2) (renderAll_front attributes),
    String.ofList_toList]

theorem Tag.read_inside {tag : String} {attributes : List Attribute} (ht : PlainName tag)
    (ha : ∀ a ∈ attributes, a.Plain) (behind : List Char) :
    Tag.read (Node.inside tag attributes) behind =
      ⟨tag, attributes.filterMap Attribute.pair?, unescape (String.ofList behind)⟩ := by
  have hquote : '"' ∉ tag.toList := fun hq => (ht _ hq).2.1 rfl
  rw [Tag.read, tagName_inside ht, Node.inside, namedValues_renderAll ha hquote]

namespace Node

def shown (s : String) : String :=
  if s.isEmpty then " " else s

@[simp]
theorem unescape_written (s : String) : unescape (written s) = shown s := by
  unfold written shown
  split
  · rfl
  · exact unescape_escapeText s

def reader : Visitor Reading where
  text s r := { r with behind := (written s).toList ++ r.behind }
  tag name attributes r :=
    { tags := ⟨name, attributes.filterMap Attribute.pair?,
        unescape (String.ofList r.behind)⟩ :: r.tags }
  inner s r := scan collect .text s.toList r

@[simp]
theorem reader_text (s : String) (r : Reading) :
    reader.text s r = { r with behind := (written s).toList ++ r.behind } := rfl

@[simp]
theorem reader_tag (name : String) (attributes : List Attribute) (r : Reading) :
    reader.tag name attributes r = { tags := ⟨name, attributes.filterMap Attribute.pair?,
      unescape (String.ofList r.behind)⟩ :: r.tags } := rfl

theorem reader_follows : reader.Follows collect where
  text s r := scan_collect_of_tagless (tagless_written s) r
  tag ht ha r := by
    have hread := Tag.read_inside ht ha r.behind
    rw [scan_openTag ht ha, scan_collect_renderAll ha, foldr_collect_inside (by decide) ht.stays]
    simpa [collect, Place.step, inside, reader] using hread
  inner _ _ := rfl

example : tags (link "\"><b>" "<i>").render =
    [⟨"a", [("href", "\"><b>")], "<i>"⟩, ⟨"/a", [], ""⟩] := by
  decide +kernel

end Node
end QuotaDesk.Html
