import QuotaDesk.Html.Node
import QuotaDesk.Proofs.Html.Unescape

/-! Scanning markup character by character. A scan of the text of a tree goes from
tag to tag of the tree: no text and no attribute value can open a tag or close one. -/

namespace QuotaDesk.Html

inductive Place
  | text
  | tag
  | quoted
  deriving DecidableEq, Repr

namespace Place

def step : Place → Char → Place
  | .text, c => if c = '<' then .tag else .text
  | .tag, c => if c = '>' then .text else if c = '"' then .quoted else .tag
  | .quoted, c => if c = '"' then .tag else .quoted

def after (p : Place) (s : List Char) : Place :=
  s.foldl step p

theorem after_cons (p : Place) (c : Char) (s : List Char) :
    p.after (c :: s) = (p.step c).after s := rfl

theorem after_append (p : Place) (s t : List Char) : p.after (s ++ t) = (p.after s).after t :=
  List.foldl_append

theorem after_of_stays {p : Place} {s : List Char} (h : ∀ c ∈ s, p.step c = p) :
    p.after s = p := by
  induction s with
  | nil => rfl
  | cons c s ih =>
    rw [List.forall_mem_cons] at h
    rw [after_cons, h.1, ih h.2]

theorem step_text {c : Char} (h : c ≠ '<') : text.step c = .text := if_neg h

theorem step_tag {c : Char} (h : c ≠ '>' ∧ c ≠ '"') : tag.step c = .tag := by
  simp [step, h]

theorem step_quoted {c : Char} (h : c ≠ '"') : quoted.step c = .quoted := if_neg h

end Place

variable {β : Type} {f : Place → Char → β → β}

/-- A fold from the right; `f` sees each character with the place in front of it. -/
def scan (f : Place → Char → β → β) : Place → List Char → β → β
  | _, [], r => r
  | p, c :: s, r => f p c (scan f (p.step c) s r)

theorem scan_append (p : Place) (s t : List Char) (r : β) :
    scan f p (s ++ t) r = scan f p s (scan f (p.after s) t r) := by
  induction s generalizing p with
  | nil => rfl
  | cons c s ih =>
    rw [List.cons_append, scan, scan, ih]
    rfl

theorem scan_of_stays {p : Place} {s : List Char} (h : ∀ c ∈ s, p.step c = p) (r : β) :
    scan f p s r = s.foldr (f p) r := by
  induction s with
  | nil => rfl
  | cons c s ih =>
    rw [List.forall_mem_cons] at h
    rw [scan, h.1, ih h.2, List.foldr_cons]

def Closed (s : String) : Prop :=
  Place.text.after s.toList = .text

theorem scan_closed_append {s : String} (h : Closed s) (t : String) (r : β) :
    scan f .text (s ++ t).toList r = scan f .text s.toList (scan f .text t.toList r) := by
  rw [String.toList_append, scan_append, h]

theorem Closed.append {s t : String} (hs : Closed s) (ht : Closed t) : Closed (s ++ t) := by
  unfold Closed at *
  rw [String.toList_append, Place.after_append, hs, ht]

theorem Tagless.closed {s : String} (h : Tagless s) : Closed s :=
  Place.after_of_stays fun c hc => Place.step_text (h c hc)

def PlainName (s : String) : Prop :=
  ∀ c ∈ s.toList, c ≠ '>' ∧ c ≠ '"' ∧ c ≠ ' '

instance (s : String) : Decidable (PlainName s) :=
  List.decidableBAll (fun c => c ≠ '>' ∧ c ≠ '"' ∧ c ≠ ' ') s.toList

theorem PlainName.stays {s : String} (h : PlainName s) : ∀ c ∈ s.toList, Place.tag.step c = .tag :=
  fun c hc => Place.step_tag ⟨(h c hc).1, (h c hc).2.1⟩

theorem PlainName.closing {s : String} (h : PlainName s) : PlainName ("/" ++ s) := by
  unfold PlainName at *
  simpa using h

namespace Attribute

def Plain : Attribute → Prop
  | .value name _ => PlainName name
  | .flag name _ => PlainName name

theorem value_toList (name v : String) :
    (value name v).render.toList =
      ' ' :: name.toList ++ ['='] ++ '"' :: ((escape v).toList ++ ['"']) := by
  simp [render]

theorem flag_stays {name : String} (h : PlainName name) (on : Bool) :
    ∀ c ∈ (flag name on).render.toList, Place.tag.step c = .tag := by
  cases on with
  | false => simp [render]
  | true => simpa [render, Place.step] using h.stays

theorem name_stays {name : String} (h : PlainName name) :
    ∀ c ∈ ' ' :: name.toList ++ ['='], Place.tag.step c = .tag := by
  simpa [Place.step, or_imp, forall_and] using h.stays

theorem escape_stays (v : String) : ∀ c ∈ (escape v).toList, Place.quoted.step c = .quoted :=
  fun c hc => Place.step_quoted (escape_ne v c hc).2

theorem after_value {name : String} (h : PlainName name) (v : String) :
    Place.tag.after (value name v).render.toList = .tag := by
  rw [value_toList, Place.after_append, Place.after_of_stays (name_stays h), Place.after_cons]
  change Place.quoted.after _ = _
  rw [Place.after_append, Place.after_of_stays (escape_stays v)]
  rfl

theorem scan_value {name : String} (h : PlainName name) (v : String) (r : β) :
    scan f .tag (value name v).render.toList r =
      (' ' :: name.toList ++ ['=']).foldr (f .tag)
        (f .tag '"' ((escape v).toList.foldr (f .quoted) (f .quoted '"' r))) := by
  rw [value_toList, scan_append, Place.after_of_stays (name_stays h), scan_of_stays (name_stays h)]
  change List.foldr _ (f .tag '"' (scan f .quoted _ r)) _ = _
  rw [scan_append, Place.after_of_stays (escape_stays v), scan_of_stays (escape_stays v)]
  rfl

theorem after_render {a : Attribute} (h : a.Plain) : Place.tag.after a.render.toList = .tag := by
  cases a with
  | value name v => exact after_value h v
  | flag name on => exact Place.after_of_stays (flag_stays h on)

theorem after_renderAll {attributes : List Attribute} (h : ∀ a ∈ attributes, a.Plain) :
    Place.tag.after (renderAll attributes).toList = .tag := by
  induction attributes with
  | nil => rfl
  | cons a attributes ih =>
    rw [List.forall_mem_cons] at h
    rw [renderAll, List.map_cons, String.join_cons, String.toList_append, Place.after_append,
      after_render h.1]
    exact ih h.2

end Attribute

namespace Node

def inside (tag : String) (attributes : List Attribute) : List Char :=
  tag.toList ++ (Attribute.renderAll attributes).toList

theorem openTag_toList (tag : String) (attributes : List Attribute) :
    (openTag tag attributes).toList = '<' :: (inside tag attributes ++ ['>']) := by
  simp [openTag, inside]

theorem after_inside {tag : String} {attributes : List Attribute} (ht : PlainName tag)
    (ha : ∀ a ∈ attributes, a.Plain) : Place.tag.after (inside tag attributes) = .tag := by
  rw [inside, Place.after_append, Place.after_of_stays ht.stays, Attribute.after_renderAll ha]

theorem closed_openTag {tag : String} {attributes : List Attribute} (ht : PlainName tag)
    (ha : ∀ a ∈ attributes, a.Plain) : Closed (openTag tag attributes) := by
  rw [Closed, openTag_toList, Place.after_cons]
  change Place.tag.after _ = _
  rw [Place.after_append, after_inside ht ha]
  rfl

theorem scan_openTag {tag : String} {attributes : List Attribute} (ht : PlainName tag)
    (ha : ∀ a ∈ attributes, a.Plain) (r : β) :
    scan f .text (openTag tag attributes).toList r =
      f .text '<' (tag.toList.foldr (f .tag)
        (scan f .tag (Attribute.renderAll attributes).toList (f .tag '>' r))) := by
  rw [openTag_toList, scan]
  change f .text '<' (scan f .tag _ r) = _
  rw [scan_append, after_inside ht ha, inside, scan_append, Place.after_of_stays ht.stays,
    scan_of_stays ht.stays]
  rfl

theorem closeTag_eq (tag : String) : closeTag tag = openTag ("/" ++ tag) [] := by
  simp [closeTag, openTag, Attribute.renderAll, ← String.append_assoc]

theorem marker_eq : marker = openTag "!" [] := rfl

theorem closed_marker : Closed marker := by
  rw [marker_eq]
  exact closed_openTag (by decide) (by simp)

section Ends

variable (afterText : Bool) (tag inner : String) (attributes : List Attribute) (items : List Node)

@[simp]
theorem text_ends (s : String) : (renderAfter afterText (.text s)).2 = true := rfl

@[simp]
theorem element_ends : (renderAfter afterText (.element tag attributes items)).2 = false := rfl

@[simp]
theorem markup_ends : (renderAfter afterText (.markup tag attributes inner)).2 = false := rfl

@[simp]
theorem void_ends : (renderAfter afterText (.void tag attributes)).2 = false := rfl

@[simp]
theorem list_ends : (renderAfter afterText (.list items)).2 = false := rfl

@[simp]
theorem absent_ends : (renderAfter afterText .absent).2 = false := rfl

@[simp]
theorem fragment_ends :
    (renderAfter afterText (.fragment items)).2 = (renderItems afterText items).2 := rfl

@[simp]
theorem renderItems_nil : renderItems afterText [] = ("", afterText) := rfl

@[simp]
theorem renderItems_cons_snd (n : Node) : (renderItems afterText (n :: items)).2 =
    (renderItems (renderAfter afterText n).2 items).2 := rfl

end Ends

mutual

def Proper : Node → Prop
  | .text _ => True
  | .element tag attributes children =>
    (PlainName tag ∧ ∀ a ∈ attributes, a.Plain) ∧ ProperItems children
  | .markup tag attributes inner =>
    (PlainName tag ∧ ∀ a ∈ attributes, a.Plain) ∧ Closed inner
  | .void tag attributes => PlainName tag ∧ ∀ a ∈ attributes, a.Plain
  | .list items => ProperItems items
  | .fragment items => ProperItems items
  | .absent => True

def ProperItems : List Node → Prop
  | [] => True
  | n :: rest => n.Proper ∧ ProperItems rest

end

theorem properItems_iff {items : List Node} : ProperItems items ↔ ∀ n ∈ items, n.Proper := by
  induction items with
  | nil => simp [ProperItems]
  | cons n rest ih => simp [ProperItems, ih]

def written (s : String) : String :=
  if s.isEmpty then " " else escapeText s

theorem tagless_written (s : String) : Tagless (written s) := by
  unfold written
  split
  · decide
  · exact tagless_escapeText s

theorem closed_renderText (afterText : Bool) (s : String) : Closed (renderText afterText s) := by
  have hs : Closed (written s) := (tagless_written s).closed
  unfold written at hs
  cases afterText with
  | false => simpa [renderText] using hs
  | true =>
    simpa [renderText] using closed_marker.append hs

theorem closed_closeTag {tag : String} (h : PlainName tag) : Closed (closeTag tag) := by
  rw [closeTag_eq]
  exact closed_openTag h.closing (by simp)

mutual

theorem closed_renderAfter (afterText : Bool) :
    ∀ n : Node, n.Proper → Closed (renderAfter afterText n).1
  | .text s, _ => closed_renderText afterText s
  | .element _ _ children, h =>
    ((closed_openTag h.1.1 h.1.2).append (closed_renderItems false children h.2)).append
      (closed_closeTag h.1.1)
  | .markup _ _ _, h => ((closed_openTag h.1.1 h.1.2).append h.2).append (closed_closeTag h.1.1)
  | .void _ _, h => closed_openTag h.1 h.2
  | .list items, h => (closed_renderItems afterText items h).append closed_marker
  | .fragment items, h => closed_renderItems afterText items h
  | .absent, _ => closed_marker

theorem closed_renderItems (afterText : Bool) :
    ∀ items : List Node, ProperItems items → Closed (renderItems afterText items).1
  | [], _ => rfl
  | n :: rest, h =>
    (closed_renderAfter afterText n h.1).append (closed_renderItems _ rest h.2)

end

theorem Proper.closed_render {n : Node} (h : n.Proper) : Closed n.render :=
  closed_renderAfter false n h

/-- What a scan does at each part of a tree. -/
structure Visitor (β : Type) where
  text : String → β → β
  tag : String → List Attribute → β → β
  inner : String → β → β

structure Visitor.Follows (v : Visitor β) (f : Place → Char → β → β) : Prop where
  text : ∀ s r, scan f .text (written s).toList r = v.text s r
  tag : ∀ {name attributes}, PlainName name → (∀ a ∈ attributes, a.Plain) → ∀ r,
    scan f .text (openTag name attributes).toList r = v.tag name attributes r
  inner : ∀ s r, scan f .text s.toList r = v.inner s r

mutual

def visit (v : Visitor β) (afterText : Bool) : Node → β → β
  | .text s, r => if afterText then v.tag "!" [] (v.text s r) else v.text s r
  | .element tag attributes children, r =>
    v.tag tag attributes (visitItems v false children (v.tag ("/" ++ tag) [] r))
  | .markup tag attributes inner, r => v.tag tag attributes (v.inner inner (v.tag ("/" ++ tag) [] r))
  | .void tag attributes, r => v.tag tag attributes r
  | .list items, r => visitItems v afterText items (v.tag "!" [] r)
  | .fragment items, r => visitItems v afterText items r
  | .absent, r => v.tag "!" [] r

def visitItems (v : Visitor β) (afterText : Bool) : List Node → β → β
  | [], r => r
  | n :: rest, r => visit v afterText n (visitItems v (renderAfter afterText n).2 rest r)

end

variable {v : Visitor β}

theorem Visitor.Follows.marker (hv : v.Follows f) (r : β) :
    scan f .text marker.toList r = v.tag "!" [] r := by
  rw [marker_eq]
  exact hv.tag (by decide) (by simp) r

theorem scan_renderText (hv : v.Follows f) (afterText : Bool) (s : String) (r : β) :
    scan f .text (renderText afterText s).toList r = visit v afterText (.text s) r := by
  have hs := hv.text s r
  unfold written at hs
  cases afterText with
  | false => simpa [renderText, visit] using hs
  | true =>
    rw [renderText, if_pos rfl, scan_closed_append closed_marker, hs, hv.marker]
    rfl

theorem scan_around (hv : v.Follows f) {tag : String} {attributes : List Attribute}
    (h : PlainName tag ∧ ∀ a ∈ attributes, a.Plain) {s : String} (hs : Closed s) (r : β) :
    scan f .text (openTag tag attributes ++ s ++ closeTag tag).toList r =
      v.tag tag attributes (scan f .text s.toList (v.tag ("/" ++ tag) [] r)) := by
  rw [scan_closed_append ((closed_openTag h.1 h.2).append hs),
    scan_closed_append (closed_openTag h.1 h.2), closeTag_eq, hv.tag h.1.closing (by simp),
    hv.tag h.1 h.2]

mutual

theorem scan_renderAfter (hv : v.Follows f) (afterText : Bool) : ∀ (n : Node), n.Proper → ∀ r,
    scan f .text (renderAfter afterText n).1.toList r = visit v afterText n r
  | .text s, _, r => scan_renderText hv afterText s r
  | .element tag attributes children, h, r => by
    rw [visit, ← scan_renderItems hv false children h.2]
    exact scan_around hv h.1 (closed_renderItems false children h.2) r
  | .markup tag attributes inner, h, r => by
    rw [visit, ← hv.inner]
    exact scan_around hv h.1 h.2 r
  | .void tag attributes, h, r => hv.tag h.1 h.2 r
  | .list items, h, r => by
    rw [visit, renderAfter, scan_closed_append (closed_renderItems afterText items h),
      hv.marker, scan_renderItems hv afterText items h]
  | .fragment items, h, r => by
    rw [visit, renderAfter, scan_renderItems hv afterText items h]
  | .absent, _, r => hv.marker r

theorem scan_renderItems (hv : v.Follows f) (afterText : Bool) :
    ∀ (items : List Node), ProperItems items → ∀ r,
    scan f .text (renderItems afterText items).1.toList r = visitItems v afterText items r
  | [], _, _ => rfl
  | n :: rest, h, r => by
    rw [visitItems, ← scan_renderItems hv _ rest h.2, ← scan_renderAfter hv afterText n h.1]
    exact scan_closed_append (closed_renderAfter afterText n h.1) _ r

end

theorem Visitor.Follows.inner_render (hv : v.Follows f) {n : Node} (h : n.Proper) (r : β) :
    v.inner n.render r = visit v false n r := by
  rw [← hv.inner, render, scan_renderAfter hv false n h]

end Node
end QuotaDesk.Html
