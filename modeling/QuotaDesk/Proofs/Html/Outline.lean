import Mathlib.Data.List.Forall2
import QuotaDesk.Proofs.Html.Scan

/-! The outline of markup: its tags and the names of their attributes. -/

namespace QuotaDesk.Html

def keep (p : Place) (c : Char) (s : List Char) : List Char :=
  if p ≠ .tag ∧ p.step c = p then s else c :: s

/-- What is left of markup without the texts outside its tags and without its quoted values. -/
def outline (s : String) : String :=
  String.ofList (scan keep .text s.toList [])

theorem keep_tag (c : Char) (s : List Char) : keep .tag c s = c :: s := by
  simp [keep]

theorem foldr_keep_tag (s r : List Char) : s.foldr (keep .tag) r = s ++ r := by
  induction s with
  | nil => rfl
  | cons c s ih => rw [List.foldr_cons, ih, keep_tag, List.cons_append]

theorem foldr_keep_of_stays {p : Place} (hp : p ≠ .tag) {s : List Char}
    (h : ∀ c ∈ s, p.step c = p) (r : List Char) : s.foldr (keep p) r = r := by
  induction s with
  | nil => rfl
  | cons c s ih =>
    rw [List.forall_mem_cons] at h
    rw [List.foldr_cons, ih h.2, keep, if_pos ⟨hp, h.1⟩]

theorem scan_keep_of_tagless {s : String} (h : Tagless s) (r : List Char) :
    scan keep .text s.toList r = r := by
  have hs : ∀ c ∈ s.toList, Place.text.step c = .text := fun c hc => Place.step_text (h c hc)
  rw [scan_of_stays hs, foldr_keep_of_stays (by decide) hs]

theorem scan_keep_append (p : Place) (s r : List Char) :
    scan keep p s r = scan keep p s [] ++ r := by
  induction s generalizing p with
  | nil => rfl
  | cons c s ih =>
    rw [scan, scan, ih, keep, keep]
    split <;> rfl

theorem toList_outline (s : String) : (outline s).toList = scan keep .text s.toList [] :=
  String.toList_ofList

theorem scan_keep (s : String) (r : List Char) :
    scan keep .text s.toList r = (outline s).toList ++ r := by
  rw [scan_keep_append, toList_outline]

theorem outline_of_tagless {s : String} (h : Tagless s) : outline s = "" := by
  rw [outline, scan_keep_of_tagless h, String.ofList_nil]

theorem outline_escape (s : String) : outline (escape s) = "" :=
  outline_of_tagless (tagless_escape s)

theorem outline_append {s : String} (h : Closed s) (t : String) :
    outline (s ++ t) = outline s ++ outline t := by
  apply String.toList_inj.mp
  rw [toList_outline, scan_closed_append h, scan_keep_append, String.toList_append, toList_outline,
    toList_outline]

def Attribute.bare : Attribute → Attribute
  | .value name _ => .value name ""
  | .flag name on => .flag name on

@[simp]
theorem Attribute.bare_value (name v : String) : (value name v).bare = value name "" := rfl

@[simp]
theorem Attribute.bare_flag (name : String) (on : Bool) : (flag name on).bare = flag name on := rfl

theorem scan_keep_render {a : Attribute} (h : a.Plain) (r : List Char) :
    scan keep .tag a.render.toList r = a.bare.render.toList ++ r := by
  cases a with
  | value name v =>
    rw [Attribute.scan_value h, foldr_keep_of_stays (by decide) (Attribute.escape_stays v),
      foldr_keep_tag]
    simp [Attribute.bare, Attribute.value_toList, keep, Place.step, escape]
  | flag name on =>
    rw [scan_of_stays (Attribute.flag_stays h on), foldr_keep_tag]
    rfl

theorem scan_keep_renderAll {attributes : List Attribute} (h : ∀ a ∈ attributes, a.Plain)
    (r : List Char) :
    scan keep .tag (Attribute.renderAll attributes).toList r =
      (Attribute.renderAll (attributes.map Attribute.bare)).toList ++ r := by
  induction attributes with
  | nil => rfl
  | cons a attributes ih =>
    rw [List.forall_mem_cons] at h
    simp only [Attribute.renderAll, List.map_cons, String.join_cons, String.toList_append,
      List.append_assoc] at ih ⊢
    rw [scan_append, Attribute.after_render h.1, ih h.2, scan_keep_render h.1]

namespace Node

def outliner : Visitor (List Char) where
  text _ r := r
  tag name attributes r := (openTag name (attributes.map Attribute.bare)).toList ++ r
  inner s r := scan keep .text s.toList r

theorem outliner_follows : outliner.Follows keep where
  text s r := scan_keep_of_tagless (tagless_written s) r
  tag ht ha r := by
    rw [scan_openTag ht ha, scan_keep_renderAll ha, foldr_keep_tag]
    simp [outliner, openTag_toList, inside, keep, Place.step]
  inner _ _ := rfl

theorem outline_render {n : Node} (h : n.Proper) :
    outline n.render = String.ofList (visit outliner false n []) := by
  rw [outline, render, scan_renderAfter outliner_follows false n h]

example : outline (link "\"><b>" "<i>").render = "<a href=\"\"></a>" := by decide +kernel

/-- Two trees that cannot be told apart by their outlines, wherever they stand. -/
def Alike (n m : Node) : Prop :=
  ∀ afterText, (renderAfter afterText n).2 = (renderAfter afterText m).2 ∧
    ∀ r, visit outliner afterText n r = visit outliner afterText m r

theorem Alike.refl (n : Node) : Alike n n := fun _ => ⟨rfl, fun _ => rfl⟩

theorem forall₂_alike_refl (items : List Node) : List.Forall₂ Alike items items :=
  List.forall₂_same.mpr fun n _ => Alike.refl n

theorem Alike.outline_eq {n m : Node} (h : Alike n m) (hn : n.Proper) (hm : m.Proper) :
    outline n.render = outline m.render := by
  rw [outline_render hn, outline_render hm, (h false).2]

theorem alike_text (s t : String) : Alike (.text s) (.text t) := fun _ => ⟨rfl, fun _ => rfl⟩

theorem visitItems_alike {items items' : List Node} (h : List.Forall₂ Alike items items')
    (afterText : Bool) :
    (renderItems afterText items).2 = (renderItems afterText items').2 ∧
      ∀ r, visitItems outliner afterText items r = visitItems outliner afterText items' r := by
  induction h generalizing afterText with
  | nil => exact ⟨rfl, fun _ => rfl⟩
  | @cons n m rest rest' hn _ ih =>
    obtain ⟨hflag, hvisit⟩ := hn afterText
    obtain ⟨hflags, hvisits⟩ := ih (renderAfter afterText m).2
    refine ⟨?_, fun r => ?_⟩
    · simp only [renderItems, hflag, hflags]
    · rw [visitItems, visitItems, hflag, hvisits, hvisit]

theorem Alike.element (tag : String) {attributes attributes' : List Attribute}
    (ha : attributes.map Attribute.bare = attributes'.map Attribute.bare)
    {children children' : List Node} (hc : List.Forall₂ Alike children children') :
    Alike (.element tag attributes children) (.element tag attributes' children') := by
  refine fun _ => ⟨rfl, fun r => ?_⟩
  simp only [visit, outliner, ha]
  rw [← outliner, (visitItems_alike hc false).2]

theorem Alike.markup (tag : String) {attributes attributes' : List Attribute}
    (ha : attributes.map Attribute.bare = attributes'.map Attribute.bare)
    {inner inner' : String} (hi : outline inner = outline inner') :
    Alike (.markup tag attributes inner) (.markup tag attributes' inner') := by
  refine fun _ => ⟨rfl, fun r => ?_⟩
  simp only [visit, outliner, ha, scan_keep, hi]

theorem Alike.void (tag : String) {attributes attributes' : List Attribute}
    (ha : attributes.map Attribute.bare = attributes'.map Attribute.bare) :
    Alike (.void tag attributes) (.void tag attributes') := by
  refine fun _ => ⟨rfl, fun r => ?_⟩
  simp only [visit, outliner, ha]

theorem Alike.list {items items' : List Node} (h : List.Forall₂ Alike items items') :
    Alike (.list items) (.list items') :=
  fun afterText => ⟨rfl, fun _ => (visitItems_alike h afterText).2 _⟩

theorem Alike.fragment {items items' : List Node} (h : List.Forall₂ Alike items items') :
    Alike (.fragment items) (.fragment items') :=
  visitItems_alike h

theorem Alike.plain (tag : String) {children children' : List Node}
    (h : List.Forall₂ Alike children children') : Alike (plain tag children) (plain tag children') :=
  .element tag rfl h

theorem alike_labelled (tag s t : String) : Alike (labelled tag s) (labelled tag t) :=
  Alike.plain tag (List.Forall₂.cons (alike_text s t) List.Forall₂.nil)

theorem alike_link (href href' s t : String) : Alike (link href s) (link href' t) := by
  unfold link
  exact .element "a" (by simp) (.cons (alike_text s t) .nil)

theorem forall₂_alike_map {α β : Type} {view : α → β} {write : α → Node}
    (hw : ∀ {x y}, view x = view y → Alike (write x) (write y)) {l l' : List α}
    (h : l.map view = l'.map view) : List.Forall₂ Alike (l.map write) (l'.map write) := by
  have hviews : List.Forall₂ Eq (l.map view) (l'.map view) := by
    rw [List.forall₂_eq_eq_eq]
    exact h
  rw [List.forall₂_map_left_iff, List.forall₂_map_right_iff] at hviews ⊢
  exact hviews.imp fun _ _ => hw

theorem forall₂_alike_map_of_length {α : Type} {write : α → Node}
    (hw : ∀ x y, Alike (write x) (write y)) {l l' : List α} (h : l.length = l'.length) :
    List.Forall₂ Alike (l.map write) (l'.map write) := by
  have hunits : l.map (fun _ => ()) = l'.map (fun _ => ()) := by
    rw [List.map_const', List.map_const', h]
  exact forall₂_alike_map (fun _ => hw _ _) hunits

end Node
end QuotaDesk.Html
