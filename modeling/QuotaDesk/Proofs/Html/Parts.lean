import QuotaDesk.Html.Parts
import QuotaDesk.Proofs.Html.Outline
import QuotaDesk.Proofs.Text.Decimal

/-! Ready-made markup as trees: what the parts of a page write by hand is the text of a
tree, so nothing is left to check but the numbers they write without escaping. -/

namespace QuotaDesk.Html

def Unescaped (s : String) : Prop :=
  ∀ c ∈ s.toList, c ≠ '&' ∧ c ≠ '<' ∧ c ≠ '>' ∧ c ≠ '"'

instance (s : String) : Decidable (Unescaped s) :=
  List.decidableBAll (fun c => c ≠ '&' ∧ c ≠ '<' ∧ c ≠ '>' ∧ c ≠ '"') s.toList

theorem flatMap_singletons {encode : Char → List Char} {s : List Char}
    (h : ∀ c ∈ s, encode c = [c]) : s.flatMap encode = s := by
  induction s with
  | nil => rfl
  | cons c s ih =>
    rw [List.forall_mem_cons] at h
    rw [List.flatMap_cons, h.1, ih h.2, List.singleton_append]

theorem Unescaped.escapeText_eq {s : String} (h : Unescaped s) : escapeText s = s := by
  rw [escapeText, flatMap_singletons, String.ofList_toList]
  intro c hc
  obtain ⟨hamp, hlt, hgt, -⟩ := h c hc
  simp [escapeTextChar, hamp, hlt, hgt]

theorem Unescaped.escape_eq {s : String} (h : Unescaped s) : escape s = s := by
  rw [escape, flatMap_singletons, String.ofList_toList]
  intro c hc
  obtain ⟨hamp, hlt, hgt, hquote⟩ := h c hc
  simp [escapeChar, escapeTextChar, hamp, hlt, hgt, hquote]

theorem escape_append (s t : String) : escape (s ++ t) = escape s ++ escape t := by
  simp [escape, List.flatMap_append]

theorem Unescaped.append {s t : String} (hs : Unescaped s) (ht : Unescaped t) :
    Unescaped (s ++ t) := by
  intro c hc
  rw [String.toList_append, List.mem_append] at hc
  exact hc.elim (hs c) (ht c)

theorem unescaped_ofNat (n : Nat) : Unescaped (Text.Decimal.ofNat n) := by
  intro c hc
  refine ⟨?_, ?_, ?_, ?_⟩ <;> rintro rfl <;> exact Text.Decimal.not_mem_ofNat (by decide) n hc

theorem unescaped_oneDecimal (x : Binary64) : Unescaped x.oneDecimal := by
  have hsign : ∀ negative, Unescaped (Binary64.signText negative) := by decide
  cases x with
  | finite s m e =>
    exact (((hsign s).append (unescaped_ofNat _)).append (by decide)).append (unescaped_ofNat _)
  | infinite s => exact (hsign s).append (by decide)
  | nan => decide

namespace Node

def pageLinkNode (path : String) (page : Nat) (label : String) : Node :=
  .element "a" [.value "href" (path ++ "?page=" ++ Text.Decimal.ofNat page)] [.text label]

def disabledNode (label : String) : Node :=
  .element "span" [.value "class" "disabled"] [.text label]

def pagingNode (path : String) (current : UInt32) (pageCount : Nat) : Node :=
  .element "nav" [.value "class" "pagination"] [
    if 1 < current then pageLinkNode path (current.toNat - 1) "Previous"
    else disabledNode "Previous",
    .text " ",
    plain "span" [.text ("Page " ++ Text.Decimal.ofNat current.toNat ++ " of " ++
      Text.Decimal.ofNat (max pageCount 1))],
    .text " ",
    if current.toNat < pageCount then pageLinkNode path (current.toNat + 1) "Next"
    else disabledNode "Next"]

/-- The label of a bar stays as it is written: it may hold the entity of a quote. -/
def progressNode (width : Binary64) (label : String) : Node :=
  .fragment [
    .element "div" [.value "class" "progress"] [
      .element "div" [.value "class" "progress-fill",
        .value "style" ("width:" ++ width.oneDecimal ++ "%")] []],
    .markup "span" [.value "class" "progress-label"] (escape label)]

def documentNode (title body : String) : Node :=
  .fragment [
    .void "!DOCTYPE" [.flag "html" true],
    .text "\n",
    plain "html" [
      .text "\n",
      plain "head" [
        .text "\n",
        .void "meta" [.value "charset" "utf-8"],
        .text "\n",
        .markup "title" [] (escape title),
        .text "\n",
        .markup "style" [] ("\n" ++ styleSheet),
        .text "\n"],
      .text "\n",
      .markup "body" [] ("\n" ++ body ++ "\n"),
      .text "\n"]]

end Node

open Node (openTag closeTag)

theorem frame_eq (title body : String) : frame title body = (Node.documentNode title body).render := by
  have hhead : "<!DOCTYPE html>\n<html>\n<head>\n<meta charset=\"utf-8\">\n<title>" =
      openTag "!DOCTYPE" [.flag "html" true] ++ "\n" ++ openTag "html" [] ++ "\n" ++
        openTag "head" [] ++ "\n" ++ openTag "meta" [.value "charset" "utf-8"] ++ "\n" ++
        openTag "title" [] := by decide +kernel
  have hstyle : "</title>\n<style>\n" =
      closeTag "title" ++ "\n" ++ openTag "style" [] ++ "\n" := by decide +kernel
  have hbody : "</style>\n</head>\n<body>\n" =
      closeTag "style" ++ "\n" ++ closeTag "head" ++ "\n" ++ openTag "body" [] ++ "\n" := by
    decide +kernel
  have hend : "\n</body>\n</html>" = "\n" ++ closeTag "body" ++ "\n" ++ closeTag "html" := by
    decide +kernel
  have hblank : ∀ afterText, Node.renderText afterText "\n" =
    (if afterText then Node.marker else "") ++ "\n" := by decide +kernel
  unfold frame
  rw [hhead, hstyle, hbody, hend]
  simp only [Node.documentNode, Node.render, Node.renderAfter, Node.renderItems, Node.plain, hblank,
    String.append_assoc, Bool.false_eq_true, if_false, String.empty_append, String.append_empty]

theorem progressBar_eq (width : Binary64) (label : String) :
    progressBar width label = (Node.progressNode width label).render := by
  have hwidth : escape ("width:" ++ width.oneDecimal ++ "%") = "width:" ++ width.oneDecimal ++ "%" :=
    Unescaped.escape_eq (((by decide : Unescaped "width:").append (unescaped_oneDecimal width)).append
      (by decide))
  have hbar : escape "progress" = "progress" := rfl
  have hfill : escape "progress-fill" = "progress-fill" := rfl
  have hlabel : escape "progress-label" = "progress-label" := rfl
  unfold progressBar
  apply String.toList_inj.mp
  simp [Node.progressNode, Node.render, Node.renderAfter, Node.renderItems,
    Node.openTag, Node.closeTag, Attribute.renderAll, Attribute.render, hwidth, hbar, hfill, hlabel]

theorem pageLink_eq (path : String) (page : UInt32) {label : String} (h : Unescaped label)
    (hne : label ≠ "") :
    pageLink (escape path) page label = (Node.pageLinkNode path page.toNat label).render := by
  have hnumber := unescaped_ofNat page.toNat
  have hquery : escape "?page=" = "?page=" := rfl
  unfold pageLink
  apply String.toList_inj.mp
  simp [Node.pageLinkNode, Node.render, Node.renderAfter, Node.renderItems, Node.renderText,
    Node.openTag, Node.closeTag, Attribute.renderAll, Attribute.render, escape_append, hquery,
    hnumber.escape_eq, h.escapeText_eq, hne]

theorem disabledLink_eq {label : String} (h : Unescaped label) (hne : label ≠ "") :
    disabledLink label = (Node.disabledNode label).render := by
  have hclass : escape "disabled" = "disabled" := rfl
  unfold disabledLink
  apply String.toList_inj.mp
  simp [Node.disabledNode, Node.render, Node.renderAfter, Node.renderItems, Node.renderText,
    Node.openTag, Node.closeTag, Attribute.renderAll, Attribute.render, hclass, h.escapeText_eq, hne]

theorem nextPage?_eq_some_iff {current page : UInt32} :
    nextPage? current = some page ↔ page.toNat = current.toNat + 1 := by
  have hone : (1 : UInt32).toNat = 1 := rfl
  unfold nextPage?
  split
  · next hlt =>
    have hnext : (current + 1).toNat = current.toNat + 1 := by
      rw [UInt32.toNat_add, hone, Nat.mod_eq_of_lt hlt]
    rw [Option.some_inj, ← UInt32.toNat_inj, hnext]
    exact eq_comm
  · next hge => exact ⟨nofun, fun h => absurd (h ▸ page.toNat_lt_size) hge⟩

theorem pagingLinks?_eq_none_iff {path : String} {current : UInt32} {pageCount : Nat} :
    pagingLinks? path current pageCount = none ↔
      current.toNat < pageCount ∧ current.toNat + 1 = UInt32.size := by
  have hlt : current.toNat < UInt32.size := current.toNat_lt_size
  simp only [pagingLinks?, nextPage?, Option.map_eq_none_iff]
  split
  · next hnext =>
    rw [Option.map_eq_none_iff, ite_eq_right_iff]
    simp only [reduceCtorEq, imp_false, hnext, true_and]
    omega
  · next hnext => exact ⟨nofun, fun h => absurd h.1 hnext⟩

theorem pagingLinks?_eq_some {path links : String} {current : UInt32} {pageCount : Nat}
    (h : pagingLinks? path current pageCount = some links) :
    links = (Node.pagingNode path current pageCount).render := by
  have hplace : Unescaped ("Page " ++ Text.Decimal.ofNat current.toNat ++ " of " ++
      Text.Decimal.ofNat (max pageCount 1)) :=
    (((by decide : Unescaped "Page ").append (unescaped_ofNat _)).append (by decide)).append
      (unescaped_ofNat _)
  have hclass : escape "pagination" = "pagination" := rfl
  have hblank : Node.renderText false " " = " " := rfl
  have hspan : Node.renderText false ("Page " ++ Text.Decimal.ofNat current.toNat ++ " of " ++
      Text.Decimal.ofNat (max pageCount 1)) = "Page " ++ Text.Decimal.ofNat current.toNat ++
        " of " ++ Text.Decimal.ofNat (max pageCount 1) := by
    simp [Node.renderText, hplace.escapeText_eq]
  have hprevious : 1 < current → pageLink (escape path) (current - 1) "Previous" =
      (Node.pageLinkNode path (current.toNat - 1) "Previous").render := by
    intro hlow
    rw [pageLink_eq path _ (by decide) (by decide),
      UInt32.toNat_sub_of_le _ _ (UInt32.le_of_lt hlow)]
    rfl
  have hlabels : Unescaped "Previous" ∧ Unescaped "Next" := by decide
  obtain ⟨next, hnext, rfl⟩ := Option.map_eq_some_iff.mp h
  have hnext : next = if current.toNat < pageCount then
      (Node.pageLinkNode path (current.toNat + 1) "Next").render
      else (Node.disabledNode "Next").render := by
    split_ifs at hnext ⊢
    · obtain ⟨page, hpage, rfl⟩ := Option.map_eq_some_iff.mp hnext
      rw [pageLink_eq path page hlabels.2 (by decide), nextPage?_eq_some_iff.mp hpage]
    · rw [← Option.some.inj hnext, disabledLink_eq hlabels.2 (by decide)]
  rw [hnext, disabledLink_eq hlabels.1 (by decide)]
  by_cases hlow : 1 < current <;> by_cases hhigh : current.toNat < pageCount
  all_goals
    apply String.toList_inj.mp
    simp [hlow, hhigh, hprevious, Node.pagingNode, Node.pageLinkNode, Node.disabledNode,
      Node.render, Node.renderAfter, Node.renderItems, Node.plain, hblank, hspan, Node.openTag,
      Node.closeTag, Attribute.renderAll, Attribute.render, hclass]

namespace Node

theorem proper_pageLinkNode (path : String) (page : Nat) (label : String) :
    (pageLinkNode path page label).Proper := by
  have ha : PlainName "a" := by decide
  have hhref : PlainName "href" := by decide
  simpa [pageLinkNode, Proper, ProperItems, Attribute.Plain] using ⟨ha, hhref⟩

theorem proper_disabledNode (label : String) : (disabledNode label).Proper := by
  have hspan : PlainName "span" := by decide
  have hclass : PlainName "class" := by decide
  simpa [disabledNode, Proper, ProperItems, Attribute.Plain] using ⟨hspan, hclass⟩

theorem proper_pagingNode (path : String) (current : UInt32) (pageCount : Nat) :
    (pagingNode path current pageCount).Proper := by
  have hnames : ∀ name ∈ ["nav", "class", "span"], PlainName name := by decide
  have hneighbour (c : Prop) [Decidable c] (page : Nat) (label : String) :
      (if c then pageLinkNode path page label else disabledNode label).Proper := by
    split
    · exact proper_pageLinkNode _ _ _
    · exact proper_disabledNode _
  simp only [List.forall_mem_cons] at hnames
  simp [pagingNode, plain, Proper, ProperItems, Attribute.Plain, hnames, hneighbour]

theorem proper_progressNode (width : Binary64) (label : String) :
    (progressNode width label).Proper := by
  have hnames : ∀ name ∈ ["div", "class", "style", "span"], PlainName name := by decide
  have hlabel : Closed (escape label) := (tagless_escape label).closed
  simp only [List.forall_mem_cons] at hnames
  simp [progressNode, Proper, ProperItems, Attribute.Plain, hnames, hlabel]

end Node

theorem closed_pagingLinks {path links : String} {current : UInt32} {pageCount : Nat}
    (h : pagingLinks? path current pageCount = some links) : Closed links := by
  rw [pagingLinks?_eq_some h]
  exact (Node.proper_pagingNode _ _ _).closed_render

theorem closed_progressBar (width : Binary64) (label : String) :
    Closed (progressBar width label) := by
  rw [progressBar_eq]
  exact (Node.proper_progressNode _ _).closed_render

end QuotaDesk.Html
