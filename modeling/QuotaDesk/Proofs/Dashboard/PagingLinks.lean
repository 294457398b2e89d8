import QuotaDesk.Dashboard.Form
import QuotaDesk.Proofs.Dashboard.Links
import QuotaDesk.Proofs.Ledger.Paging
import QuotaDesk.Proofs.Text.Decimal
import QuotaDesk.Proofs.Text.Percent

/-! The links beside a page of a ledger. They lead to the pages before and behind it that the ledger
has, and following one asks for that page. The page behind the last number of 32 bits is the
exception: no links can be written beside it. -/

namespace QuotaDesk.Dashboard

open Html (Target targets tags pagingLinks? pagingTargets)
open Ledger (Paging)

def pageTarget (path : String) (x : String × Nat) : Target :=
  .link x.1 (path ++ "?page=" ++ Text.Decimal.ofNat x.2)

theorem neighbour_eq (path label : String) (n : Nat) {b : Bool} {there : Prop} [Decidable there]
    (hb : b = true ↔ there) :
    Html.neighbour path n label there =
      (if b = true then [(label, n)] else []).map (pageTarget path) := by
  unfold Html.neighbour
  by_cases h : there
  · rw [if_pos h, if_pos (hb.mpr h), List.map_singleton, pageTarget]
  · rw [if_neg h, if_neg fun hyes => h (hb.mp hyes), List.map_nil]

theorem targets_pagingLinks {path links : String} {p : Paging}
    (h : pagingLinks? path p.current p.pageCount = some links) :
    targets (tags links) = p.neighbours.map (pageTarget path) := by
  have hlinks := Html.leadsInner_pagingLinks h {}
  have hnone : targets ({} : Html.Reading).tags = [] := rfl
  rw [hnone, List.append_nil, pagingTargets, neighbour_eq path "Previous" _ decide_eq_true_iff,
    neighbour_eq path "Next" _ decide_eq_true_iff, ← List.map_append] at hlinks
  exact hlinks

def pageQuery (n : Nat) : List Char :=
  "page".toList ++ '=' :: (Text.Decimal.ofNat n).toList

def queriedPage? (query : List UInt8) : Option UInt32 :=
  (formFields pageFields query).toOption.bind requestedPage?

theorem literal_ofNat (n : Nat) : Text.Percent.Literal (Text.Decimal.ofNat n) := by
  intro c hc
  refine Text.Decimal.not_mem_ofNat ?_ n
  simp only [List.mem_cons, List.not_mem_nil, or_false] at hc
  rcases hc with rfl | rfl | rfl | rfl <;> decide

theorem requestedPage?_ofNat (page : UInt32) :
    requestedPage? [("page", Text.Decimal.ofNat page.toNat)] = some page := by
  have hfield : List.lookup "page" [("page", Text.Decimal.ofNat page.toNat)] =
      some (Text.Decimal.ofNat page.toNat) := rfl
  simp only [requestedPage?, hfield, Text.Decimal.trim_ofNat, Text.Decimal.unsigned?_ofNat,
    page.toNat_lt_size, if_true, UInt32.ofNat_toNat]

theorem queriedPage?_pageQuery (page : UInt32) :
    queriedPage? (Text.Utf8.encode (pageQuery page.toNat)) = some page := by
  have hfields : formFields pageFields (Text.Utf8.encode (pageQuery page.toNat)) =
      .ok [("page", Text.Decimal.ofNat page.toNat)] := by
    rw [formFields, pageQuery, Text.Percent.formPairs_field (by decide) (literal_ofNat _)]
    rfl
  rw [queriedPage?, hfields, Except.toOption, Option.bind_some, requestedPage?_ofNat]

theorem query_pageTarget {path : String} (hslash : path.toList.head? = some '/')
    (hmarks : '#' ∉ path.toList ∧ '?' ∉ path.toList) (x : String × Nat) :
    (requestOf (pageTarget path x)).query = Text.Utf8.encode (pageQuery x.2) := by
  have hfragment : '#' ∉ pageQuery x.2 := by
    have hdigits : '#' ∉ (Text.Decimal.ofNat x.2).toList :=
      Text.Decimal.not_mem_ofNat (by decide) x.2
    simpa [pageQuery] using hdigits
  have htarget : path ++ "?page=" ++ Text.Decimal.ofNat x.2 =
      path ++ String.ofList ('?' :: pageQuery x.2) := by
    rw [← String.toList_inj]
    simp [pageQuery]
  rw [pageTarget, requestOf, htarget]
  exact query_eq hslash hmarks "GET" hfragment

/-- The links beside the page on show are those to its neighbours, which can all be asked for, and
following a link asks for the page that it names. -/
structure LinksAgree (path : String) (p : Paging) (links : String) : Prop where
  written : targets (tags links) = p.neighbours.map (pageTarget path)
  read : ∀ x ∈ p.neighbours, ∃ page : UInt32, page.toNat = x.2 ∧ p.accepts page = true ∧
    queriedPage? (Text.Utf8.encode (pageQuery x.2)) = some page
  followed : path.toList.head? = some '/' → '#' ∉ path.toList ∧ '?' ∉ path.toList →
    ∀ x ∈ p.neighbours,
      (requestOf (pageTarget path x)).query = Text.Utf8.encode (pageQuery x.2)

/-- Links and ledger agree unless the next page has no number of 32 bits: then counting to it
fails, and there are no links at all. -/
theorem links_agree_iff (path : String) (p : Paging) (h : p.accepts p.current = true) :
    ((∃ links, pagingLinks? path p.current p.pageCount = some links ∧ LinksAgree path p links) ↔
        ¬p.AtLimit) ∧
      (pagingLinks? path p.current p.pageCount = none ↔ p.AtLimit) := by
  have hnone := pagingLinks?_eq_none_iff path p
  refine ⟨⟨?_, fun hlimit => ?_⟩, hnone⟩
  · rintro ⟨links, hlinks, -⟩ hlimit
    cases hlinks.symm.trans (hnone.mpr hlimit)
  · obtain ⟨links, hlinks⟩ := Option.ne_none_iff_exists'.mp (mt hnone.mp hlimit)
    refine ⟨links, hlinks, targets_pagingLinks hlinks, fun x hx => ?_,
      fun hslash hmarks x _ => query_pageTarget hslash hmarks x⟩
    have hlt : x.2 < UInt32.size := Paging.not_atLimit_iff.mp hlimit x hx
    obtain ⟨page, hpage, haccepts⟩ := Paging.exists_accepted_of_mem h hx hlt
    exact ⟨page, hpage, haccepts, hpage ▸ queriedPage?_pageQuery page⟩

theorem links_agree_below_limit :
    let p : Paging := { current := 4294967294, size := 1, total := 18446744073709551615 }
    p.accepts p.current = true ∧ ¬p.AtLimit ∧
      ∃ links, pagingLinks? "/query" p.current p.pageCount = some links ∧
        LinksAgree "/query" p links := by
  intro p
  have haccepts : p.accepts p.current = true := by decide +kernel
  have hlimit : ¬p.AtLimit := fun h => absurd h.2 (by decide +kernel)
  exact ⟨haccepts, hlimit, (links_agree_iff "/query" p haccepts).1.mpr hlimit⟩

/-- A ledger with one page more than there are numbers of 32 bits. -/
theorem next_link_overflows :
    let p : Paging := { current := 4294967295, size := 1, total := 4294967296 }
    p.accepts p.current = true ∧ p.hasPrevious = true ∧ p.hasNext = true ∧
      pagingLinks? "/query" p.current p.pageCount = none := by
  intro p
  have hlimit : p.AtLimit := ⟨by decide +kernel, rfl⟩
  exact ⟨by decide +kernel, rfl, hlimit.1, (pagingLinks?_eq_none_iff "/query" p).mpr hlimit⟩

end QuotaDesk.Dashboard
