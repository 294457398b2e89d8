import QuotaDesk.Proofs.Ledger.Paging
import QuotaDesk.Proofs.Lookup.Provenance

/-! The page on show and the length of the ledger. A page is asked for only if the ledger on show
has it, but it is stored with the length that its own reply reports. So the page on show lies in
the ledger on show unless that reply reports a ledger that has become too short for it. -/

namespace QuotaDesk.Lookup

open Ledger (Paging)

variable {es : List (Event controller)} {k : Nat} {t : Task controller}

theorem opened_page {w : World controller} {e : Event controller} (hw : w.Numbered)
    (h : (w.step e).2.opened = some t) {key : String} {page size : UInt32}
    (hcall : call t.waiting = .history key page size) :
    page = 1 ∨ e = .request (.load page) ∧ w.state.view.key = key ∧
      w.state.view.paging.accepts page = true := by
  have hturn := turn hw e
  generalize w.step e = p at hturn h
  cases hturn with
  | @accepted raw u hkey hfree hu =>
    obtain rfl : u = t := Option.some.inj h
    rw [hu] at hcall
    cases hcall
  | @asked page u hkey hsummary hpage hu =>
    obtain rfl : u = t := Option.some.inj h
    rw [hu] at hcall
    cases hcall
    exact .inr ⟨rfl, rfl, hpage⟩
  | @summarized _ u key r message summary ht hx hr hu =>
    obtain rfl : u = t := Option.some.inj h
    rw [hu] at hcall
    cases hcall
    exact .inl rfl
  | _ => cases h

theorem Dispatches.accepted (h : Dispatches es k t) {key : String} {page size : UInt32}
    (hcall : call t.waiting = .history key page size) :
    page = 1 ∨ ∃ w, unused.Happens es k w (.request (.load page)) ∧ w.state.view.key = key ∧
      w.state.view.paging.accepts page = true := by
  obtain ⟨w, e, hhappens, hopened⟩ := h.1
  rcases opened_page (marked_of_happens hhappens).numbered hopened hcall with
    hone | ⟨rfl, hkey, haccepts⟩
  · exact .inl hone
  · exact .inr ⟨w, hhappens, hkey, haccepts⟩

theorem accepts_current_of_unpaged {v : View} (h : v.Unpaged) :
    v.paging.accepts v.paging.current = true := by
  obtain ⟨-, -, hcurrent⟩ : v.records = [] ∧ v.paging.total = 0 ∧ v.paging.current = 1 := by
    simpa [View.Unpaged, View.ledger] using h
  rw [hcurrent]
  exact v.paging.accepts_one

/-- The page on show lies in the ledger on show, and the label of the pages says so, unless the
reply that brought it reports a ledger without that page; the view had accepted the page when it
was asked for. -/
theorem shown_page_inside_or_shrunk (es : List (Event controller)) :
    let v := (unused.after es).state.view
    (v.paging.accepts v.paging.current = true ∧
        v.paging.current.toNat ≤ max v.paging.pageCount 1) ∨
      1 < v.paging.current ∧ v.paging.pageCount < v.paging.current.toNat ∧
        ∃ k l w t data, k < l ∧ unused.Happens es k w (.request (.load v.paging.current)) ∧
          w.state.view.key = v.key ∧ w.state.view.paging.accepts v.paging.current = true ∧
          Dispatches es k t ∧ BringsPage es l t v.key v.paging.current data ∧
          v.paging.total = (data.getD {}).total := by
  intro v
  by_cases haccepts : v.paging.accepts v.paging.current = true
  · exact .inl ⟨haccepts, ((Paging.accepts_iff_le _ _).mp haccepts).2⟩
  have hpaged : ∃ j, PagedSince es j v := by
    rcases view_provenance es with ⟨-, -, -, hunpaged⟩ | ⟨_, _, _, -, -, -, h⟩
    · exact absurd (accepts_current_of_unpaged hunpaged) haccepts
    · rcases h with ⟨-, hunpaged⟩ | ⟨j, _, -, -, -, hunpaged | hpaged⟩
      · exact absurd (accepts_current_of_unpaged hunpaged) haccepts
      · exact absurd (accepts_current_of_unpaged hunpaged) haccepts
      · exact ⟨j, hpaged⟩
  obtain ⟨j, k, l, t, data, -, hkl, hdispatches, hcall, hbrings, hledger⟩ := hpaged
  have htotal : v.paging.total = (data.getD {}).total := congrArg (fun q => q.2.1) hledger
  rcases hdispatches.accepted hcall with hone | ⟨w, hhappens, hkey, hasked⟩
  · rw [hone] at haccepts
    exact absurd v.paging.accepts_one haccepts
  · have hpositive := ((Paging.accepts_iff_le _ _).mp hasked).1
    rw [Paging.accepts_iff_le, not_and, not_le] at haccepts
    obtain ⟨hcount, hone⟩ := max_lt_iff.mp (haccepts hpositive)
    exact .inr ⟨UInt32.lt_iff_toNat_lt.mpr hone, hcount, k, l, w, t, data, hkl, hhappens, hkey,
      hasked, hdispatches, hbrings, htotal⟩

def reporting (total : UInt64) : Reply
  | .quota _ => .ok ⟨true, none, some {}⟩
  | .history .. => .ok ⟨true, none, some ⟨[], total⟩⟩
  | _ => .error (.transport historyFailed)

/-- The third page is asked for while the ledger has three, and arrives when one is left. -/
theorem shown_page_outside_shrunk :
    let es : List (Event controller) := [.request (.lookup "k"), .reply 0 (reporting 25),
      .reply 1 (reporting 25), .request (.load 3), .reply 2 (reporting 5)]
    let v := (unused.after es).state.view
    v.paging.current = 3 ∧ v.paging.pageCount = 1 ∧
      v.paging.accepts v.paging.current = false := by
  decide +kernel

end QuotaDesk.Lookup
