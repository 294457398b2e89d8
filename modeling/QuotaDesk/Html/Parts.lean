import QuotaDesk.Html.Escape
import QuotaDesk.Binary64.Fixed

/-! Ready-made markup: paging links, progress bars and the frame of a page. -/

namespace QuotaDesk.Html

def pageLink (path : String) (page : UInt32) (label : String) : String :=
  "<a href=\"" ++ path ++ "?page=" ++ Text.Decimal.ofNat page.toNat ++ "\">" ++ label ++ "</a>"

def disabledLink (label : String) : String :=
  "<span class=\"disabled\">" ++ label ++ "</span>"

/-- The number of the next page takes 32 bits; the addition is a checked one. -/
def nextPage? (current : UInt32) : Option UInt32 :=
  if current.toNat + 1 < UInt32.size then some (current + 1) else none

/-- Links to the neighbours of a page. A direction that leads nowhere is plain
text, and an empty ledger still has one page. Nothing comes of a next page
without a number. -/
def pagingLinks? (path : String) (current : UInt32) (pageCount : Nat) : Option String :=
  let path := escape path
  let previous :=
    if 1 < current then pageLink path (current - 1) "Previous" else disabledLink "Previous"
  let next? :=
    if current.toNat < pageCount then (nextPage? current).map fun page => pageLink path page "Next"
    else some (disabledLink "Next")
  next?.map fun next =>
    "<nav class=\"pagination\">" ++ previous ++ " <span>Page " ++
      Text.Decimal.ofNat current.toNat ++ " of " ++ Text.Decimal.ofNat (max pageCount 1) ++
      "</span> " ++ next ++ "</nav>"

def progressBar (width : Binary64) (label : String) : String :=
  "<div class=\"progress\"><div class=\"progress-fill\" style=\"width:" ++ width.oneDecimal ++
    "%\"></div></div><span class=\"progress-label\">" ++ escape label ++ "</span>"

structure Rule where
  selector : String
  declarations : String

def Rule.render (r : Rule) : String :=
  r.selector ++ " \x7b " ++ r.declarations ++ " \x7d\n"

def rules : List Rule := [
  ⟨"body", "font-family: monospace; padding: 16px;"⟩,
  ⟨"table", "width: 100%; border-collapse: collapse;"⟩,
  ⟨"th", "text-align: left; padding: 6px 8px; border-bottom: 1px solid #ccc;"⟩,
  ⟨"td", "padding: 6px 8px; border-bottom: 1px solid #eee; vertical-align: top;"⟩,
  ⟨"tr:last-child td", "border-bottom: none;"⟩,
  ⟨"form", "display: inline;"⟩,
  ⟨"input[type=text]", "font-family: monospace; min-width: 320px; padding: 4px;"⟩,
  ⟨"button", "font-family: monospace; padding: 4px 12px; cursor: pointer;"⟩,
  ⟨"button[disabled]", "cursor: not-allowed;"⟩,
  ⟨".notice", "padding: 8px 12px; margin-bottom: 12px; border: 1px solid;"⟩,
  ⟨".notice-success", "border-color: #2e7d32; color: #2e7d32;"⟩,
  ⟨".notice-warning", "border-color: #ef6c00; color: #ef6c00;"⟩,
  ⟨".notice-error", "border-color: #c62828; color: #c62828;"⟩,
  ⟨".status-normal", "color: #2e7d32;"⟩,
  ⟨".status-disabled", "color: #616161;"⟩,
  ⟨".status-expired", "color: #c62828;"⟩,
  ⟨".status-exhausted", "color: #ef6c00;"⟩,
  ⟨".status-unknown", "color: #616161;"⟩,
  ⟨".progress", "display: inline-block; width: 240px; height: 10px; background: #eee; vertical-align: middle;"⟩,
  ⟨".progress-fill", "height: 100%; background: #3f51b5;"⟩,
  ⟨".progress-label", "margin-left: 8px;"⟩,
  ⟨".pagination", "display: block; margin-top: 8px;"⟩,
  ⟨".disabled", "color: #aaa;"⟩]

def styleSheet : String :=
  String.join (rules.map Rule.render)

def frame (title body : String) : String :=
  "<!DOCTYPE html>\n<html>\n<head>\n<meta charset=\"utf-8\">\n<title>" ++ escape title ++
    "</title>\n<style>\n" ++ styleSheet ++ "</style>\n</head>\n<body>\n" ++ body ++
    "\n</body>\n</html>"

end QuotaDesk.Html
