/-! Escaping of texts for HTML. -/

namespace QuotaDesk.Html

def escapeTextChar (c : Char) : List Char :=
  if c = '&' then "&amp;".toList
  else if c = '<' then "&lt;".toList
  else if c = '>' then "&gt;".toList
  else [c]

def escapeChar (c : Char) : List Char :=
  if c = '"' then "&quot;".toList else escapeTextChar c

def escapeText (s : String) : String :=
  String.ofList (s.toList.flatMap escapeTextChar)

def escape (s : String) : String :=
  String.ofList (s.toList.flatMap escapeChar)

def replaceAll (c : Char) (entity s : String) : String :=
  String.ofList (s.toList.flatMap fun d => if d = c then entity.toList else [d])

/-- Escaping by one replacement for each special character, the ampersand first. -/
def escapeInTurn (s : String) : String :=
  replaceAll '"' "&quot;" (replaceAll '>' "&gt;" (replaceAll '<' "&lt;" (replaceAll '&' "&amp;" s)))

end QuotaDesk.Html
