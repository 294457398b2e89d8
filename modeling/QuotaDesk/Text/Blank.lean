/-! White space and trimming. A blank is a character of the Unicode White_Space
property, so the zero-width space and the byte order mark are not blank. -/

namespace QuotaDesk.Text

def isBlank (c : Char) : Bool :=
  let n := c.toNat
  (9 ≤ n && n ≤ 13) || n == 0x20 || n == 0x85 || n == 0xA0 || n == 0x1680 ||
    (0x2000 ≤ n && n ≤ 0x200A) || n == 0x2028 || n == 0x2029 || n == 0x202F ||
    n == 0x205F || n == 0x3000

def dropEndWhile {α : Type} (p : α → Bool) (l : List α) : List α :=
  (l.reverse.dropWhile p).reverse

def dropBothWhile {α : Type} (p : α → Bool) (l : List α) : List α :=
  dropEndWhile p (l.dropWhile p)

def trim (s : String) : String :=
  String.ofList (dropBothWhile isBlank s.toList)

/-- Blank texts have no character outside the White_Space property. -/
def isBlankText (s : String) : Bool :=
  s.toList.all isBlank

end QuotaDesk.Text
