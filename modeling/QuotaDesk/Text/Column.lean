/-! Lines and fixed columns of text. -/

namespace QuotaDesk.Text

def padEnd (width : Nat) (s : String) : String :=
  String.ofList (s.toList ++ List.replicate (width - s.toList.length) ' ')

def padStart (width : Nat) (s : String) : String :=
  String.ofList (List.replicate (width - s.toList.length) ' ' ++ s.toList)

def joinLines (lines : List String) : String :=
  "\n".intercalate lines

end QuotaDesk.Text
