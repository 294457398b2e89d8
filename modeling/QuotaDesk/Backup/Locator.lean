import QuotaDesk.Text.Blank
import QuotaDesk.Text.Split

/-! Repository locators: `owner/repo`, alone or behind the address of the host. -/

namespace QuotaDesk.Backup

def secureHost : List Char := "https://github.com/".toList
def plainHost : List Char := "http://github.com/".toList

def locatorPath (locator : String) : List Char :=
  let trimmed := Text.dropBothWhile Text.isBlank locator.toList
  Text.dropBothWhile (· == '/')
    (Text.dropCopies plainHost (Text.dropCopies secureHost trimmed))

/-- The normal form `owner/repo` of a locator. -/
def repoSlug? (locator : String) : Option String :=
  match Text.splitOn '/' (locatorPath locator) with
  | [owner, repo] =>
    if owner.isEmpty || repo.isEmpty then none
    else some (String.ofList (owner ++ '/' :: repo))
  | _ => none

end QuotaDesk.Backup
