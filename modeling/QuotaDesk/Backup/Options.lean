import QuotaDesk.Backup.Basic

/-! The table of named options that the service keeps. -/

namespace QuotaDesk.Backup

abbrev Options := List (String × String)

namespace Options

def get? (name : String) (o : Options) : Option String :=
  List.lookup name o

def insert (name value : String) : Options → Options
  | [] => [(name, value)]
  | (other, v) :: rest =>
    if other = name then (name, value) :: rest else (other, v) :: insert name value rest

/-- Of a repeated name the last value counts. -/
def ofList (entries : List (String × String)) : Options :=
  entries.foldl (fun o e => insert e.1 e.2 o) []

end Options

def Config.ofOptions (o : Options) : Config where
  token := (o.get? tokenOption).getD ""
  repo := (o.get? repoOption).getD ""
  interval := intervalOrDefault ((o.get? intervalOption).getD "")

end QuotaDesk.Backup
