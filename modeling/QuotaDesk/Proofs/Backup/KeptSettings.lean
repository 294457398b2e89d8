import QuotaDesk.Backup.Panel
import QuotaDesk.Proofs.Text.Blank

/-! Settings in the form in which they are kept. Settings that were read from options come back
unchanged when they are saved again, and settings that may be saved are complete. -/

namespace QuotaDesk.Backup

def keptInterval (interval : String) : String :=
  if Text.isBlankText interval then defaultInterval else Text.trim interval

@[simp]
theorem isBlankText_keptInterval (s : String) : Text.isBlankText (keptInterval s) = false := by
  unfold keptInterval
  split
  · decide
  · next h => rwa [Text.isBlankText_trim, ← Bool.not_eq_true]

@[simp]
theorem keptInterval_keptInterval (s : String) : keptInterval (keptInterval s) = keptInterval s := by
  have htrim : Text.trim (keptInterval s) = keptInterval s := by
    unfold keptInterval
    split
    · decide
    · exact Text.trim_trim s
  rw [keptInterval, isBlankText_keptInterval, htrim]
  rfl

namespace Config

def kept (c : Config) : Config :=
  { c with interval := keptInterval c.interval }

@[simp]
theorem kept_kept (c : Config) : c.kept.kept = c.kept := by
  simp [kept]

theorem savedForm_eq (c : Config) : Panel.savedForm c = c.kept := by
  rw [Panel.savedForm, kept, keptInterval, intervalOrDefault, Text.isBlankText_trim]

/-- What settings need to be saved: a token and a repository that are not blank. -/
def Acceptable (c : Config) : Prop :=
  Text.isBlankText c.token = false ∧ Text.isBlankText c.repo = false
  deriving Decidable

theorem not_acceptable_iff {c : Config} :
    ¬c.Acceptable ↔ Text.isBlankText c.token = true ∨ Text.isBlankText c.repo = true := by
  rw [Acceptable, not_and_or, Bool.not_eq_false, Bool.not_eq_false]

theorem isComplete_iff {c : Config} : c.isComplete = true ↔ c.token ≠ "" ∧ c.repo ≠ "" := by
  simp [isComplete]

theorem isEmpty_of_not_blank {s : String} (h : Text.isBlankText s = false) : s.isEmpty = false := by
  by_contra hs
  rw [Bool.not_eq_false, String.isEmpty_iff] at hs
  subst hs
  cases h

theorem Acceptable.isComplete {c : Config} (h : c.Acceptable) : c.isComplete = true := by
  rw [Config.isComplete, isEmpty_of_not_blank h.1, isEmpty_of_not_blank h.2]
  rfl

end Config

namespace Options

def write (us : List (String × String)) (o : Options) : Options :=
  us.foldl (fun o u => o.insert u.1 u.2) o

theorem write_updates_nil (c : Config) : write c.updates [] = c.updates := by
  simp [write, Config.updates, insert, tokenOption, repoOption, intervalOption]

theorem write_updates (c c' : Config) : write c.updates c'.updates = c.updates := by
  simp [write, Config.updates, insert, tokenOption, repoOption, intervalOption]

end Options

theorem Config.ofOptions_updates {c : Config} (h : Text.isBlankText c.interval = false) :
    Config.ofOptions c.updates = c := by
  simp [Config.ofOptions, Config.updates, Options.get?, List.lookup_cons, tokenOption, repoOption,
    intervalOption, intervalOrDefault, h]

end QuotaDesk.Backup
