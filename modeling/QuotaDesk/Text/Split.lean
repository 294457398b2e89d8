/-! Cutting lists at separators and taking known fronts off. -/

namespace QuotaDesk.Text

variable {α : Type} [DecidableEq α]

def splitOn (separator : α) : List α → List (List α)
  | [] => [[]]
  | a :: rest =>
    if a = separator then [] :: splitOn separator rest
    else
      match splitOn separator rest with
      | [] => [[a]]
      | part :: parts => (a :: part) :: parts

def cut (separator : α) : List α → List α × Option (List α)
  | [] => ([], none)
  | a :: rest =>
    if a = separator then ([], some rest)
    else
      let (front, back) := cut separator rest
      (a :: front, back)

def after? : List α → List α → Option (List α)
  | [], l => some l
  | _ :: _, [] => none
  | a :: lead, b :: l => if a = b then after? lead l else none

theorem eq_append_of_after? {lead l rest : List α} (h : after? lead l = some rest) :
    l = lead ++ rest := by
  induction lead generalizing l with
  | nil => simpa [after?] using h
  | cons a lead ih =>
    cases l with
    | nil => simp [after?] at h
    | cons b l =>
      by_cases hab : a = b
      · simp only [after?, if_pos hab] at h
        rw [List.cons_append, ih h, hab]
      · simp [after?, hab] at h

theorem length_lt_of_after? {lead l rest : List α} (hne : lead ≠ [])
    (h : after? lead l = some rest) : rest.length < l.length := by
  have : 0 < lead.length := List.length_pos_iff.mpr hne
  rw [eq_append_of_after? h, List.length_append]
  omega

def dropCopies (lead l : List α) : List α :=
  if hne : lead = [] then l
  else
    match h : after? lead l with
    | some rest =>
      have : rest.length < l.length := length_lt_of_after? hne h
      dropCopies lead rest
    | none => l
termination_by l.length

end QuotaDesk.Text
