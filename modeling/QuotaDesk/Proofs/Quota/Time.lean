import QuotaDesk.Proofs.Calendar
import QuotaDesk.Quota.Time

/-! Times as they are shown. Read back in the calendar a text names the second of the time, and a
time that the calendar does not reach is named by its number, also where seconds are held at the
ends of the range. -/

namespace QuotaDesk.Quota

open Text Calendar

def outOfCalendarText (millis : Int) : String :=
  "invalid time (" ++ Decimal.ofInt millis ++ ")"

theorem read?_outOfCalendarText (millis : Int) : read? (outOfCalendarText millis) = none := by
  have htext : (outOfCalendarText millis).toList =
      "invalid".toList ++ ' ' :: ("time".toList ++ ' ' ::
        ('(' :: (Decimal.ofInt millis).toList ++ [')'])) := by
    unfold outOfCalendarText
    rw [String.toList_append, String.toList_append]
    rfl
  obtain ⟨part, parts, hparts⟩ := List.exists_cons_of_ne_nil
    (splitOn_ne_nil ' ' ('(' :: (Decimal.ofInt millis).toList ++ [')']))
  rw [read?, htext, splitOn_append_cons (by decide), splitOn_append_cons (by decide), hparts]

variable {m s : Int64}

theorem millisText_of_inCalendar (h : InCalendar (m.toInt / 1000)) :
    ∃ t, instantOfSeconds? (m.toInt / 1000) = some t ∧ millisText m = t.text := by
  obtain ⟨t, ht⟩ := Option.isSome_iff_exists.mp (isSome_instantOfSeconds?.mpr h)
  refine ⟨t, ht, ?_⟩
  unfold millisText
  rw [ht]

theorem millisText_of_not_inCalendar (h : ¬InCalendar (m.toInt / 1000)) :
    millisText m = outOfCalendarText m.toInt := by
  unfold millisText
  rw [instantOfSeconds?_eq_none_iff.mpr h]
  rfl

theorem millisText_eq_outOfCalendarText_iff :
    millisText m = outOfCalendarText m.toInt ↔ ¬InCalendar (m.toInt / 1000) := by
  refine ⟨fun htext h => ?_, millisText_of_not_inCalendar⟩
  obtain ⟨t, ht, hshown⟩ := millisText_of_inCalendar h
  have hread := read?_text (instantOfSeconds?_spec ht).1
  rw [← hshown, htext, read?_outOfCalendarText] at hread
  cases hread

theorem millisText_congr {n : Int64} (h : InCalendar (m.toInt / 1000))
    (hsecond : m.toInt / 1000 = n.toInt / 1000) : millisText m = millisText n := by
  obtain ⟨t, ht, htext⟩ := millisText_of_inCalendar h
  unfold millisText at htext ⊢
  rw [htext, ← hsecond, ht]

theorem toInt_saturatedMillis (s : Int64) :
    (saturatedMillis s).toInt = max (-2 ^ 63) (min (2 ^ 63 - 1) (s.toInt * 1000)) := by
  have hmin : Int64.minValue.toInt = -2 ^ 63 := by decide
  have hmax : Int64.maxValue.toInt = 2 ^ 63 - 1 := by decide
  rw [saturatedMillis, hmin, hmax]
  exact Int64.toInt_ofInt_of_le (Int.le_max_left _ _) (by omega)

theorem toInt_saturatedMillis_of_fits (hlow : -2 ^ 63 ≤ 1000 * s.toInt)
    (hhigh : 1000 * s.toInt < 2 ^ 63) : (saturatedMillis s).toInt = 1000 * s.toInt := by
  rw [toInt_saturatedMillis]
  omega

theorem secondsText_of_overflow (h : 1000 * s.toInt < -2 ^ 63 ∨ 2 ^ 63 ≤ 1000 * s.toInt) :
    secondsText s = outOfCalendarText (if s.toInt < 0 then -2 ^ 63 else 2 ^ 63 - 1) := by
  have hend : (saturatedMillis s).toInt = if s.toInt < 0 then -2 ^ 63 else 2 ^ 63 - 1 := by
    rw [toInt_saturatedMillis]
    split <;> omega
  rw [secondsText, ← hend]
  refine millisText_of_not_inCalendar ?_
  rw [inCalendar_iff, hend]
  split <;> omega

theorem secondsText_eq_millisText (h : InCalendar (m.toInt / 1000))
    (hsecond : m.toInt / 1000 = s.toInt) : secondsText s = millisText m := by
  obtain ⟨hlow, hhigh⟩ := inCalendar_iff.mp h
  have hmillis : (saturatedMillis s).toInt = 1000 * s.toInt :=
    toInt_saturatedMillis_of_fits (by omega) (by omega)
  refine (millisText_congr h ?_).symm
  rw [hmillis, hsecond]
  exact (Int.mul_ediv_cancel_left _ (by decide)).symm

/-- A time in the calendar is shown as the instant of its second, any other as its number.
Seconds are shown as milliseconds of the same second are, those of an expiry too; seconds with
too many milliseconds are never shown as an instant. -/
theorem time_exact (m s : Int64) :
    (InCalendar (m.toInt / 1000) →
      ∃ t, read? (millisText m) = some t ∧ t.At (m.toInt / 1000)) ∧
    (millisText m = outOfCalendarText m.toInt ↔ ¬InCalendar (m.toInt / 1000)) ∧
    (InCalendar (m.toInt / 1000) → m.toInt / 1000 = s.toInt → secondsText s = millisText m) ∧
    (0 < s.toInt → m.toInt = 1000 * s.toInt → secondsText s = expiryText (some m)) ∧
    (1000 * s.toInt < -2 ^ 63 ∨ 2 ^ 63 ≤ 1000 * s.toInt →
      secondsText s = outOfCalendarText (if s.toInt < 0 then -2 ^ 63 else 2 ^ 63 - 1) ∧
        read? (secondsText s) = none) := by
  refine ⟨fun h => ?_, millisText_eq_outOfCalendarText_iff, secondsText_eq_millisText,
    fun hpos hmillis => ?_, fun h => ?_⟩
  · obtain ⟨t, ht, htext⟩ := millisText_of_inCalendar h
    obtain ⟨hvalid, hat, -⟩ := instantOfSeconds?_spec ht
    exact ⟨t, by rw [htext, read?_text hvalid], hat⟩
  · have hlt : 0 < m := by
      rw [Int64.lt_iff_toInt_lt, hmillis]
      exact Int.mul_pos (by decide) hpos
    have hsame : saturatedMillis s = m := by
      have := m.toInt_lt
      refine Int64.toInt_inj.mp ?_
      rw [toInt_saturatedMillis_of_fits (by omega) (by omega), hmillis]
    rw [secondsText, hsame, expiryText, if_pos hlt]
  · rw [secondsText_of_overflow h]
    exact ⟨rfl, read?_outOfCalendarText _⟩

theorem time_exact_before_epoch :
    (∃ t, read? (millisText (-1)) = some t ∧ t.At (-1)) ∧
      secondsText (-1) = millisText (-1) ∧
      secondsText 1700000000 = expiryText (some 1700000000000) ∧
      read? (secondsText 9223372036854776) = none := by
  have hcalendar : InCalendar ((-1 : Int64).toInt / 1000) := inCalendar_iff.mpr (by decide)
  exact ⟨(time_exact (-1) 0).1 hcalendar,
    (time_exact (-1) (-1)).2.2.1 hcalendar (by decide),
    (time_exact 1700000000000 1700000000).2.2.2.1 (by decide) (by decide),
    ((time_exact 0 9223372036854776).2.2.2.2 (by decide)).2⟩

example : secondsText 1700000000 = "2023-11-14 22:13:20" := by decide
example : millisText (-62167219200001) = "-0001-12-31 23:59:59" := by decide

end QuotaDesk.Quota
