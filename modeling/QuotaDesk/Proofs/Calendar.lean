import Mathlib.Algebra.BigOperators.Group.List.Basic
import Mathlib.Algebra.GroupWithZero.Nat
import Mathlib.Data.List.GetD
import Mathlib.Tactic.SplitIfs
import QuotaDesk.Calendar
import QuotaDesk.Proofs.Text.Decimal
import QuotaDesk.Proofs.Text.Split

/-! The days of the calendar, counted one after the other from 1970-01-01, and the texts of
instants read back. -/

namespace QuotaDesk.Calendar

open Text

theorem daysBeforeYear_eq (year : Int) : daysBeforeYear year =
    365 * (year - 1) + (year - 1) / 4 - (year - 1) / 100 + (year - 1) / 400 - 719162 := rfl

theorem daysBeforeYear_mono {y z : Int} (h : y ≤ z) : daysBeforeYear y ≤ daysBeforeYear z := by
  rw [daysBeforeYear_eq, daysBeforeYear_eq]
  omega

theorem daysBeforeYear_succ (year : Int) :
    daysBeforeYear (year + 1) = daysBeforeYear year + (monthLengths (isLeap year)).sum := by
  have hdays : ((monthLengths (isLeap year)).sum : Int) = if isLeap year then 366 else 365 := by
    cases isLeap year <;> rfl
  rw [hdays, daysBeforeYear_eq, daysBeforeYear_eq]
  unfold isLeap
  simp only [Bool.and_eq_true, Bool.or_eq_true, beq_iff_eq, bne_iff_ne]
  split <;> omega

theorem estimate_bounds (day : Int) :
    daysBeforeYear (400 * (day + 719162) / 146097 + 1 - 1) ≤ day ∧
      day < daysBeforeYear (400 * (day + 719162) / 146097 + 1 + 2) := by
  rw [daysBeforeYear_eq, daysBeforeYear_eq]
  generalize hq : 400 * (day + 719162) / 146097 = q
  omega

theorem yearOfDay_bounds (day : Int) :
    daysBeforeYear (yearOfDay day) ≤ day ∧ day < daysBeforeYear (yearOfDay day + 1) := by
  obtain ⟨hlow, hhigh⟩ := estimate_bounds day
  unfold yearOfDay
  generalize 400 * (day + 719162) / 146097 + 1 = estimate at *
  dsimp only
  -- The estimate is a year late, a year early, or right.
  split_ifs with hbefore hbehind
  · exact ⟨hlow, by rwa [Int.sub_add_cancel]⟩
  · exact ⟨hbehind, by rwa [Int.add_assoc]⟩
  · exact ⟨Int.not_lt.mp hbefore, Int.not_le.mp hbehind⟩

theorem le_yearOfDay_iff {year day : Int} : year ≤ yearOfDay day ↔ daysBeforeYear year ≤ day := by
  obtain ⟨hlow, hhigh⟩ := yearOfDay_bounds day
  constructor
  · exact fun h => Int.le_trans (daysBeforeYear_mono h) hlow
  · intro h
    by_contra hlt
    have := daysBeforeYear_mono (Int.add_one_le_of_lt (Int.not_le.mp hlt))
    omega

theorem yearOfDay_eq {year day : Int} (hlow : daysBeforeYear year ≤ day)
    (hhigh : day < daysBeforeYear (year + 1)) : yearOfDay day = year := by
  have hle := le_yearOfDay_iff.mpr hlow
  have hlt := mt le_yearOfDay_iff.mp (Int.not_le.mpr hhigh)
  omega

theorem monthDay_sum {lengths : List Nat} {i k : Nat} (hi : i < lengths.length)
    (hk : k < lengths[i]) (month : Nat) :
    monthDay month ((lengths.take i).sum + k) lengths = (month + i, k + 1) := by
  induction lengths generalizing i month with
  | nil => cases hi
  | cons length rest ih =>
    cases i with
    | zero =>
      rw [List.getElem_cons_zero] at hk
      rw [List.take_zero, List.sum_nil, Nat.zero_add, monthDay, if_pos hk]
      rfl
    | succ i =>
      have hrest := ih (Nat.lt_of_succ_lt_succ hi) hk (month + 1)
      rw [List.take_succ_cons, List.sum_cons, monthDay, if_neg (by omega), Nat.add_assoc,
        Nat.add_sub_cancel_left, hrest, Nat.add_right_comm, Nat.add_assoc]

theorem exists_month {lengths : List Nat} {k : Nat} (h : k < lengths.sum) :
    ∃ i, ∃ hi : i < lengths.length, ∃ day < lengths[i], (lengths.take i).sum + day = k := by
  induction lengths generalizing k with
  | nil => cases h
  | cons length rest ih =>
    by_cases hk : k < length
    · exact ⟨0, Nat.succ_pos _, k, hk, Nat.zero_add k⟩
    · rw [List.sum_cons] at h
      obtain ⟨i, hi, day, hday, hsum⟩ := ih (k := k - length) (by omega)
      refine ⟨i + 1, Nat.succ_lt_succ hi, day, hday, ?_⟩
      rw [List.take_succ_cons, List.sum_cons]
      omega

def Leap (year : Int) : Prop :=
  year % 4 = 0 ∧ (year % 100 = 0 → year % 400 = 0)

instance (year : Int) : Decidable (Leap year) :=
  inferInstanceAs (Decidable (_ ∧ _))

def monthLength (year : Int) (month : Nat) : Nat :=
  if month = 2 then if Leap year then 29 else 28
  else if month ∈ [4, 6, 9, 11] then 30
  else 31

theorem isLeap_iff {year : Int} : isLeap year = true ↔ Leap year := by
  simp only [isLeap, Leap, Bool.and_eq_true, Bool.or_eq_true, beq_iff_eq, bne_iff_ne]
  omega

theorem monthLength_bounds (year : Int) (month : Nat) :
    0 < monthLength year month ∧ monthLength year month ≤ 31 := by
  unfold monthLength
  split_ifs <;> decide

theorem getElem_monthLengths {year : Int} {month : Nat} (hpos : 1 ≤ month)
    (h : month - 1 < (monthLengths (isLeap year)).length) :
    (monthLengths (isLeap year))[month - 1] = monthLength year month := by
  have hlength : (monthLengths (isLeap year)).length = 12 := rfl
  have hlengths : ∀ leap, ∀ month < 13, 1 ≤ month → (monthLengths leap).getD (month - 1) 0 =
      if month = 2 then if leap = true then 29 else 28
      else if month ∈ [4, 6, 9, 11] then 30 else 31 := by
    decide
  rw [← List.getD_eq_getElem _ 0 h, hlengths _ month (by omega) hpos]
  simp only [monthLength, isLeap_iff]

structure Date.Valid (d : Date) : Prop where
  month_pos : 1 ≤ d.month
  month_le : d.month ≤ 12
  day_pos : 1 ≤ d.day
  day_le : d.day ≤ monthLength d.year d.month

instance (d : Date) : Decidable d.Valid :=
  decidable_of_iff (1 ≤ d.month ∧ d.month ≤ 12 ∧ 1 ≤ d.day ∧ d.day ≤ monthLength d.year d.month)
    ⟨fun ⟨h₁, h₂, h₃, h₄⟩ => ⟨h₁, h₂, h₃, h₄⟩, fun ⟨h₁, h₂, h₃, h₄⟩ => ⟨h₁, h₂, h₃, h₄⟩⟩

def Date.tomorrow (d : Date) : Date :=
  if d.day < monthLength d.year d.month then { d with day := d.day + 1 }
  else if d.month < 12 then ⟨d.year, d.month + 1, 1⟩
  else ⟨d.year + 1, 1, 1⟩

/-- Days counted from 1970-01-01, one after the other in both directions. -/
inductive DayNumber : Date → Int → Prop
  | epoch : DayNumber ⟨1970, 1, 1⟩ 0
  | next {d : Date} {n : Int} : DayNumber d n → DayNumber d.tomorrow (n + 1)
  | previous {d : Date} {n : Int} : d.Valid → DayNumber d.tomorrow n → DayNumber d (n - 1)

variable {d : Date} {n s : Int}

theorem Date.Valid.month_lt (h : d.Valid) :
    d.month - 1 < (monthLengths (isLeap d.year)).length :=
  Nat.lt_of_lt_of_le (Nat.sub_one_lt_of_lt h.month_pos) h.month_le

theorem daysOfDate_eq (d : Date) : daysOfDate d = daysBeforeYear d.year +
    ((monthLengths (isLeap d.year)).take (d.month - 1)).sum + d.day - 1 := rfl

theorem Date.Valid.tomorrow (h : d.Valid) : d.tomorrow.Valid := by
  unfold Date.tomorrow
  split_ifs with hday hmonth
  · exact ⟨h.month_pos, h.month_le, Nat.succ_pos _, hday⟩
  · exact ⟨Nat.succ_pos _, hmonth, Nat.le_refl 1, (monthLength_bounds _ _).1⟩
  · exact ⟨Nat.le_refl 1, Nat.le_add_left 1 11, Nat.le_refl 1, (monthLength_bounds _ _).1⟩

theorem daysOfDate_tomorrow (h : d.Valid) : daysOfDate d.tomorrow = daysOfDate d + 1 := by
  have hsum := List.sum_take_succ _ _ h.month_lt
  have hpos := h.month_pos
  rw [getElem_monthLengths hpos] at hsum
  have hle := h.day_le
  unfold Date.tomorrow
  split_ifs with hday hmonth
  · simp only [daysOfDate_eq]
    omega
  · simp only [daysOfDate_eq, Nat.add_sub_cancel]
    rw [Nat.sub_add_cancel hpos] at hsum
    omega
  · have hlast : d.month = 12 := by
      have := h.month_le
      omega
    have hall : (monthLengths (isLeap d.year)).take (d.month - 1 + 1) =
        monthLengths (isLeap d.year) := by
      rw [hlast]
      rfl
    rw [hall] at hsum
    simp only [daysOfDate_eq, daysBeforeYear_succ, Nat.sub_self, List.take_zero, List.sum_nil]
    omega

theorem DayNumber.valid_and_eq (h : DayNumber d n) : d.Valid ∧ daysOfDate d = n := by
  induction h with
  | epoch => decide
  | next _ ih => exact ⟨ih.1.tomorrow, by rw [daysOfDate_tomorrow ih.1, ih.2]⟩
  | previous hvalid _ ih =>
    refine ⟨hvalid, ?_⟩
    rw [← ih.2, daysOfDate_tomorrow hvalid, Int.add_sub_cancel]

theorem dateOfDay_daysOfDate (h : d.Valid) : dateOfDay (daysOfDate d) = d := by
  have hday := h.day_pos
  have hle := h.day_le
  have hpos := h.month_pos
  have hsum := List.sum_take_succ _ _ h.month_lt
  have hall := List.sum_take_add_sum_drop (monthLengths (isLeap d.year)) (d.month - 1 + 1)
  rw [getElem_monthLengths hpos] at hsum
  have hyear : yearOfDay (daysOfDate d) = d.year := by
    refine yearOfDay_eq ?_ ?_
    · rw [daysOfDate_eq]
      omega
    · rw [daysBeforeYear_succ, daysOfDate_eq]
      omega
  have hrest : (daysOfDate d - daysBeforeYear d.year).toNat =
      ((monthLengths (isLeap d.year)).take (d.month - 1)).sum + (d.day - 1) := by
    rw [daysOfDate_eq]
    omega
  have hmonth := monthDay_sum h.month_lt (k := d.day - 1)
    (by rw [getElem_monthLengths hpos]; omega) 1
  simp only [dateOfDay, hyear, hrest, hmonth]
  rw [Nat.add_sub_cancel' hpos, Nat.sub_add_cancel hday]

theorem exists_date (n : Int) : ∃ d : Date, d.Valid ∧ daysOfDate d = n := by
  obtain ⟨hlow, hhigh⟩ := yearOfDay_bounds n
  rw [daysBeforeYear_succ] at hhigh
  have hlt : (n - daysBeforeYear (yearOfDay n)).toNat <
      (monthLengths (isLeap (yearOfDay n))).sum := by
    omega
  obtain ⟨i, hi, day, hday, hsum⟩ := exists_month hlt
  refine ⟨⟨yearOfDay n, i + 1, day + 1⟩, ⟨Nat.succ_pos i, hi, Nat.succ_pos day, ?_⟩, ?_⟩
  · rw [← getElem_monthLengths (Nat.succ_pos i) hi]
    exact hday
  · simp only [daysOfDate_eq, Nat.add_sub_cancel]
    omega

theorem valid_dateOfDay (n : Int) : (dateOfDay n).Valid := by
  obtain ⟨d, hvalid, rfl⟩ := exists_date n
  rwa [dateOfDay_daysOfDate hvalid]

theorem daysOfDate_dateOfDay (n : Int) : daysOfDate (dateOfDay n) = n := by
  obtain ⟨d, hvalid, rfl⟩ := exists_date n
  rw [dateOfDay_daysOfDate hvalid]

theorem tomorrow_dateOfDay (n : Int) : (dateOfDay n).tomorrow = dateOfDay (n + 1) := by
  have hvalid := valid_dateOfDay n
  rw [← dateOfDay_daysOfDate hvalid.tomorrow, daysOfDate_tomorrow hvalid, daysOfDate_dateOfDay]

theorem dayNumber_dateOfDay (n : Int) : DayNumber (dateOfDay n) n := by
  induction n with
  | zero => exact .epoch
  | succ n ih => exact tomorrow_dateOfDay n ▸ ih.next
  | pred n ih =>
    refine .previous (valid_dateOfDay _) ?_
    rwa [tomorrow_dateOfDay, Int.sub_add_cancel]

theorem dayNumber_iff : DayNumber d n ↔ d.Valid ∧ daysOfDate d = n := by
  refine ⟨DayNumber.valid_and_eq, ?_⟩
  rintro ⟨hvalid, rfl⟩
  have h := dayNumber_dateOfDay (daysOfDate d)
  rwa [dateOfDay_daysOfDate hvalid] at h

structure Instant.Valid (t : Instant) : Prop where
  date : t.date.Valid
  hour : t.hour < 24
  minute : t.minute < 60
  second : t.second < 60

instance (t : Instant) : Decidable t.Valid :=
  decidable_of_iff (t.date.Valid ∧ t.hour < 24 ∧ t.minute < 60 ∧ t.second < 60)
    ⟨fun ⟨h₁, h₂, h₃, h₄⟩ => ⟨h₁, h₂, h₃, h₄⟩, fun ⟨h₁, h₂, h₃, h₄⟩ => ⟨h₁, h₂, h₃, h₄⟩⟩

def Instant.At (t : Instant) (s : Int) : Prop :=
  ∃ n, DayNumber t.date n ∧ s = n * 86400 + t.hour * 3600 + t.minute * 60 + t.second

def InCalendar (s : Int) : Prop :=
  ∃ t : Instant, t.Valid ∧ t.At s ∧ leastYear ≤ t.date.year ∧ t.date.year ≤ greatestYear

variable {t : Instant}

theorem at_iff : t.At s ↔ t.date.Valid ∧ secondsOfInstant t = s := by
  unfold Instant.At secondsOfInstant
  constructor
  · rintro ⟨n, hday, rfl⟩
    obtain ⟨hvalid, rfl⟩ := dayNumber_iff.mp hday
    exact ⟨hvalid, by omega⟩
  · rintro ⟨hvalid, rfl⟩
    exact ⟨_, dayNumber_iff.mpr ⟨hvalid, rfl⟩, by omega⟩

theorem dateOfDay_of_at (hvalid : t.Valid) (h : t.At s) : dateOfDay (s / 86400) = t.date := by
  obtain ⟨n, hday, rfl⟩ := h
  obtain ⟨hdate, rfl⟩ := dayNumber_iff.mp hday
  have := hvalid.hour
  have := hvalid.minute
  have := hvalid.second
  have hdiv : (daysOfDate t.date * 86400 + t.hour * 3600 + t.minute * 60 + t.second) / 86400 =
      daysOfDate t.date := by
    omega
  rw [hdiv, dateOfDay_daysOfDate hdate]

theorem instantOfSeconds?_spec (h : instantOfSeconds? s = some t) :
    t.Valid ∧ t.At s ∧ leastYear ≤ t.date.year ∧ t.date.year ≤ greatestYear := by
  unfold instantOfSeconds? at h
  dsimp only at h
  split at h
  · next hyear =>
    cases h
    have hdate := valid_dateOfDay (s / 86400)
    refine ⟨⟨hdate, ?_, ?_, ?_⟩, at_iff.mpr ⟨hdate, ?_⟩, hyear⟩
    · dsimp only
      omega
    · exact Nat.mod_lt _ (by decide)
    · exact Nat.mod_lt _ (by decide)
    · simp only [secondsOfInstant, daysOfDate_dateOfDay]
      omega
  · cases h

theorem isSome_instantOfSeconds? : (instantOfSeconds? s).isSome ↔ InCalendar s := by
  constructor
  · intro h
    obtain ⟨t, ht⟩ := Option.isSome_iff_exists.mp h
    exact ⟨t, instantOfSeconds?_spec ht⟩
  · rintro ⟨t, hvalid, hat, hyear⟩
    rw [← dateOfDay_of_at hvalid hat] at hyear
    exact Option.isSome_iff_exists.mpr ⟨_, if_pos hyear⟩

theorem instantOfSeconds?_eq_none_iff : instantOfSeconds? s = none ↔ ¬InCalendar s := by
  rw [← isSome_instantOfSeconds?, Option.not_isSome_iff_eq_none]

theorem inCalendar_iff : InCalendar s ↔ -8334601228800 ≤ s ∧ s ≤ 8210266876799 := by
  have hyear (day : Int) : (dateOfDay day).year = yearOfDay day := rfl
  have hleast : daysBeforeYear leastYear = -96465292 := by decide
  have hgreatest : daysBeforeYear (greatestYear + 1) = 95026237 := by decide
  have hlow : leastYear ≤ yearOfDay (s / 86400) ↔ -8334601228800 ≤ s := by
    rw [le_yearOfDay_iff, hleast]
    omega
  have hhigh : yearOfDay (s / 86400) ≤ greatestYear ↔ s ≤ 8210266876799 := by
    rw [← Int.lt_add_one_iff, ← Int.not_le, le_yearOfDay_iff, hgreatest]
    omega
  rw [← isSome_instantOfSeconds?]
  unfold instantOfSeconds?
  simp only [hyear, hlow, hhigh]
  split <;> simp [*]

def field? (width : Nat) (digits : List Char) : Option Nat :=
  if digits.length = width then Decimal.nat? digits else none

def laterYear? : List Char → Option Int
  | '+' :: digits => ((Decimal.nat? digits).filter (9999 < ·)).map Int.ofNat
  | digits => (field? 4 digits).map Int.ofNat

def earlierYear? (digits : List Char) : Option Int :=
  if 4 ≤ digits.length then
    ((Decimal.nat? digits).filter (0 < ·)).map fun n => -Int.ofNat n
  else none

def date? (year : Option Int) (month day : List Char) : Option Date :=
  year.bind fun y => (field? 2 month).bind fun m => (field? 2 day).map fun d => ⟨y, m, d⟩

def readDate? (text : List Char) : Option Date :=
  match splitOn '-' text with
  | [year, month, day] => date? (laterYear? year) month day
  | [[], year, month, day] => date? (earlierYear? year) month day
  | _ => none

def readTime? (date : Date) (text : List Char) : Option Instant :=
  match splitOn ':' text with
  | [hour, minute, second] =>
    (field? 2 hour).bind fun h => (field? 2 minute).bind fun m =>
      (field? 2 second).map fun s => ⟨date, h, m, s⟩
  | _ => none

def read? (text : String) : Option Instant :=
  match splitOn ' ' text.toList with
  | [date, time] =>
    ((readDate? date).bind fun d => readTime? d time).filter fun t => decide t.Valid
  | _ => none

theorem field?_ofNatWidth {width n : Nat} (hpos : 0 < width) (h : n < 10 ^ width) :
    field? width (Decimal.ofNatWidth width n).toList = some n := by
  rw [field?, if_pos (Decimal.length_ofNatWidth_of_lt hpos h), Decimal.nat?_ofNatWidth]

theorem laterYear?_yearText {year : Int} (h : 0 ≤ year) :
    laterYear? (yearText year).toList = some year := by
  have hyear : Int.ofNat year.natAbs = year := Int.natAbs_of_nonneg h
  unfold yearText
  by_cases hfour : year ≤ 9999
  · rw [if_pos ⟨h, hfour⟩]
    unfold laterYear?
    split
    · next digits hplus =>
      have hmem : '+' ∈ (Decimal.ofNatWidth 4 year.natAbs).toList := hplus ▸ List.mem_cons_self
      exact absurd hmem (Decimal.not_mem_ofNatWidth (by decide) _ _)
    · rw [field?_ofNatWidth (by decide) (by omega), Option.map_some, hyear]
  · rw [if_neg (fun hc => hfour hc.2), if_neg (Int.not_lt.mpr h), String.toList_append]
    have hmore : 9999 < year.natAbs := by omega
    simpa [laterYear?, Decimal.nat?_ofNatWidth, hmore] using hyear

theorem earlierYear?_ofNatWidth {year : Int} (h : year < 0) :
    earlierYear? (Decimal.ofNatWidth 4 year.natAbs).toList = some year := by
  have hpos : 0 < year.natAbs := by omega
  have hyear : -Int.ofNat year.natAbs = year := by
    rw [Int.ofNat_eq_natCast, Int.ofNat_natAbs_of_nonpos (Int.le_of_lt h), Int.neg_neg]
  rw [earlierYear?, if_pos (Decimal.length_ofNatWidth 4 _ ▸ Nat.le_max_left 4 _),
    Decimal.nat?_ofNatWidth]
  simpa [hpos] using hyear

theorem date?_fields (hvalid : d.Valid) : date? (some d.year)
    (Decimal.ofNatWidth 2 d.month).toList (Decimal.ofNatWidth 2 d.day).toList = some d := by
  have hmonth : d.month < 10 ^ 2 := Nat.lt_of_le_of_lt hvalid.month_le (by decide)
  have hday : d.day < 10 ^ 2 := by
    have hle := Nat.le_trans hvalid.day_le (monthLength_bounds d.year d.month).2
    exact Nat.lt_of_le_of_lt hle (by decide)
  rw [date?, field?_ofNatWidth (by decide) hmonth, field?_ofNatWidth (by decide) hday]
  rfl

theorem minus_not_mem_yearText {year : Int} (h : 0 ≤ year) : '-' ∉ (yearText year).toList := by
  have hdigits : '-' ∉ (Decimal.ofNatWidth 4 year.natAbs).toList :=
    Decimal.not_mem_ofNatWidth (by decide) _ _
  unfold yearText
  split
  · exact hdigits
  · rw [if_neg (Int.not_lt.mpr h), String.toList_append, List.mem_append, not_or]
    exact ⟨by decide, hdigits⟩

theorem readDate?_text (hvalid : d.Valid) : readDate? d.text.toList = some d := by
  have htext : d.text.toList = (yearText d.year).toList ++ '-' ::
      ((Decimal.ofNatWidth 2 d.month).toList ++ '-' :: (Decimal.ofNatWidth 2 d.day).toList) := by
    simp [Date.text]
  have hrest : splitOn '-' ((Decimal.ofNatWidth 2 d.month).toList ++
      '-' :: (Decimal.ofNatWidth 2 d.day).toList) =
      [(Decimal.ofNatWidth 2 d.month).toList, (Decimal.ofNatWidth 2 d.day).toList] := by
    rw [splitOn_append_cons (Decimal.not_mem_ofNatWidth (by decide) _ _),
      splitOn_of_not_mem (Decimal.not_mem_ofNatWidth (by decide) _ _)]
  rw [readDate?, htext]
  by_cases hneg : d.year < 0
  · have hyear : (yearText d.year).toList =
        [] ++ '-' :: (Decimal.ofNatWidth 4 d.year.natAbs).toList := by
      rw [yearText, if_neg (by omega), if_pos hneg, String.toList_append]
      rfl
    rw [hyear, List.append_assoc, List.cons_append, splitOn_append_cons List.not_mem_nil,
      splitOn_append_cons (Decimal.not_mem_ofNatWidth (by decide) _ _), hrest]
    dsimp only
    rw [earlierYear?_ofNatWidth hneg, date?_fields hvalid]
  · have hyear : 0 ≤ d.year := Int.not_lt.mp hneg
    rw [splitOn_append_cons (minus_not_mem_yearText hyear), hrest]
    dsimp only
    rw [laterYear?_yearText hyear, date?_fields hvalid]

theorem space_not_mem_text (d : Date) : ' ' ∉ d.text.toList := by
  have hdigits (width n : Nat) : ' ' ∉ (Decimal.ofNatWidth width n).toList :=
    Decimal.not_mem_ofNatWidth (by decide) _ _
  unfold Date.text yearText
  dsimp only
  split_ifs <;> simp [hdigits]

theorem read?_text (hvalid : t.Valid) : read? t.text = some t := by
  have htext : t.text.toList = t.date.text.toList ++ ' ' ::
      ((Decimal.ofNatWidth 2 t.hour).toList ++ ':' :: ((Decimal.ofNatWidth 2 t.minute).toList ++
        ':' :: (Decimal.ofNatWidth 2 t.second).toList)) := by
    simp [Instant.text]
  have hspace (width n : Nat) : ' ' ∉ (Decimal.ofNatWidth width n).toList :=
    Decimal.not_mem_ofNatWidth (by decide) _ _
  have hcolon (width n : Nat) : ':' ∉ (Decimal.ofNatWidth width n).toList :=
    Decimal.not_mem_ofNatWidth (by decide) _ _
  have htime : readTime? t.date ((Decimal.ofNatWidth 2 t.hour).toList ++
      ':' :: ((Decimal.ofNatWidth 2 t.minute).toList ++
        ':' :: (Decimal.ofNatWidth 2 t.second).toList)) = some t := by
    have := hvalid.hour
    have := hvalid.minute
    have := hvalid.second
    rw [readTime?, splitOn_append_cons (hcolon _ _), splitOn_append_cons (hcolon _ _),
      splitOn_of_not_mem (hcolon _ _)]
    dsimp only
    rw [field?_ofNatWidth (by decide) (by omega), field?_ofNatWidth (by decide) (by omega),
      field?_ofNatWidth (by decide) (by omega)]
    rfl
  rw [read?, htext, splitOn_append_cons (space_not_mem_text _),
    splitOn_of_not_mem (by simp [hspace])]
  dsimp only
  rw [readDate?_text hvalid.date, Option.bind_some, htime]
  exact if_pos (decide_eq_true hvalid)

end QuotaDesk.Calendar
