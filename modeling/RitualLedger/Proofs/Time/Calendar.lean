import Mathlib.Tactic.IntervalCases
import RitualLedger.Time.Calendar

/-!
# Dates and day numbers

`ofDayNumber` finds a date that the calendar has, and `dayNumber` gives its number back, for every
day number. The proof writes a day of an era as a place: the century, the group of four years in
it, the year of the group, and the day of the year. A century but the last ends one day early, and
so does every year of a group but the last; at its place a day shows which year it belongs to.
-/

namespace RitualLedger.Date

/-! ## Places in an era -/

/-- The place of a day in an era of 400 years that begin in March. -/
structure Place (day century group year dayOfYear : Int) : Prop where
  eq : day = 36524 * century + 1461 * group + 365 * year + dayOfYear
  century_nonneg : 0 ≤ century
  century_le : century ≤ 3
  group_nonneg : 0 ≤ group
  group_le : group ≤ 24
  year_nonneg : 0 ≤ year
  year_le : year ≤ 3
  dayOfYear_nonneg : 0 ≤ dayOfYear
  dayOfYear_le : dayOfYear ≤ 365
  /-- Only the last year of a group has a leap day. -/
  leapYear : dayOfYear = 365 → year = 3
  /-- Only the last century has a leap day at its end. -/
  leapCentury : century < 3 → 1461 * group + 365 * year + dayOfYear < 36524

/-- Every day of an era has a place. -/
theorem exists_place {day : Int} (h₀ : 0 ≤ day) (h₁ : day < 146097) :
    ∃ century group year dayOfYear, Place day century group year dayOfYear := by
  obtain ⟨c, e, hc₀, hc₃, he₀, he₁, hlast, hday⟩ : ∃ c e : Int, 0 ≤ c ∧ c ≤ 3 ∧ 0 ≤ e ∧
      e ≤ 36524 ∧ (c < 3 → e < 36524) ∧ day = 36524 * c + e := by
    rcases lt_or_ge day 146096 with h | h
    · exact ⟨day / 36524, day % 36524, by omega, by omega, by omega, by omega, by omega, by omega⟩
    · exact ⟨3, 36524, by omega, by omega, by omega, by omega, by omega, by omega⟩
  obtain ⟨y, t, hy₀, hy₃, ht₀, ht₁, hleap, hyear⟩ : ∃ y t : Int, 0 ≤ y ∧ y ≤ 3 ∧ 0 ≤ t ∧
      t ≤ 365 ∧ (t = 365 → y = 3) ∧ e % 1461 = 365 * y + t := by
    rcases lt_or_ge (e % 1461) 1460 with h | h
    · exact ⟨e % 1461 / 365, e % 1461 % 365, by omega, by omega, by omega, by omega, by omega,
        by omega⟩
    · exact ⟨3, 365, by omega, by omega, by omega, by omega, by omega, by omega⟩
  refine ⟨c, e / 1461, y, t, ?_⟩
  constructor <;> omega

namespace Place

variable {day c g y t : Int}

/-- The formula of `ofDayNumber` finds the year of a place. -/
theorem yearOfEra (h : Place day c g y t) :
    (day - day / 1460 + day / 36524 - day / 146096) / 365 = 100 * c + 4 * g + y := by
  obtain ⟨rfl, hc₀, hc₃, hg₀, hg₁, hy₀, hy₃, ht₀, ht₁, hleap, hlast⟩ := h
  -- groups of 1460 days lose one day each; the loss shows within the last year of a group
  have hgroups : (36524 * c + 1461 * g + 365 * y + t) / 1460
      = 25 * c + g + if 1460 ≤ 24 * c + g + 365 * y + t then 1 else 0 := by
    split <;> omega
  have hcenturies : (36524 * c + 1461 * g + 365 * y + t) / 36524
      - (36524 * c + 1461 * g + 365 * y + t) / 146096 = c := by
    rcases lt_or_ge (1461 * g + 365 * y + t) 36524 with h | h
    · have h₁ : (36524 * c + 1461 * g + 365 * y + t) / 36524 = c := by omega
      have h₂ : (36524 * c + 1461 * g + 365 * y + t) / 146096 = 0 := by omega
      rw [h₁, h₂, Int.sub_zero]
    · have h₁ : 36524 * c + 1461 * g + 365 * y + t = 146096 := by omega
      rw [h₁]
      omega
  rw [hgroups]
  split <;> omega

/-- The days before the year of a place. -/
theorem daysBeforeYear (h : Place day c g y t) :
    day - (365 * (100 * c + 4 * g + y) + (100 * c + 4 * g + y) / 4 - (100 * c + 4 * g + y) / 100)
      = t := by
  obtain ⟨rfl, hc₀, hc₃, hg₀, hg₁, hy₀, hy₃, ht₀, ht₁, hleap, hlast⟩ := h
  have hfour : (100 * c + 4 * g + y) / 4 = 25 * c + g := by omega
  have hhundred : (100 * c + 4 * g + y) / 100 = c := by omega
  rw [hfour, hhundred]
  omega

/-- A year with a leap day ends in a February that has one. -/
theorem isLeapYear (h : Place day c g y t) (ht : t = 365) (era : Int) :
    Date.isLeapYear (100 * c + 4 * g + y + era * 400 + 1) = true := by
  obtain ⟨rfl, hc₀, hc₃, hg₀, hg₁, hy₀, hy₃, ht₀, ht₁, hleap, hlast⟩ := h
  simp only [Date.isLeapYear, decide_eq_true_eq]
  omega

end Place

/-! ## Months -/

/-- The month of a day of a year that begins in March. -/
theorem marchMonth_bounds {t : Int} (h₀ : 0 ≤ t) (h₁ : t ≤ 365) :
    0 ≤ (5 * t + 2) / 153 ∧ (5 * t + 2) / 153 ≤ 11 := by
  omega

/-- A day lies in its month: from its first day to the last that months of that place have. -/
theorem day_bounds {t m : Int} (h : (5 * t + 2) / 153 = m) :
    1 ≤ t - daysBefore m + 1 ∧ t - daysBefore m + 1 ≤ 31 := by
  simp only [daysBefore]
  omega

/-- A day of a year that begins in March is no later than the month of its place is long. -/
theorem day_le {t m : Int} (h : (5 * t + 2) / 153 = m) (h₀ : 0 ≤ t) (h₁ : t ≤ 365) (year : Int)
    (hleap : t = 365 → isLeapYear year = true) :
    t - daysBefore m + 1
      ≤ daysInMonth year (if m < 10 then m + 3 else m - 9).toNat := by
  obtain ⟨hm₀, hm₁⟩ : 0 ≤ m ∧ m ≤ 11 := by omega
  interval_cases m
  -- the months from March to January, and February
  case «11» =>
    change t - 337 + 1 ≤ ((if isLeapYear year then 29 else 28 : Nat) : Int)
    split
    · omega
    · rename_i hno
      have : t ≠ 365 := fun ht => hno (hleap ht)
      omega
  all_goals simp only [daysBefore, daysInMonth, Int.reduceLT, ↓reduceIte, Int.reduceAdd,
    Int.reduceSub, Int.reduceToNat]
  all_goals omega

theorem daysInMonth_le (year : Int) (month : Nat) : daysInMonth year month ≤ 31 := by
  unfold daysInMonth
  split
  · split
    · decide
    · decide
  all_goals decide

/-! ## The two directions -/

/-- What `ofDayNumber` finds, in terms of the place of a day: the year begins in March, and January
and February belong to the next one. -/
theorem ofDayNumber_eq {n c g y t : Int} (h : Place ((n + 719468) % 146097) c g y t) :
    ofDayNumber n =
      let m := (5 * t + 2) / 153
      ⟨100 * c + 4 * g + y + (n + 719468) / 146097 * 400 + (if m < 10 then 0 else 1),
        (if m < 10 then m + 3 else m - 9).toNat, (t - daysBefore m + 1).toNat⟩ := by
  have hm := marchMonth_bounds h.dayOfYear_nonneg h.dayOfYear_le
  simp only [ofDayNumber, h.yearOfEra, h.daysBeforeYear, mk.injEq, and_true]
  split <;> simp <;> omega

/-- The date of a day number has that number. -/
theorem dayNumber_ofDayNumber (n : Int) : (ofDayNumber n).dayNumber = n := by
  obtain ⟨c, g, y, t, h⟩ := @exists_place ((n + 719468) % 146097) (by omega) (by omega)
  have hm := marchMonth_bounds h.dayOfYear_nonneg h.dayOfYear_le
  have hd := day_bounds (t := t) rfl
  have ht := h.daysBeforeYear
  rw [ofDayNumber_eq h]
  obtain ⟨-, hc₀, hc₃, hg₀, hg₁, hy₀, hy₃, ht₀, ht₁, -, -⟩ := h
  generalize (5 * t + 2) / 153 = m at hm hd ⊢
  -- the year that begins in March, and its place in the era
  generalize hx : 100 * c + 4 * g + y = x at ht ⊢
  have hera : (x + (n + 719468) / 146097 * 400) / 400 = (n + 719468) / 146097 := by omega
  have hyear : (x + (n + 719468) / 146097 * 400) % 400 = x := by omega
  simp only [dayNumber]
  rcases lt_or_ge m 10 with hlt | hge
  · have hmonth : ((m + 3).toNat : Int) - 3 = m := by omega
    have hlate : ¬(m + 3).toNat ≤ 2 := by omega
    simp only [if_pos hlt, if_neg hlate, hmonth, Int.add_zero, hera, hyear]
    omega
  · have hlt : ¬m < 10 := by omega
    have hmonth : ((m - 9).toNat : Int) + 9 = m := by omega
    have hearly : (m - 9).toNat ≤ 2 := by omega
    simp only [if_neg hlt, if_pos hearly, hmonth, Int.add_sub_cancel, hera, hyear]
    omega

/-- The calendar has the date of every day number. -/
theorem isValid_ofDayNumber (n : Int) : (ofDayNumber n).isValid = true := by
  obtain ⟨c, g, y, t, h⟩ := @exists_place ((n + 719468) % 146097) (by omega) (by omega)
  have hm := marchMonth_bounds h.dayOfYear_nonneg h.dayOfYear_le
  have hd := day_bounds (t := t) rfl
  have hlast := day_le (t := t) rfl h.dayOfYear_nonneg h.dayOfYear_le
    (100 * c + 4 * g + y + (n + 719468) / 146097 * 400
      + if (5 * t + 2) / 153 < 10 then 0 else 1) fun ht => by
        subst ht
        exact h.isLeapYear rfl _
  rw [ofDayNumber_eq h]
  simp only [isValid, decide_eq_true_eq]
  generalize (5 * t + 2) / 153 = m at hm hd hlast ⊢
  refine ⟨by split <;> omega, by split <;> omega, by omega, by omega⟩

end RitualLedger.Date
