import BenchLedger.Time.Calendar

/-!
# The calendar and the numbering of days

Every number of a day is the number of one date, and that date exists in its month.  A cycle of
400 years splits into centuries, spans of four years, years and days; the day that a number leaves
over in its year fixes month and day of month.
-/

namespace BenchLedger.Time

/-- Day `c` of a cycle is day `r` of year `k` of the `b`-th four years of century `a`. -/
private structure CycleParts (c a b k r : Nat) : Prop where
  century : a ≤ 3
  fours : b ≤ 24
  year : k ≤ 3
  day : r ≤ 365
  -- Only a year that ends with a leap day has a day 365.
  leap : r = 365 → k = 3 ∧ (b = 24 → a = 3)
  sum : c = 36524 * a + (1461 * b + (365 * k + r))

private theorem exists_century {c : Nat} (hc : c < 146097) :
    ∃ a x, a ≤ 3 ∧ x ≤ 36524 ∧ (x = 36524 → a = 3) ∧ c = 36524 * a + x := by
  by_cases h1 : c < 36524
  · exact ⟨0, c, by omega⟩
  by_cases h2 : c < 73048
  · exact ⟨1, c - 36524, by omega⟩
  by_cases h3 : c < 109572
  · exact ⟨2, c - 73048, by omega⟩
  · exact ⟨3, c - 109572, by omega⟩

private theorem exists_year {y : Nat} (hy : y < 1461) :
    ∃ k r, k ≤ 3 ∧ r ≤ 365 ∧ (r = 365 → k = 3) ∧ y = 365 * k + r := by
  by_cases h1 : y < 365
  · exact ⟨0, y, by omega⟩
  by_cases h2 : y < 730
  · exact ⟨1, y - 365, by omega⟩
  by_cases h3 : y < 1095
  · exact ⟨2, y - 730, by omega⟩
  · exact ⟨3, y - 1095, by omega⟩

private theorem exists_cycleParts {c : Nat} (hc : c < 146097) :
    ∃ a b k r, CycleParts c a b k r := by
  obtain ⟨a, x, ha, hx, hlast, rfl⟩ := exists_century hc
  have hfours : x = 1461 * (x / 1461) + x % 1461 := (Nat.div_add_mod x 1461).symm
  obtain ⟨k, r, hk, hr, hleap, hy⟩ := exists_year (Nat.mod_lt x (by decide : 0 < 1461))
  refine ⟨a, x / 1461, k, r, ha, by omega, hk, hr, ?_, by rw [← hy, ← hfours]⟩
  intro h
  exact ⟨hleap h, by omega⟩

-- The leap days before and in the year do not push its days past 365.
private theorem leapShift_lt {a b k r s : Nat} (ha : a ≤ 3) (hb : b ≤ 24) (hk : k ≤ 3)
    (hr : r ≤ 365) (hleap : r = 365 → k = 3) (hs : s = 24 * a + b + 365 * k + r) :
    s / 1460 ≤ r ∧ r - s / 1460 < 365 := by
  omega

private theorem div_century {c a x : Nat} (ha : a ≤ 3) (hx : x ≤ 36524) (hlast : x = 36524 → a = 3)
    (h : c = 36524 * a + x) : c / 36524 = a + c / 146096 := by
  omega

private theorem div_fours {c a b k r s : Nat} (hs : s = 24 * a + b + 365 * k + r)
    (h : c = 36524 * a + (1461 * b + (365 * k + r))) : c / 1460 = 25 * a + b + s / 1460 := by
  omega

namespace CycleParts

variable {c a b k r : Nat}

private theorem year_eq (h : CycleParts c a b k r) :
    (c - c / 1460 + c / 36524 - c / 146096) / 365 = 100 * a + 4 * b + k := by
  obtain ⟨ha, hb, hk, hr, hleap, hsum⟩ := h
  -- the day of the cycle beyond 25 spans of 1460 days for each century and one for each four years
  obtain ⟨s, hs⟩ : ∃ s, s = 24 * a + b + 365 * k + r := ⟨_, rfl⟩
  have hshift := leapShift_lt ha hb hk hr (fun h => (hleap h).1) hs
  have hfours := div_fours hs hsum
  have hcentury : c / 36524 = a + c / 146096 := by
    refine div_century ha (x := 1461 * b + (365 * k + r)) ?_ ?_ hsum
    · clear hs hshift hfours hsum
      omega
    · clear hs hshift hfours hsum
      omega
  have hrest : c - c / 1460 + c / 36524 - c / 146096 =
      365 * (100 * a + 4 * b + k) + (r - s / 1460) := by
    rw [hcentury, hfours]
    generalize s / 1460 = t at hshift
    generalize c / 146096 = u
    clear hcentury hfours hleap hs
    omega
  rw [hrest, Nat.mul_add_div (by decide), Nat.div_eq_of_lt hshift.2, Nat.add_zero]

private theorem start_eq (h : CycleParts c a b k r) :
    365 * (100 * a + 4 * b + k) + (100 * a + 4 * b + k) / 4 - (100 * a + 4 * b + k) / 100 =
      36524 * a + 1461 * b + 365 * k := by
  obtain ⟨ha, hb, hk, -, -, -⟩ := h
  have h4 : (100 * a + 4 * b + k) / 4 = 25 * a + b := by omega
  have h100 : (100 * a + 4 * b + k) / 100 = a := by omega
  rw [h4, h100]
  omega

end CycleParts

/-- The year of a cycle that begins in March, and the day of that year, of a day of the cycle. -/
structure YearDay (c y d : Nat) : Prop where
  year_eq : (c - c / 1460 + c / 36524 - c / 146096) / 365 = y
  year_lt : y < 400
  day_eq : c - (365 * y + y / 4 - y / 100) = d
  day_le : d ≤ 365
  sum : c = 365 * y + y / 4 - y / 100 + d
  -- The leap day is the last of the year before the leap year's March.
  leap : d = 365 → (y + 1) % 4 = 0 ∧ ((y + 1) % 100 = 0 → y + 1 = 400)

theorem exists_yearDay {c : Nat} (hc : c < 146097) : ∃ y d, YearDay c y d := by
  obtain ⟨a, b, k, r, h⟩ := exists_cycleParts hc
  have hstart := h.start_eq
  obtain ⟨ha, hb, hk, hr, hleap, hsum⟩ := id h
  refine ⟨100 * a + 4 * b + k, r, h.year_eq, by omega, ?_, hr, ?_, ?_⟩
  · rw [hstart]
    omega
  · rw [hstart]
    omega
  · intro hlast
    obtain ⟨rfl, hcentury⟩ := hleap hlast
    clear hstart hsum hleap h
    omega

-- The month, counted from March, of a day of a year that begins in March.
private theorem daysBeforeMonth_le {d m : Nat} (hd : d ≤ 365) (hm : m = (5 * d + 2) / 153) :
    m ≤ 11 ∧ daysBeforeMonth m ≤ d := by
  unfold daysBeforeMonth
  omega

private theorem dayOfMonth_le {d m : Nat} (hd : d ≤ 365) (hm : m = (5 * d + 2) / 153) :
    d - daysBeforeMonth m ≤ 30 ∧
      (m = 1 ∨ m = 3 ∨ m = 6 ∨ m = 8 → d - daysBeforeMonth m ≤ 29) ∧
      (m = 11 → d - daysBeforeMonth m ≤ 28 ∧ (d - daysBeforeMonth m = 28 → d = 365)) := by
  unfold daysBeforeMonth
  omega

/-- A day number, the parts of its cycle, and the month counted from March. -/
private structure DateParts (n cycle : Int) (c y d m : Nat) : Prop where
  yearDay : YearDay c y d
  month_eq : m = (5 * d + 2) / 153
  sum : n + 719468 = 146097 * cycle + c
  date_eq : Date.ofDayNumber n =
    { year := cycle * 400 + y + if m < 10 then 0 else 1
      month := if m < 10 then m + 3 else m - 9
      day := d - daysBeforeMonth m + 1 }

private theorem exists_dateParts (n : Int) : ∃ cycle c y d m, DateParts n cycle c y d m := by
  have hlt : ((n + 719468) % 146097).toNat < 146097 := by omega
  obtain ⟨y, d, h⟩ := exists_yearDay hlt
  have hm := daysBeforeMonth_le h.day_le rfl
  refine ⟨(n + 719468) / 146097, _, y, d, _, h, rfl, by omega, ?_⟩
  simp only [Date.ofDayNumber, h.year_eq, h.day_eq]
  generalize (5 * d + 2) / 153 = m at hm
  by_cases h10 : m < 10
  · simp only [if_pos h10, show ¬m + 3 ≤ 2 by omega, if_false]
  · simp only [if_neg h10, show m - 9 ≤ 2 by omega, if_true]

theorem Date.dayNumber_ofDayNumber (n : Int) : (Date.ofDayNumber n).dayNumber = n := by
  obtain ⟨cycle, c, y, d, m, h⟩ := exists_dateParts n
  obtain ⟨hm, hle⟩ := daysBeforeMonth_le h.yearDay.day_le h.month_eq
  have hy := h.yearDay.year_lt
  have hc := h.yearDay.sum
  have hsum := h.sum
  rw [h.date_eq]
  unfold Date.dayNumber
  by_cases h10 : m < 10
  · have hmonth : (m + 3 + 9) % 12 = m := by omega
    simp only [if_pos h10, show ¬m + 3 ≤ 2 by omega, if_false, hmonth]
    have hmod : (cycle * 400 + (y : Int) + 0) % 400 = y := by omega
    have hdiv : (cycle * 400 + (y : Int) + 0) / 400 = cycle := by omega
    rw [hmod, hdiv]
    omega
  · have hmonth : (m - 9 + 9) % 12 = m := by omega
    simp only [if_neg h10, show m - 9 ≤ 2 by omega, if_true, hmonth]
    have hmod : (cycle * 400 + (y : Int) + 1 - 1) % 400 = y := by omega
    have hdiv : (cycle * 400 + (y : Int) + 1 - 1) / 400 = cycle := by omega
    rw [hmod, hdiv]
    omega

private theorem isLeapYear_iff {year : Int} :
    isLeapYear year = true ↔ year % 4 = 0 ∧ (year % 100 ≠ 0 ∨ year % 400 = 0) := by
  simp [isLeapYear]

theorem Date.isValid_ofDayNumber (n : Int) : (Date.ofDayNumber n).isValid = true := by
  obtain ⟨cycle, c, y, d, m, h⟩ := exists_dateParts n
  obtain ⟨hm, -⟩ := daysBeforeMonth_le h.yearDay.day_le h.month_eq
  obtain ⟨h30, h29, h28⟩ := dayOfMonth_le h.yearDay.day_le h.month_eq
  have hleap := h.yearDay.leap
  rw [h.date_eq]
  generalize d - daysBeforeMonth m = day at h30 h29 h28
  simp only [Date.isValid, Bool.and_eq_true, decide_eq_true_eq]
  by_cases h10 : m < 10
  · simp only [if_pos h10, daysInMonth, show m + 3 ≠ 2 by omega, if_false]
    refine ⟨⟨⟨by omega, by omega⟩, by omega⟩, ?_⟩
    split <;> omega
  -- February is the last month, and the only one whose length depends on the year
  by_cases h11 : m = 11
  · subst h11
    simp only [show ¬11 < 10 by decide, if_false, daysInMonth, if_true, isLeapYear_iff]
    refine ⟨⟨⟨by decide, by decide⟩, by omega⟩, ?_⟩
    split
    · omega
    · rename_i hnot
      refine Nat.le_of_not_lt fun hday => hnot ?_
      have hlast := (h28 rfl).2 (by omega)
      obtain ⟨hfour, hcentury⟩ := hleap hlast
      clear h28 h29 h30 hday hlast hleap h
      omega
  · have hm10 : m = 10 := by omega
    subst hm10
    simp only [show ¬10 < 10 by decide, if_false, daysInMonth]
    exact ⟨⟨⟨by decide, by decide⟩, by omega⟩, by simp; omega⟩

theorem Date.lt_of_isValid {d : Date} (h : d.isValid = true) : d.month < 100 ∧ d.day < 100 := by
  have hdays : daysInMonth d.year d.month ≤ 31 := by
    unfold daysInMonth
    split
    · split <;> decide
    · split <;> decide
  simp only [isValid, Bool.and_eq_true, decide_eq_true_eq] at h
  omega

end BenchLedger.Time
