import RequestFlow.Calendar

/-!
# Days and dates

The calendar is given by its leap years and by the lengths of its months: these say which date comes
after a date.  The count of days goes up by one from each date to the next, and the dates of two
counts are the same only if the counts are; so `Date.ofDays` runs through the calendar day by day,
from 1 January 1970 into both directions.

    the day of each count is a day of its month                               (valid_ofDays)
    the count of the date of a count is that count                            (toDays_ofDays)
    a machine word of nanoseconds reaches from 1677 to 2262                   (year_ofDays_word)
    the date of the count of a date is that date                              (ofDays_toDays)
    one day later it is the next date                                         (ofDays_add_one)
-/

namespace RequestFlow

namespace Date

/-- The date that comes after a date. -/
def next (d : Date) : Date :=
  if d.day < daysInMonth d.year d.month then ⟨d.year, d.month, d.day + 1⟩
  else if d.month < 12 then ⟨d.year, d.month + 1, 1⟩
  else ⟨d.year + 1, 1, 1⟩

/-- A count of days as cycles of four hundred years that begin in March, and in the last of them
centuries, leap cycles and years.  A year with a day of number 365 ends in a leap year's February. -/
structure Parts (n cycle century leapCycle year day : Int) : Prop where
  century_le : 0 ≤ century ∧ century ≤ 3
  leapCycle_le : 0 ≤ leapCycle ∧ leapCycle ≤ 24
  year_le : 0 ≤ year ∧ year ≤ 3
  day_le : 0 ≤ day ∧ (day ≤ 364 ∨ day = 365 ∧ year = 3 ∧ (leapCycle < 24 ∨ century = 3))
  sum : n = 146097 * cycle + 36524 * century + 1461 * leapCycle + 365 * year + day

/-- The date of a day in a year that begins in March. -/
def ofMarch (year day : Int) : Date :=
  let month := (5 * day + 2) / 153
  ⟨if month < 10 then year else year + 1, if month < 10 then month + 3 else month - 9,
    day - (153 * month + 2) / 5 + 1⟩

/-- The first day of a year that begins in March. -/
def marchStart (year : Int) : Int :=
  year / 400 * 146097 + (year % 400 * 365 + year % 400 / 4 - year % 400 / 100) - 719468

/-! ## Parts of a count -/

theorem valid_iff (year month day : Int) :
    Valid ⟨year, month, day⟩ ↔
      1 ≤ month ∧ month ≤ 12 ∧ 1 ≤ day ∧ day ≤ daysInMonth year month := Iff.rfl

theorem daysInMonth_february (year : Int) :
    daysInMonth year 2 = if isLeap year = true then 29 else 28 := by
  simp [daysInMonth]

theorem daysInMonth_january (year : Int) : daysInMonth year 1 = 31 := by simp [daysInMonth]

/-- From March on, five months in a row have 153 days. -/
theorem daysInMonth_of_march {month : Int} (year : Int) (h : 3 ≤ month ∧ month ≤ 12) :
    daysInMonth year month = (153 * (month - 2) + 2) / 5 - (153 * (month - 3) + 2) / 5 := by
  have months : month = 3 ∨ month = 4 ∨ month = 5 ∨ month = 6 ∨ month = 7 ∨ month = 8 ∨ month = 9 ∨
      month = 10 ∨ month = 11 ∨ month = 12 := by omega
  rcases months with rfl | rfl | rfl | rfl | rfl | rfl | rfl | rfl | rfl | rfl <;>
    simp [daysInMonth]

theorem isLeap_iff (year : Int) :
    isLeap year = true ↔ year % 4 = 0 ∧ (year % 100 ≠ 0 ∨ year % 400 = 0) := by
  simp [isLeap]

theorem exists_parts (n : Int) :
    ∃ cycle century leapCycle year day, Parts n cycle century leapCycle year day := by
  obtain ⟨cycle, r, hn, hr⟩ : ∃ cycle r, n = 146097 * cycle + r ∧ 0 ≤ r ∧ r ≤ 146096 :=
    ⟨n / 146097, n % 146097, by omega, by omega⟩
  -- the last century of a cycle and the last year of a leap cycle have one day more
  obtain ⟨century, s, hs⟩ : ∃ century s, r = 36524 * century + s ∧ 0 ≤ century ∧ century ≤ 3 ∧
      0 ≤ s ∧ (s ≤ 36523 ∨ s = 36524 ∧ century = 3) :=
    ⟨min (r / 36524) 3, r - 36524 * min (r / 36524) 3, by omega, by omega⟩
  obtain ⟨leapCycle, t, ht⟩ : ∃ leapCycle t, s = 1461 * leapCycle + t ∧ 0 ≤ leapCycle ∧
      leapCycle ≤ 24 ∧ 0 ≤ t ∧ t ≤ 1460 ∧ (t ≤ 1459 ∨ leapCycle < 24 ∨ century = 3) :=
    ⟨s / 1461, s % 1461, by omega, by omega⟩
  obtain ⟨year, day, hd⟩ : ∃ year day, t = 365 * year + day ∧ 0 ≤ year ∧ year ≤ 3 ∧ 0 ≤ day ∧
      (day ≤ 364 ∨ day = 365 ∧ year = 3 ∧ (leapCycle < 24 ∨ century = 3)) :=
    ⟨min (t / 365) 3, t - 365 * min (t / 365) 3, by omega, by omega⟩
  exact ⟨cycle, century, leapCycle, year, day, by omega, by omega, by omega, by omega, by omega⟩

section

variable {n cycle century leapCycle year day : Int}

/-- The parts of a count are found by division. -/
theorem Parts.quotients (h : Parts n cycle century leapCycle year day) :
    n / 146097 = cycle ∧
      (n % 146097 - n % 146097 / 1460 + n % 146097 / 36524 - n % 146097 / 146096) / 365 =
        100 * century + 4 * leapCycle + year ∧
      n % 146097 = 36524 * century + 1461 * leapCycle + 365 * year + day := by
  obtain ⟨hc, hl, hy, hd, sum⟩ := h
  have rest : n % 146097 = 36524 * century + 1461 * leapCycle + 365 * year + day := by omega
  refine ⟨by omega, ?_, rest⟩
  generalize n % 146097 = r at rest
  have centuries : r / 36524 - r / 146096 = century := by
    by_cases last : r = 146096
    · omega
    · have inside : 1461 * leapCycle + 365 * year + day ≤ 36523 := by omega
      have none : r / 146096 = 0 := by omega
      omega
  -- the division by 1460 counts one leap cycle too many at the end of its last year
  rcases Int.lt_or_le (leapCycle + 24 * century + 365 * year + day) 1460 with early | late
  · have cycles : r / 1460 = 25 * century + leapCycle := by omega
    omega
  · have cycles : r / 1460 = 25 * century + leapCycle + 1 := by omega
    omega

/-- The leap cycles and the centuries among the years of a cycle. -/
theorem Parts.years (h : Parts n cycle century leapCycle year day) :
    (100 * century + 4 * leapCycle + year) / 4 = 25 * century + leapCycle ∧
      (100 * century + 4 * leapCycle + year) / 100 = century := by
  have hl := h.leapCycle_le
  have hy := h.year_le
  omega

theorem Parts.ofDays {z : Int} (h : Parts (z + 719468) cycle century leapCycle year day) :
    ofDays z = ofMarch (400 * cycle + 100 * century + 4 * leapCycle + year) day := by
  obtain ⟨cycles, years, rest⟩ := h.quotients
  obtain ⟨fourth, hundredth⟩ := h.years
  have inYear : 36524 * century + 1461 * leapCycle + 365 * year + day -
      (365 * (100 * century + 4 * leapCycle + year) + (25 * century + leapCycle) - century) = day := by
    omega
  have sum : 100 * century + 4 * leapCycle + year + cycle * 400 =
      400 * cycle + 100 * century + 4 * leapCycle + year := by omega
  simp only [Date.ofDays]
  rw [years, cycles, rest, fourth, hundredth, inYear, sum, ofMarch]
  have hd := h.day_le
  have months : 0 ≤ (5 * day + 2) / 153 ∧ (5 * day + 2) / 153 ≤ 11 := by omega
  generalize (5 * day + 2) / 153 = m at months
  by_cases before : m < 10
  · have late : ¬ m + 3 ≤ 2 := by omega
    simp [before, late]
  · have early : m - 9 ≤ 2 := by omega
    simp [before, early]

end

/-! ## Dates of counts -/

/-- A year that begins in March has a day more if it ends in a leap year. -/
theorem valid_ofMarch {year day : Int} (h₀ : 0 ≤ day)
    (h₁ : day ≤ 364 ∨ day = 365 ∧ isLeap (year + 1) = true) : (ofMarch year day).Valid := by
  generalize hm : (5 * day + 2) / 153 = m
  have months : 0 ≤ m ∧ m < 10 ∨ m = 10 ∨ m = 11 := by omega
  simp only [ofMarch, hm, valid_iff]
  rcases months with ⟨first, before⟩ | rfl | rfl
  · have length := daysInMonth_of_march year (show 3 ≤ m + 3 ∧ m + 3 ≤ 12 by omega)
    have same : m + 3 - 3 = m := by omega
    rw [same] at length
    simp only [before, if_true, length]
    omega
  · simp only [Int.lt_irrefl, if_false, Int.reduceSub, daysInMonth_january]
    omega
  · simp only [Int.reduceLT, if_false, Int.reduceSub, daysInMonth_february]
    rcases h₁ with h₁ | ⟨rfl, leap⟩
    · split <;> omega
    · simp [leap]

/-- Dates in a year that begins in March, by the day of the year. -/
theorem toDays_ofMarch {year day : Int} (h : 0 ≤ day ∧ day ≤ 365) :
    (ofMarch year day).toDays = marchStart year + day := by
  generalize hm : (5 * day + 2) / 153 = m
  have months : 0 ≤ m ∧ m ≤ 11 := by omega
  simp only [ofMarch, hm, toDays, marchStart]
  by_cases before : m < 10
  · have late : ¬ m + 3 ≤ 2 := by omega
    have after : 2 < m + 3 := by omega
    simp only [before, late, after, if_true, if_false]
    omega
  · have early : m - 9 ≤ 2 := by omega
    have under : ¬ 2 < m - 9 := by omega
    have same : year + 1 - 1 = year := by omega
    simp only [before, early, under, same, if_true, if_false]
    omega

theorem Parts.marchStart {n cycle century leapCycle year day : Int}
    (h : Parts n cycle century leapCycle year day) :
    marchStart (400 * cycle + 100 * century + 4 * leapCycle + year) + day = n - 719468 := by
  obtain ⟨fourth, hundredth⟩ := h.years
  obtain ⟨hc, hl, hy, -, sum⟩ := h
  generalize hr : 400 * cycle + 100 * century + 4 * leapCycle + year = r
  have cycles : r / 400 = cycle := by omega
  have rest : r % 400 = 100 * century + 4 * leapCycle + year := by omega
  rw [Date.marchStart, cycles, rest, fourth, hundredth]
  omega

/-- Each count of days falls into a year that begins in March. -/
theorem ofDays_eq_ofMarch (z : Int) :
    ∃ year day, ofDays z = ofMarch year day ∧ marchStart year + day = z ∧ 0 ≤ day ∧
      (day ≤ 364 ∨ day = 365 ∧ isLeap (year + 1) = true) := by
  obtain ⟨cycle, century, leapCycle, year, day, h⟩ := exists_parts (z + 719468)
  have start := h.marchStart
  refine ⟨_, day, h.ofDays, by omega, h.day_le.1, ?_⟩
  obtain ⟨hc, hl, hy, hd, -⟩ := h
  rcases hd.2 with short | ⟨last, h⟩
  · exact .inl short
  · exact .inr ⟨last, by rw [isLeap_iff]; omega⟩

/-- The day of each count is a day of its month. -/
theorem valid_ofDays (z : Int) : (ofDays z).Valid := by
  obtain ⟨year, day, same, -, first, last⟩ := ofDays_eq_ofMarch z
  rw [same]
  exact valid_ofMarch first last

/-- The count of the date of a count is that count. -/
theorem toDays_ofDays (z : Int) : (ofDays z).toDays = z := by
  obtain ⟨year, day, same, start, first, last⟩ := ofDays_eq_ofMarch z
  rw [same, toDays_ofMarch (by omega), start]

/-- The years of the days whose nanoseconds a machine word counts. -/
theorem year_ofDays_word {z : Int} (h₀ : -106752 ≤ z) (h₁ : z ≤ 106751) :
    1677 ≤ (ofDays z).year ∧ (ofDays z).year ≤ 2262 := by
  obtain ⟨year, day, same, start, first, last⟩ := ofDays_eq_ofMarch z
  have years : 1677 ≤ year ∧ (year < 2262 ∨ year = 2262) := by
    unfold marchStart at start
    omega
  rw [same]
  simp only [ofMarch]
  rcases years with ⟨least, before | rfl⟩
  · split <;> omega
  -- the last of these days is in April, before the year changes
  · have spring : day ≤ 60 := by
      unfold marchStart at start
      omega
    rw [if_pos (by omega)]
    omega

/-! ## The next date -/

/-- A year that begins in March ends with the February of the next one. -/
theorem marchStart_eq (year : Int) :
    marchStart year = marchStart (year - 1) + 365 + if isLeap year = true then 1 else 0 := by
  have leap := isLeap_iff year
  unfold marchStart
  by_cases first : year % 400 = 0
  · have cycles : (year - 1) / 400 = year / 400 - 1 := by omega
    have last : (year - 1) % 400 = 399 := by omega
    rw [first, cycles, last, if_pos (leap.2 (by omega))]
    omega
  · have cycles : (year - 1) / 400 = year / 400 := by omega
    have before : (year - 1) % 400 = year % 400 - 1 := by omega
    rw [cycles, before]
    split
    · next h =>
      have := leap.1 h
      omega
    · next h =>
      have : ¬ (year % 4 = 0 ∧ (year % 100 ≠ 0 ∨ year % 400 = 0)) := fun hy => h (leap.2 hy)
      omega

theorem toDays_eq (year month day : Int) :
    toDays ⟨year, month, day⟩ =
      if 2 < month then marchStart year + (153 * (month - 3) + 2) / 5 + day - 1
      else marchStart (year - 1) + (153 * (month + 9) + 2) / 5 + day - 1 := by
  simp only [toDays, marchStart]
  by_cases late : 2 < month
  · have : ¬ month ≤ 2 := by omega
    simp only [late, this, if_true, if_false]
    omega
  · have : month ≤ 2 := by omega
    simp only [late, this, if_true, if_false]
    omega

/-- The first day of a month comes after the last one of the month before. -/
theorem toDays_month {year month : Int} (h : 1 ≤ month ∧ month < 12) :
    toDays ⟨year, month + 1, 1⟩ = toDays ⟨year, month, daysInMonth year month⟩ + 1 := by
  have months : month = 1 ∨ month = 2 ∨ 3 ≤ month := by omega
  rcases months with rfl | rfl | march
  · simp only [toDays_eq, daysInMonth_january, Int.reduceAdd, Int.reduceLT, if_false]
    omega
  · have begins := marchStart_eq year
    simp only [toDays_eq, daysInMonth_february]
    split at begins
    · next leap =>
      simp only [leap, Int.reduceAdd, Int.reduceLT, Int.lt_irrefl, if_true, if_false]
      omega
    · next leap =>
      simp only [leap, Bool.false_eq_true, Int.reduceAdd, Int.reduceLT, Int.lt_irrefl, if_true,
        if_false]
      omega
  · have length := daysInMonth_of_march year ⟨march, by omega⟩
    rw [toDays_eq, toDays_eq, length, if_pos (by omega), if_pos (by omega)]
    omega

theorem toDays_next {d : Date} (h : d.Valid) : d.next.toDays = d.toDays + 1 := by
  obtain ⟨year, month, day⟩ := d
  obtain ⟨h₁, h₂, h₃, h₄⟩ := h
  simp only at h₁ h₂ h₃ h₄
  simp only [next]
  split
  · simp only [toDays_eq]
    split <;> omega
  · next last =>
    have same : day = daysInMonth year month := by omega
    split
    · rw [toDays_month (by omega), same]
    · have december : month = 12 := by omega
      rw [same, december]
      simp only [toDays_eq, daysInMonth, Int.reduceLT, Int.reduceEq, Int.add_sub_cancel, or_self,
        if_true, if_false]
      omega

theorem daysInMonth_bounds (year month : Int) :
    1 ≤ daysInMonth year month ∧ daysInMonth year month ≤ 31 := by
  unfold daysInMonth
  split
  · split <;> decide
  · split <;> decide

theorem Valid.next {d : Date} (h : d.Valid) : d.next.Valid := by
  obtain ⟨h₁, h₂, h₃, h₄⟩ := h
  unfold Date.next
  split
  · exact (valid_iff ..).2 ⟨h₁, h₂, by omega, by omega⟩
  · split
    · exact (valid_iff ..).2 ⟨by omega, by omega, by omega, (daysInMonth_bounds ..).1⟩
    · exact (valid_iff ..).2 ⟨by omega, by omega, by omega, (daysInMonth_bounds ..).1⟩

/-- Every date is a day of a year that begins in March. -/
theorem Valid.exists_ofMarch {d : Date} (h : d.Valid) :
    ∃ year day, 0 ≤ day ∧ (day ≤ 364 ∨ day = 365 ∧ isLeap (year + 1) = true) ∧
      d = ofMarch year day := by
  obtain ⟨year, month, day⟩ := d
  obtain ⟨h₁, h₂, h₃, h₄⟩ := (valid_iff ..).1 h
  have months : month = 2 ∨ month = 1 ∨ 3 ≤ month := by omega
  rcases months with rfl | rfl | march
  · have same : year - 1 + 1 = year := by omega
    have last : day + 336 ≤ 364 ∨ day + 336 = 365 ∧ isLeap (year - 1 + 1) = true := by
      rw [daysInMonth_february] at h₄
      split at h₄
      · next leap =>
        rw [same]
        rcases Int.lt_or_le day 29 with short | long
        · exact .inl (by omega)
        · exact .inr ⟨by omega, leap⟩
      · exact .inl (by omega)
    have short : day ≤ 29 := by
      rcases last with short | ⟨long, -⟩ <;> omega
    refine ⟨year - 1, day + 336, by omega, last, ?_⟩
    have february : (5 * (day + 336) + 2) / 153 = 11 := by omega
    simp only [ofMarch, february, same, Int.reduceLT, if_false, mk.injEq, true_and]
    omega
  · rw [daysInMonth_january] at h₄
    refine ⟨year - 1, day + 305, by omega, by omega, ?_⟩
    have january : (5 * (day + 305) + 2) / 153 = 10 := by omega
    simp only [ofMarch, january, Int.lt_irrefl, if_false, mk.injEq]
    omega
  · have length := daysInMonth_of_march year ⟨march, h₂⟩
    refine ⟨year, (153 * (month - 3) + 2) / 5 + day - 1, by omega, by omega, ?_⟩
    have fromMarch : (5 * ((153 * (month - 3) + 2) / 5 + day - 1) + 2) / 153 = month - 3 := by omega
    have before : month - 3 < 10 := by omega
    simp only [ofMarch, fromMarch, before, if_true, mk.injEq, true_and]
    omega

theorem ofDays_ofMarch {year day : Int} (h₀ : 0 ≤ day)
    (h₁ : day ≤ 364 ∨ day = 365 ∧ isLeap (year + 1) = true) :
    ofDays (ofMarch year day).toDays = ofMarch year day := by
  rw [toDays_ofMarch (by omega)]
  have parts : Parts (marchStart year + day + 719468) (year / 400) (year % 400 / 100)
      (year % 100 / 4) (year % 4) day := by
    refine ⟨by omega, by omega, by omega, ⟨h₀, ?_⟩, ?_⟩
    · rcases h₁ with h₁ | ⟨last, leap⟩
      · exact .inl h₁
      · rw [isLeap_iff] at leap
        exact .inr ⟨last, by omega, by omega⟩
    · unfold marchStart
      omega
  rw [parts.ofDays]
  have sum : 400 * (year / 400) + 100 * (year % 400 / 100) + 4 * (year % 100 / 4) + year % 4 =
    year := by omega
  rw [sum]

/-- The date of the count of a date is that date. -/
theorem ofDays_toDays {d : Date} (h : d.Valid) : ofDays d.toDays = d := by
  obtain ⟨year, day, h₀, h₁, rfl⟩ := h.exists_ofMarch
  exact ofDays_ofMarch h₀ h₁

/-- One day later it is the next date. -/
theorem ofDays_add_one (z : Int) : ofDays (z + 1) = (ofDays z).next := by
  have valid := valid_ofDays z
  have counted := toDays_next valid
  rw [toDays_ofDays] at counted
  rw [← counted, ofDays_toDays valid.next]

end Date

end RequestFlow
