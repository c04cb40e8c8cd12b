/-!
# Calendar days

Days of the proleptic Gregorian calendar, counted from 1 January 1970.  Years are counted from
March, so that the day added in leap years is the last one; four hundred years always have 146097
days (`Date.ofDays`, `Date.toDays`).

    1 ≤ (ofDays z).day ≤ 31                                    (day_ofDays)
    years have four digits around the epoch                    (year_ofDays)
-/

namespace RequestFlow

structure Date where
  year : Int
  month : Int
  day : Int
  deriving DecidableEq, Repr

namespace Date

/-! ## Algorithm -/

/-- The date that lies `z` days after 1 January 1970. -/
def ofDays (z : Int) : Date :=
  let n := z + 719468
  let cycle := n / 146097
  let inCycle := n % 146097
  let yearOfCycle := (inCycle - inCycle / 1460 + inCycle / 36524 - inCycle / 146096) / 365
  let inYear := inCycle - (365 * yearOfCycle + yearOfCycle / 4 - yearOfCycle / 100)
  let monthFromMarch := (5 * inYear + 2) / 153
  let day := inYear - (153 * monthFromMarch + 2) / 5 + 1
  let month := if monthFromMarch < 10 then monthFromMarch + 3 else monthFromMarch - 9
  let year := yearOfCycle + cycle * 400
  ⟨if month ≤ 2 then year + 1 else year, month, day⟩

/-- Days from 1 January 1970 to the date. -/
def toDays (d : Date) : Int :=
  let year := if d.month ≤ 2 then d.year - 1 else d.year
  let cycle := year / 400
  let yearOfCycle := year % 400
  let monthFromMarch := if 2 < d.month then d.month - 3 else d.month + 9
  let inYear := (153 * monthFromMarch + 2) / 5 + d.day - 1
  cycle * 146097 + (yearOfCycle * 365 + yearOfCycle / 4 - yearOfCycle / 100 + inYear) - 719468

/-- Days since the last Sunday, for the day `z` days after 1 January 1970. -/
def weekday (z : Int) : Nat := ((z + 4) % 7).toNat

def isLeap (year : Int) : Bool := year % 4 == 0 && (year % 100 != 0 || year % 400 == 0)

def daysInMonth (year month : Int) : Int :=
  if month = 2 then if isLeap year then 29 else 28
  else if month = 4 ∨ month = 6 ∨ month = 9 ∨ month = 11 then 30 else 31

def Valid (d : Date) : Prop :=
  1 ≤ d.month ∧ d.month ≤ 12 ∧ 1 ≤ d.day ∧ d.day ≤ daysInMonth d.year d.month

instance (d : Date) : Decidable d.Valid := by unfold Valid; infer_instance

/-! ## Lemmas -/

/-- Days are counted from one, and no month has more than thirty-one. -/
theorem day_ofDays (z : Int) : 1 ≤ (ofDays z).day ∧ (ofDays z).day ≤ 31 := by
  simp only [ofDays]
  omega

/-- Three hundred years around the epoch have years of four digits. -/
theorem year_ofDays {z : Int} (h₀ : -106752 ≤ z) (h₁ : z ≤ 106752) :
    1600 ≤ (ofDays z).year ∧ (ofDays z).year ≤ 2500 := by
  simp only [ofDays]
  omega

end Date

end RequestFlow
