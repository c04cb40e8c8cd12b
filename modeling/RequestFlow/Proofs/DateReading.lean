import RequestFlow.HttpDate
import RequestFlow.Proofs.CivilDays
import RequestFlow.Proofs.Validators

/-!
# Reading a date back

The text of an HTTP date tells an instant to the second.  A stamp is what it says: the name of the
day, the date and the time.  Reading takes the texts of good stamps and no others, so the written
form of a stamp is its only one; and what is read from the date of an instant in a machine word
counts to the whole seconds of that instant.

    reading accepts the written forms of good stamps                          (read?_eq_some_iff)
    the date of an instant is a good stamp of its whole seconds               (httpDate_reads_back)
-/

namespace RequestFlow

/-- What a date text says.  Days of the week are counted from Sunday, which is day zero. -/
structure Stamp where
  weekday : Nat
  date : Date
  hour : Int
  minute : Int
  second : Int
  deriving DecidableEq, Repr

namespace Stamp

/-! ## Algorithm -/

/-- The date is one of the calendar with a year of four digits, the day of the week is that of the
date, and the time is one of a day. -/
structure Good (s : Stamp) : Prop where
  date : s.date.Valid
  year : 0 ≤ s.date.year ∧ s.date.year < 10000
  weekday : s.weekday = Date.weekday s.date.toDays
  hour : 0 ≤ s.hour ∧ s.hour < 24
  minute : 0 ≤ s.minute ∧ s.minute < 60
  second : 0 ≤ s.second ∧ s.second < 60

/-- The fixed form of a date, with two digits for the day and the time and four for the year. -/
def write (s : Stamp) : Bytes :=
  weekdayName s.weekday ++ text ", " ++ FixedWidth.two s.date.day ++ text " " ++
    monthName s.date.month ++ text " " ++ FixedWidth.four s.date.year ++ text " " ++
    FixedWidth.two s.hour ++ text ":" ++ FixedWidth.two s.minute ++ text ":" ++
    FixedWidth.two s.second ++ text " GMT"

/-- Seconds from 1 January 1970 to the stamp. -/
def seconds (s : Stamp) : Int :=
  s.date.toDays * 86400 + s.hour * 3600 + s.minute * 60 + s.second

/-- The bytes at a place of the text. -/
def field (a : Bytes) (start length : Nat) : Bytes := (a.drop start).take length

def number (a : Bytes) (start length : Nat) : Int := FixedWidth.fieldValue (field a start length)

/-- What the fields of a text say, if its names are names of a day and a month. -/
def fields? (a : Bytes) : Option Stamp :=
  match weekdayNames.idxOf? (field a 0 3), monthNames.idxOf? (field a 8 3) with
  | some weekday, some month =>
    some ⟨weekday, ⟨number a 12 4, month + 1, number a 5 2⟩, number a 17 2, number a 20 2,
      number a 23 2⟩
  | _, _ => none

instance (s : Stamp) : Decidable s.Good :=
  decidable_of_iff (s.date.Valid ∧ (0 ≤ s.date.year ∧ s.date.year < 10000) ∧
      s.weekday = Date.weekday s.date.toDays ∧ (0 ≤ s.hour ∧ s.hour < 24) ∧
      (0 ≤ s.minute ∧ s.minute < 60) ∧ (0 ≤ s.second ∧ s.second < 60))
    ⟨fun ⟨a, b, c, d, e, f⟩ => ⟨a, b, c, d, e, f⟩, fun ⟨a, b, c, d, e, f⟩ => ⟨a, b, c, d, e, f⟩⟩

/-- Reads a date; the text must be the form of a good stamp to the letter. -/
def read? (a : Bytes) : Option Stamp :=
  (fields? a).filter fun s => decide (s.Good ∧ s.write = a)

/-- The stamp of a count of seconds. -/
def ofSeconds (seconds : Int) : Stamp :=
  ⟨Date.weekday (seconds / 86400), Date.ofDays (seconds / 86400), seconds % 86400 / 3600,
    seconds % 86400 / 60 % 60, seconds % 86400 % 60⟩

/-! ## Names and numbers -/

theorem length_eq_three {a : Bytes} (h : a.length = 3) : ∃ x y z, a = [x, y, z] := by
  match a, h with
  | [x, y, z], _ => exact ⟨x, y, z, rfl⟩

theorem idxOf?_weekdayName {n : Nat} (h : n < 7) : weekdayNames.idxOf? (weekdayName n) = some n := by
  have all : ∀ n, n < 7 → weekdayNames.idxOf? (weekdayName n) = some n := by decide +kernel
  exact all n h

theorem idxOf?_monthName {month : Int} (h₀ : 1 ≤ month) (h₁ : month ≤ 12) :
    ∃ i : Nat, monthNames.idxOf? (monthName month) = some i ∧ (i : Int) + 1 = month := by
  have all : ∀ i : Nat, i < 12 → monthNames.idxOf? (monthName (i + 1)) = some i := by decide +kernel
  obtain ⟨i, rfl⟩ : ∃ i : Nat, month = i + 1 := ⟨(month - 1).toNat, by omega⟩
  exact ⟨i, all i (by omega), rfl⟩

theorem fieldValue_two {n : Int} (h₀ : 0 ≤ n) (h₁ : n < 100) :
    (FixedWidth.fieldValue (FixedWidth.two n) : Int) = n := by
  obtain ⟨k, rfl⟩ := Int.eq_ofNat_of_zero_le h₀
  rw [FixedWidth.fieldValue_two (by omega)]

theorem fieldValue_four {n : Int} (h₀ : 0 ≤ n) (h₁ : n < 10000) :
    (FixedWidth.fieldValue (FixedWidth.four n) : Int) = n := by
  obtain ⟨k, rfl⟩ := Int.eq_ofNat_of_zero_le h₀
  rw [FixedWidth.fieldValue_four (by omega)]

/-! ## Reading -/

/-- Each field of a written stamp stands at its place. -/
theorem fields_write (s : Stamp) :
    field s.write 0 3 = weekdayName s.weekday ∧ field s.write 8 3 = monthName s.date.month ∧
      field s.write 12 4 = FixedWidth.four s.date.year ∧
      field s.write 5 2 = FixedWidth.two s.date.day ∧
      field s.write 17 2 = FixedWidth.two s.hour ∧ field s.write 20 2 = FixedWidth.two s.minute ∧
      field s.write 23 2 = FixedWidth.two s.second := by
  obtain ⟨a, b, c, weekday⟩ := length_eq_three (length_weekdayName s.weekday)
  obtain ⟨d, e, f, month⟩ := length_eq_three (length_monthName s.date.month)
  have comma : text ", " = [44, 32] := by decide
  have space : text " " = [32] := by decide
  have colon : text ":" = [58] := by decide
  simp only [write, weekday, month, comma, space, colon, FixedWidth.two, FixedWidth.four,
    List.cons_append, List.nil_append]
  exact ⟨rfl, rfl, rfl, rfl, rfl, rfl, rfl⟩

/-- The fields of a good stamp say what was written. -/
theorem fields?_write {s : Stamp} (h : s.Good) : fields? s.write = some s := by
  obtain ⟨weekday, month, year, day, hour, minute, second⟩ := fields_write s
  obtain ⟨first, last, begin', end'⟩ := h.date
  have short : s.date.day < 100 := by
    have := Date.daysInMonth_bounds s.date.year s.date.month
    omega
  have ofWeek : s.weekday < 7 := by
    rw [h.weekday, Date.weekday]
    omega
  obtain ⟨i, named, number⟩ := idxOf?_monthName first last
  rw [fields?, weekday, month, idxOf?_weekdayName ofWeek, named]
  simp only [Stamp.number, year, day, hour, minute, second, number,
    fieldValue_four h.year.1 h.year.2, fieldValue_two (n := s.date.day) (by omega) short,
    fieldValue_two h.hour.1 (Int.lt_trans h.hour.2 (by decide)),
    fieldValue_two h.minute.1 (Int.lt_trans h.minute.2 (by decide)),
    fieldValue_two h.second.1 (Int.lt_trans h.second.2 (by decide))]

/-- Reading takes the forms of good stamps, and nothing else. -/
theorem read?_eq_some_iff {a : Bytes} {s : Stamp} : read? a = some s ↔ s.Good ∧ a = s.write := by
  simp only [read?, Option.filter_eq_some_iff, decide_eq_true_eq]
  constructor
  · rintro ⟨-, good, written⟩
    exact ⟨good, written.symm⟩
  · rintro ⟨good, rfl⟩
    exact ⟨fields?_write good, good, rfl⟩

/-! ## Instants -/

theorem good_ofSeconds {seconds : Int} (h₀ : -9223372036 ≤ seconds) (h₁ : seconds ≤ 9223372036) :
    (ofSeconds seconds).Good := by
  have year := Date.year_ofDays_word (z := seconds / 86400) (by omega) (by omega)
  refine ⟨Date.valid_ofDays _, ?_, ?_, ?_, ?_, ?_⟩
  · simp only [ofSeconds]
    omega
  · simp only [ofSeconds, Date.toDays_ofDays]
  · simp only [ofSeconds]
    omega
  · simp only [ofSeconds]
    omega
  · simp only [ofSeconds]
    omega

theorem seconds_ofSeconds (seconds : Int) : (ofSeconds seconds).seconds = seconds := by
  simp only [Stamp.seconds, ofSeconds, Date.toDays_ofDays]
  omega

theorem httpDate_eq_write (nanoseconds : Int) :
    httpDate nanoseconds = (ofSeconds (wholeSeconds nanoseconds)).write := rfl

end Stamp

/-! ## Result -/

/-- **Dates read back.** The calendar begins on 1 January 1970 and goes on by its rules.  The date
text of an instant in a machine word has 29 bytes and is the form of a good stamp, which reading finds
in it; the stamp is of the years 1677 to 2262, and as many seconds from the beginning as the instant,
cut toward zero, has whole ones.  So two instants have one date text exactly if they have the same
whole seconds. -/
theorem httpDate_reads_back :
    (Date.ofDays 0 = ⟨1970, 1, 1⟩ ∧ Date.weekday 0 = 4 ∧ ∀ z,
      Date.ofDays (z + 1) = (Date.ofDays z).next ∧ (Date.ofDays z).toDays = z ∧
      Date.weekday (z + 1) = (Date.weekday z + 1) % 7) ∧
    (∀ nanoseconds, Word.Holds nanoseconds → (httpDate nanoseconds).length = 29 ∧
      ∃ s : Stamp, s.Good ∧ httpDate nanoseconds = s.write ∧
        Stamp.read? (httpDate nanoseconds) = some s ∧
        (1677 ≤ s.date.year ∧ s.date.year ≤ 2262) ∧ s.seconds = nanoseconds.tdiv 1000000000) ∧
    ∀ a b, Word.Holds a → Word.Holds b →
      (httpDate a = httpDate b ↔ a.tdiv 1000000000 = b.tdiv 1000000000) := by
  have told (nanoseconds : Int) (h : Word.Holds nanoseconds) :
      Stamp.read? (httpDate nanoseconds) = some (.ofSeconds (wholeSeconds nanoseconds)) := by
    have seconds := wholeSeconds_bounds h
    exact Stamp.read?_eq_some_iff.2
      ⟨Stamp.good_ofSeconds seconds.1 seconds.2, Stamp.httpDate_eq_write nanoseconds⟩
  refine ⟨⟨by decide, by decide, ?_⟩, ?_, ?_⟩
  · intro z
    refine ⟨Date.ofDays_add_one z, Date.toDays_ofDays z, ?_⟩
    unfold Date.weekday
    omega
  · intro nanoseconds h
    obtain ⟨good, written⟩ := Stamp.read?_eq_some_iff.1 (told nanoseconds h)
    have seconds := wholeSeconds_bounds h
    have years := Date.year_ofDays_word (z := wholeSeconds nanoseconds / 86400) (by omega) (by omega)
    exact ⟨length_httpDate nanoseconds, _, good, written, told nanoseconds h, years,
      Stamp.seconds_ofSeconds _⟩
  · intro a b ha hb
    constructor
    · intro same
      have stamps := told a ha
      rw [same, told b hb] at stamps
      have counted := congrArg Stamp.seconds (Option.some.inj stamps)
      rw [Stamp.seconds_ofSeconds, Stamp.seconds_ofSeconds] at counted
      exact counted.symm
    · intro same
      exact congrArg httpDateOfSeconds same

/-- The first instant of a machine word is a Tuesday of 1677, and the last second before 1970 is
written as the first of it. -/
theorem httpDate_reads_back_leastWord :
    (∃ s : Stamp, s.Good ∧ httpDate (-9223372036854775808) = s.write ∧
      httpDate (-9223372036854775808) = text "Tue, 21 Sep 1677 00:12:44 GMT" ∧
      s.seconds = -9223372036) ∧
    httpDate (-999999999) = httpDate 0 := by
  obtain ⟨-, each, same⟩ := httpDate_reads_back
  obtain ⟨-, s, good, written, -, -, seconds⟩ := each (-9223372036854775808) (by decide)
  refine ⟨⟨s, good, written, by decide, ?_⟩, ?_⟩
  · rw [seconds]
    decide
  · exact (same (-999999999) 0 (by decide) (by decide)).2 (by decide)

end RequestFlow
