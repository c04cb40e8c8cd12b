import RequestFlow.Calendar
import RequestFlow.FixedWidth

/-!
# HTTP dates

The fixed-length date of HTTP, `Sun, 06 Nov 1994 08:49:37 GMT`.  Instants are nanoseconds since
1 January 1970; they are cut to whole seconds toward zero, and only then is the day taken.

    (httpDate ns).length = httpDateLength                       (length_httpDate)
-/

namespace RequestFlow

/-! ## Algorithm -/

def httpDateLength : Nat := 29

def weekdayNames : List Bytes :=
  [text "Sun", text "Mon", text "Tue", text "Wed", text "Thu", text "Fri", text "Sat"]

def monthNames : List Bytes :=
  [text "Jan", text "Feb", text "Mar", text "Apr", text "May", text "Jun",
   text "Jul", text "Aug", text "Sep", text "Oct", text "Nov", text "Dec"]

/-- The name of a day counted from Sunday. -/
def weekdayName (weekday : Nat) : Bytes := weekdayNames.getD (weekday % 7) []

/-- The name of a month counted from one. -/
def monthName (month : Int) : Bytes := monthNames.getD ((month - 1) % 12).toNat []

/-- Whole seconds of an instant, toward zero. -/
def wholeSeconds (nanoseconds : Int) : Int := nanoseconds.tdiv 1000000000

/-- The date written for a count of seconds. -/
def httpDateOfSeconds (seconds : Int) : Bytes :=
  let day := seconds / 86400
  let inDay := seconds % 86400
  let date := Date.ofDays day
  weekdayName (Date.weekday day) ++ text ", " ++ FixedWidth.two date.day ++ text " " ++
    monthName date.month ++ text " " ++ FixedWidth.four date.year ++ text " " ++
    FixedWidth.two (inDay / 3600) ++ text ":" ++ FixedWidth.two (inDay / 60 % 60) ++ text ":" ++
    FixedWidth.two (inDay % 60) ++ text " GMT"

def httpDate (nanoseconds : Int) : Bytes := httpDateOfSeconds (wholeSeconds nanoseconds)

/-! ## Lemmas -/

theorem length_weekdayName (n : Nat) : (weekdayName n).length = 3 := by
  have all : ∀ i, i < 7 → (weekdayNames.getD i []).length = 3 := by decide
  exact all _ (Nat.mod_lt _ (by decide))

theorem length_monthName (month : Int) : (monthName month).length = 3 := by
  have all : ∀ i, i < 12 → (monthNames.getD i []).length = 3 := by decide
  exact all _ (by omega)

theorem length_httpDate (nanoseconds : Int) :
    (httpDate nanoseconds).length = httpDateLength := by
  have h₁ : (text ", ").length = 2 := by decide
  have h₂ : (text " ").length = 1 := by decide
  have h₃ : (text ":").length = 1 := by decide
  have h₄ : (text " GMT").length = 4 := by decide
  simp [httpDate, httpDateOfSeconds, length_weekdayName, length_monthName, FixedWidth.two, FixedWidth.four,
    h₁, h₂, h₃, h₄, httpDateLength]

end RequestFlow
