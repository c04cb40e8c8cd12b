import RequestFlow.CacheEntry
import RequestFlow.Word

/-!
# The headers of a validator

A cached response is confirmed by two header fields, made of its entity tag and of its date.  The tag
is any text that a server sent, the date is written by the library and always a good value.  So the
fields can be made exactly if the tag keeps to the bytes of a value, and they break no line.

    the date of any instant in a machine word is a value                (isValue_httpDate)
    the headers are no headers exactly if the tag has a bad byte        (conditionalHeaders_error_iff)
    they are the trimmed tag and the date, where there are such         (conditionalHeaders_fields)
-/

namespace RequestFlow

/-- The byte may not be in a value: it is no tab, not printable, and not above ASCII. -/
def IsBadByte (b : UInt8) : Prop := b ≠ 9 ∧ ¬ (32 ≤ b ∧ b ≤ 126) ∧ b < 128

/-- Name and value of each field that confirms the entry. -/
def CacheEntry.fields (e : CacheEntry) : List (Bytes × Bytes) :=
  (if e.etag = [] then [] else [(text "If-None-Match", trim e.etag)]) ++
    if e.lastModified = 0 then [] else [(text "If-Modified-Since", httpDate e.lastModified)]

/-! ## Bytes of values -/

theorem isBadByte_iff (b : UInt8) : IsBadByte b ↔ isValueByte b = false := by
  simp only [IsBadByte, isValueByte, Bool.or_eq_false_iff, beq_eq_false_iff_ne, Bool.and_eq_false_iff,
    decide_eq_false_iff_not, UInt8.not_le]
  constructor
  · rintro ⟨tab, printable, ascii⟩
    refine ⟨⟨tab, ?_⟩, ascii⟩
    by_cases low : 32 ≤ b
    · exact .inr (UInt8.not_le.1 fun high => printable ⟨low, high⟩)
    · exact .inl (UInt8.not_le.1 low)
  · rintro ⟨⟨tab, outside⟩, ascii⟩
    refine ⟨tab, ?_, ascii⟩
    rintro ⟨low, high⟩
    rcases outside with below | above
    · exact UInt8.not_le.2 below low
    · exact UInt8.not_le.2 above high

theorem isValueByte_of_isBlank {b : UInt8} (h : isBlank b = true) : isValueByte b = true := by
  simp only [isBlank, Bool.or_eq_true, beq_iff_eq] at h
  rcases h with rfl | rfl <;> rfl

theorem isValue_dropWhile (v : Bytes) : isValue (v.dropWhile isBlank) = isValue v := by
  induction v with
  | nil => rfl
  | cons b v ih =>
    by_cases blank : isBlank b = true
    · rw [List.dropWhile_cons_of_pos blank, ih]
      simp [isValue, isValueByte_of_isBlank blank]
    · rw [List.dropWhile_cons_of_neg blank]

theorem isValue_reverse (v : Bytes) : isValue v.reverse = isValue v := by
  simp [isValue]

/-- Trimming takes away no byte that would be refused. -/
theorem isValue_trim (v : Bytes) : isValue (trim v) = isValue v := by
  rw [trim, isValue_reverse, isValue_dropWhile, isValue_reverse, isValue_dropWhile]

theorem isValue_append (a b : Bytes) : isValue (a ++ b) = (isValue a && isValue b) := by
  simp [isValue]

theorem isValueByte_of_isTokenByte {b : UInt8} (h : isTokenByte b = true) : isValueByte b = true :=
  Bytes.forall_byte (P := fun b => isTokenByte b = true → isValueByte b = true)
    (by decide +kernel) b h

/-- Every byte of a header field may be in a value. -/
theorem Header.isValue_raw (h : Header) : isValue h.raw = true := by
  have name : isValue h.name = true := by
    have valid := h.name_valid
    simp only [isName, Bool.and_eq_true, List.all_eq_true] at valid
    exact List.all_eq_true.2 fun b hb => isValueByte_of_isTokenByte (valid.2 b hb)
  have separator : isValue (text ": ") = true := by decide
  rw [raw, isValue_append, isValue_append, name, separator, h.value_valid]
  rfl

/-- A header field breaks no line and ends no string. -/
theorem Header.raw_unbroken (h : Header) : ∀ b ∈ h.raw, b ≠ 13 ∧ b ≠ 10 ∧ b ≠ 0 := by
  intro b hb
  have sound := List.all_eq_true.1 h.isValue_raw b hb
  refine ⟨?_, ?_, ?_⟩ <;>
  · rintro rfl
    revert sound
    decide

/-! ## Dates -/

theorem isValue_digit {d : Int} (h₀ : 0 ≤ d) (h₁ : d < 10) :
    isValueByte (FixedWidth.digit d) = true := by
  have code := FixedWidth.digit_toNat h₀ h₁
  have low : 32 ≤ FixedWidth.digit d := by
    rw [UInt8.le_iff_toNat_le, code]
    simp
    omega
  have high : FixedWidth.digit d ≤ 126 := by
    rw [UInt8.le_iff_toNat_le, code]
    simp
    omega
  simp [isValueByte, low, high]

theorem isValue_two {n : Int} (h₀ : 0 ≤ n) (h₁ : n < 100) : isValue (FixedWidth.two n) = true := by
  have tens := isValue_digit (d := n.tdiv 10) (Int.tdiv_nonneg h₀ (by decide))
    (by rw [Int.tdiv_eq_ediv_of_nonneg h₀]; omega)
  have ones := isValue_digit (d := n.tmod 10) (Int.tmod_nonneg 10 h₀)
    (Int.tmod_lt_of_pos n (by decide))
  simp [FixedWidth.two, isValue, tens, ones]

theorem isValue_four {n : Int} (h₀ : 0 ≤ n) (h₁ : n < 10000) : isValue (FixedWidth.four n) = true := by
  have last (k : Int) (hk : 0 ≤ k) : isValueByte (FixedWidth.digit (k.tmod 10)) = true :=
    isValue_digit (Int.tmod_nonneg 10 hk) (Int.tmod_lt_of_pos k (by decide))
  have first := isValue_digit (d := n.tdiv 1000) (Int.tdiv_nonneg h₀ (by decide))
    (by rw [Int.tdiv_eq_ediv_of_nonneg h₀]; omega)
  have second := last (n.tdiv 100) (Int.tdiv_nonneg h₀ (by decide))
  have third := last (n.tdiv 10) (Int.tdiv_nonneg h₀ (by decide))
  simp [FixedWidth.four, isValue, first, second, third, last n h₀]

theorem isValue_weekdayName (n : Nat) : isValue (weekdayName n) = true := by
  have all : ∀ i, i < 7 → isValue (weekdayNames.getD i []) = true := by decide
  exact all _ (Nat.mod_lt _ (by decide))

theorem isValue_monthName (month : Int) : isValue (monthName month) = true := by
  have all : ∀ i, i < 12 → isValue (monthNames.getD i []) = true := by decide
  exact all _ (by omega)

/-- A machine word of nanoseconds is less than three hundred years. -/
theorem wholeSeconds_bounds {nanoseconds : Int} (h : Word.Holds nanoseconds) :
    -9223372036 ≤ wholeSeconds nanoseconds ∧ wholeSeconds nanoseconds ≤ 9223372036 := by
  obtain ⟨least, most⟩ := h
  simp only [Word.bound] at least most
  unfold wholeSeconds
  rcases Int.le_total 0 nanoseconds with after | before
  · rw [Int.tdiv_eq_ediv_of_nonneg after]
    omega
  · obtain ⟨ago, rfl⟩ : ∃ ago, nanoseconds = -ago := ⟨-nanoseconds, by omega⟩
    rw [Int.neg_tdiv, Int.tdiv_eq_ediv_of_nonneg (by omega)]
    omega

/-- The date of an instant in a machine word is a good value. -/
theorem isValue_httpDate {nanoseconds : Int} (h : Word.Holds nanoseconds) :
    isValue (httpDate nanoseconds) = true := by
  have seconds := wholeSeconds_bounds h
  have day := Date.day_ofDays (wholeSeconds nanoseconds / 86400)
  have year := Date.year_ofDays (z := wholeSeconds nanoseconds / 86400) (by omega) (by omega)
  have dayField := isValue_two (n := (Date.ofDays (wholeSeconds nanoseconds / 86400)).day)
    (by omega) (by omega)
  have yearField := isValue_four (n := (Date.ofDays (wholeSeconds nanoseconds / 86400)).year)
    (by omega) (by omega)
  have hour := isValue_two (n := wholeSeconds nanoseconds % 86400 / 3600) (by omega) (by omega)
  have minute := isValue_two (n := wholeSeconds nanoseconds % 86400 / 60 % 60) (by omega) (by omega)
  have second := isValue_two (n := wholeSeconds nanoseconds % 86400 % 60) (by omega) (by omega)
  have marks : isValue (text ", ") = true ∧ isValue (text " ") = true ∧ isValue (text ":") = true ∧
      isValue (text " GMT") = true := by decide
  simp only [httpDate, httpDateOfSeconds, isValue_append, isValue_weekdayName, isValue_monthName,
    dayField, yearField, hour, minute, second, marks, Bool.and_self]

/-- Nothing is trimmed off a text that begins and ends with no blank. -/
theorem trim_eq_self {v : Bytes} (front : ∀ b, v.head? = some b → isBlank b = false)
    (back : ∀ b, v.reverse.head? = some b → isBlank b = false) : trim v = v := by
  rw [trim, dropWhile_eq_self front, dropWhile_eq_self back, List.reverse_reverse]

theorem trim_httpDate (nanoseconds : Int) : trim (httpDate nanoseconds) = httpDate nanoseconds := by
  have letters : ∀ i, i < 7 → ∃ b rest, weekdayNames.getD i [] = b :: rest ∧ isBlank b = false := by
    intro i hi
    have first : ((weekdayNames.getD i []).head?.map isBlank) = some false := by
      revert i
      decide
    cases name : weekdayNames.getD i [] with
    | nil =>
      rw [name] at first
      cases first
    | cons b rest =>
      rw [name] at first
      exact ⟨b, rest, rfl, by simpa using first⟩
  obtain ⟨b, rest, name, letter⟩ :=
    letters (Date.weekday (wholeSeconds nanoseconds / 86400) % 7) (Nat.mod_lt _ (by decide))
  have gmt : text " GMT" = [32, 71, 77, 84] := by decide
  refine trim_eq_self ?_ ?_
  · intro x hx
    simp only [httpDate, httpDateOfSeconds, weekdayName, name, List.cons_append, List.head?_cons,
      Option.some.injEq] at hx
    rw [← hx]
    exact letter
  · intro x hx
    simp only [httpDate, httpDateOfSeconds, gmt, List.reverse_append, List.reverse_cons,
      List.reverse_nil, List.nil_append, List.cons_append, List.head?_cons, Option.some.injEq] at hx
    rw [← hx]
    decide

/-! ## Headers -/

namespace CacheEntry

variable {e : CacheEntry}

/-- Making one header, with what it comes to. -/
theorem map_ofPair (name value : Bytes) (valid : isName name = true) :
    (isValue value = false ∧
        (Header.ofPair name value).map (fun h => [h]) = .error .headerValue) ∨
      isValue value = true ∧ ∃ h, (Header.ofPair name value).map (fun h => [h]) = .ok [h] ∧
        h.name = name ∧ h.value = trim value := by
  unfold Header.ofPair
  rw [dif_pos valid]
  cases sound : isValue value with
  | true =>
    rw [dif_pos (by rw [isValue_trim, sound])]
    exact .inr ⟨rfl, _, rfl, rfl, rfl⟩
  | false =>
    rw [dif_neg (by rw [isValue_trim, sound]; decide)]
    exact .inl ⟨rfl, rfl⟩

theorem tagHeaders_cases (e : CacheEntry) :
    (isValue e.etag = false ∧ e.tagHeaders = .error .headerValue) ∨
      isValue e.etag = true ∧ ∃ headers, e.tagHeaders = .ok headers ∧
        headers.map (fun h => (h.name, h.value)) =
          if e.etag = [] then [] else [(text "If-None-Match", trim e.etag)] := by
  unfold tagHeaders
  by_cases empty : e.etag = []
  · refine .inr ⟨by rw [empty]; rfl, [], ?_, ?_⟩
    · simp [empty]
    · simp [empty]
  · have present : e.etag.isEmpty = false := by simpa using empty
    rw [present]
    rcases map_ofPair (text "If-None-Match") e.etag (by decide) with
      refused | ⟨sound, h, made, name, value⟩
    · exact .inl refused
    · exact .inr ⟨sound, [h], made, by simp [empty, name, value]⟩

theorem dateHeaders_ok (h : Word.Holds e.lastModified) :
    ∃ headers, e.dateHeaders = .ok headers ∧ headers.map (fun h => (h.name, h.value)) =
      if e.lastModified = 0 then [] else [(text "If-Modified-Since", httpDate e.lastModified)] := by
  unfold dateHeaders
  by_cases unknown : e.lastModified = 0
  · exact ⟨[], by simp [unknown], by simp [unknown]⟩
  · rw [if_neg unknown]
    rcases map_ofPair (text "If-Modified-Since") (httpDate e.lastModified) (by decide) with
      ⟨refused, -⟩ | ⟨-, h', made, name, value⟩
    · rw [isValue_httpDate h] at refused
      cases refused
    · exact ⟨[h'], made, by simp [unknown, name, value, trim_httpDate]⟩

/-- The headers that confirm an entry are no headers exactly if its tag has a bad byte. -/
theorem conditionalHeaders_error_iff (h : Word.Holds e.lastModified) :
    (∃ f, conditionalHeaders (some e) = .error f) ↔ ∃ b ∈ e.etag, IsBadByte b := by
  have bad : (∃ b ∈ e.etag, IsBadByte b) ↔ isValue e.etag = false := by
    simp only [isBadByte_iff, isValue, List.all_eq_false, Bool.not_eq_true]
  rw [bad, conditionalHeaders]
  obtain ⟨date, made, -⟩ := dateHeaders_ok h
  rcases e.tagHeaders_cases with ⟨refused, tag⟩ | ⟨sound, headers, tag, -⟩
  · simp [tag, refused]
  · simp [tag, made, sound, Except.map]

/-- They are the trimmed tag and then the date, each where the entry has one. -/
theorem conditionalHeaders_fields (h : Word.Holds e.lastModified) {headers : List Header}
    (hh : conditionalHeaders (some e) = .ok headers) :
    headers.map (fun h => (h.name, h.value)) = e.fields := by
  rw [conditionalHeaders] at hh
  obtain ⟨date, made, dateField⟩ := dateHeaders_ok h
  rcases e.tagHeaders_cases with ⟨-, tag⟩ | ⟨-, tags, tag, tagField⟩
  · rw [tag] at hh
    cases hh
  · simp only [tag, made, Except.map, Except.ok.injEq] at hh
    rw [← hh, List.map_append, tagField, dateField, fields]

end CacheEntry

end RequestFlow
