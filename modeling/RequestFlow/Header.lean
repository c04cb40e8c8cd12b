import RequestFlow.Fault

/-!
# Header fields

A header field is a name made of token characters and a value of printable text.  A `Header` is
valid by construction: `Header.ofPair` trims the value and refuses a name or a value that breaks
the grammar, looking at the name first.

    ofPair n v = .ok h ↔ isName n ∧ isValue (trim v) ∧ h.name = n ∧ h.value = trim v
                                                               (ofPair_eq_ok_iff)
    ofPair h.name h.value = .ok h                              (ofPair_name_value)
    trim (trim v) = trim v                                     (trim_trim)
-/

namespace RequestFlow

/-! ## Algorithm -/

/-- Optional whitespace around a value: a space or a horizontal tab. -/
def isBlank (b : UInt8) : Bool := b == 32 || b == 9

/-- The marks allowed in a name beside letters and digits. -/
def tokenMarks : Bytes := text "!#$%&'*+-.^_\x60|~"

def isTokenByte (b : UInt8) : Bool :=
  (97 ≤ b && b ≤ 122) || (65 ≤ b && b ≤ 90) || (48 ≤ b && b ≤ 57) || tokenMarks.contains b

/-- A tab, printable ASCII, or a byte above ASCII. -/
def isValueByte (b : UInt8) : Bool := b == 9 || (32 ≤ b && b ≤ 126) || 128 ≤ b

def isName (n : Bytes) : Bool := !n.isEmpty && n.all isTokenByte

def isValue (v : Bytes) : Bool := v.all isValueByte

/-- The value without the blanks at both its ends. -/
def trim (v : Bytes) : Bytes := ((v.dropWhile isBlank).reverse.dropWhile isBlank).reverse

structure Header where
  name : Bytes
  value : Bytes
  name_valid : isName name = true
  value_valid : isValue value = true
  value_trimmed : trim value = value
  deriving DecidableEq, Repr

/-! ## Lemmas on trimming -/

theorem dropWhile_dropWhile (p : UInt8 → Bool) (a : Bytes) :
    (a.dropWhile p).dropWhile p = a.dropWhile p := by
  induction a with
  | nil => rfl
  | cons x xs ih =>
    by_cases h : p x
    · simp [h, ih]
    · simp [h]

theorem head?_dropWhile_not (p : UInt8 → Bool) (a : Bytes) (x : UInt8)
    (h : (a.dropWhile p).head? = some x) : p x = false := by
  induction a with
  | nil => simp at h
  | cons y ys ih =>
    by_cases hy : p y
    · simp only [List.dropWhile_cons, hy, if_true] at h
      exact ih h
    · simp only [List.dropWhile_cons, hy] at h
      simp at h
      subst h
      simpa using hy

theorem dropWhile_eq_self {p : UInt8 → Bool} {a : Bytes}
    (h : ∀ x, a.head? = some x → p x = false) : a.dropWhile p = a := by
  cases a with
  | nil => rfl
  | cons x xs => simp [h x rfl]

/-- Taking bytes off the end leaves the front in place. -/
theorem head?_dropWhile_end {p : UInt8 → Bool} {a : Bytes} {x : UInt8}
    (h : ((a.reverse.dropWhile p).reverse).head? = some x) : a.head? = some x := by
  have hs : (a.reverse.dropWhile p) <:+ a.reverse := List.dropWhile_suffix p
  obtain ⟨t, ht⟩ := hs
  have e : a = (a.reverse.dropWhile p).reverse ++ t.reverse := by
    have := congrArg List.reverse ht
    simpa using this.symm
  rw [e]
  cases hr : (a.reverse.dropWhile p).reverse with
  | nil => rw [hr] at h; simp at h
  | cons y ys => rw [hr] at h; simpa using h

theorem trim_trim (v : Bytes) : trim (trim v) = trim v := by
  have front : (trim v).dropWhile isBlank = trim v := by
    apply dropWhile_eq_self
    intro x hx
    exact head?_dropWhile_not isBlank v x (head?_dropWhile_end hx)
  unfold trim at front ⊢
  rw [front]
  simp [dropWhile_dropWhile]

/-! ## Construction -/

namespace Header

def ofPair (name value : Bytes) : Except Fault Header :=
  if hn : isName name = true then
    if hv : isValue (trim value) = true then
      .ok ⟨name, trim value, hn, hv, trim_trim value⟩
    else .error .headerValue
  else .error .headerName

/-- Headers for a list of pairs; the first invalid pair decides the fault. -/
def ofPairs : List (Bytes × Bytes) → Except Fault (List Header)
  | [] => .ok []
  | (n, v) :: rest =>
    match ofPair n v with
    | .error f => .error f
    | .ok h => (ofPairs rest).map (h :: ·)

/-- The field as it is written on the wire. -/
def raw (h : Header) : Bytes := h.name ++ text ": " ++ h.value

/-- The value of the first field of that name, in any letter case. -/
def find? (headers : List Header) (name : Bytes) : Option Bytes :=
  (headers.find? fun h => Bytes.equalIgnoringCase h.name name).map Header.value

/-! ## Lemmas -/

theorem ofPair_eq_ok_iff (n v : Bytes) (h : Header) :
    ofPair n v = .ok h ↔
      isName n = true ∧ isValue (trim v) = true ∧ h.name = n ∧ h.value = trim v := by
  unfold ofPair
  constructor
  · intro e
    split at e
    · split at e
      · rename_i hn hv
        cases e
        exact ⟨hn, hv, rfl, rfl⟩
      · cases e
    · cases e
  · rintro ⟨hn, hv, h₁, h₂⟩
    rw [dif_pos hn, dif_pos hv]
    congr 1
    cases h
    simp_all

theorem ofPair_name_value (h : Header) : ofPair h.name h.value = .ok h := by
  rw [ofPair_eq_ok_iff]
  refine ⟨h.name_valid, ?_, rfl, h.value_trimmed.symm⟩
  rw [h.value_trimmed]
  exact h.value_valid

end Header

end RequestFlow
