import RequestFlow.Proofs.Validators

/-!
# The grammar of header fields

A pair of texts makes a header exactly if the name is a token and the value has no control byte but
the tab.  The value is looked at after trimming only; but trimming takes blanks, which are good bytes,
so it hides none that would be refused.  A token has no colon: the first colon of a written field ends
its name, and fields that are written the same are the same.  So a header may be kept as one text with
the place of its colon, in 32 bits if the name is short enough.

    a byte is one of a token if it is printable and no delimiter            (isTokenByte_iff)
    trimming keeps what is between the blanks at both ends                  (trims_iff)
    cutting a written field at its first colon gives name and value         (cut_raw)
    fields that are written the same are the same                           (raw_inj)
    one text and the place of its colon tell name and value                 (packed_name, packed_value)
-/

namespace RequestFlow

/-! ## Algorithm -/

/-- The printable marks that end a token. -/
def delimiters : Bytes := text "\"(),/:;<=>?@[\\]\x7b\x7d"

/-- The byte is printable and neither a space nor a delimiter. -/
def IsToken (b : UInt8) : Prop := 33 ≤ b ∧ b ≤ 126 ∧ b ∉ delimiters

instance (b : UInt8) : Decidable (IsToken b) := by unfold IsToken; infer_instance

/-- What is kept of a value: blanks stand before and after it, and it neither begins nor ends with
one. -/
structure Trims (value kept : Bytes) : Prop where
  split : ∃ front back, value = front ++ kept ++ back ∧ ∀ b ∈ front ++ back, b = 32 ∨ b = 9
  first : ∀ b, kept.head? = some b → ¬ (b = 32 ∨ b = 9)
  last : ∀ b, kept.getLast? = some b → ¬ (b = 32 ∨ b = 9)

/-- A text cut at its first colon, without the byte that follows the colon. -/
def cut (raw : Bytes) : Bytes × Bytes :=
  (raw.takeWhile (· != 58), (raw.dropWhile (· != 58)).drop 2)

/-- A header as it may be kept: its written form and the place of the colon. -/
structure PackedHeader where
  raw : Bytes
  colon : UInt32
  deriving DecidableEq, Repr

namespace PackedHeader

def name (p : PackedHeader) : Bytes := p.raw.take p.colon.toNat

def value (p : PackedHeader) : Bytes := p.raw.drop (p.colon.toNat + 2)

end PackedHeader

def Header.packed (h : Header) : PackedHeader := ⟨h.raw, h.name.length.toUInt32⟩

/-! ## Bytes -/

theorem isTokenByte_iff (b : UInt8) : isTokenByte b = true ↔ IsToken b :=
  Bytes.forall_byte (P := fun b => isTokenByte b = true ↔ IsToken b) (by decide +kernel) b

theorem isValueByte_iff (b : UInt8) :
    isValueByte b = true ↔ b = 9 ∨ (32 ≤ b ∧ b ≤ 126) ∨ 128 ≤ b := by
  simp [isValueByte, or_assoc]

theorem isBlank_iff (b : UInt8) : isBlank b = true ↔ b = 32 ∨ b = 9 := by
  simp [isBlank]

theorem isName_iff (name : Bytes) : isName name = true ↔ name ≠ [] ∧ ∀ b ∈ name, IsToken b := by
  simp [isName, isTokenByte_iff]

theorem isValue_iff (value : Bytes) :
    isValue value = true ↔ ∀ b ∈ value, b = 9 ∨ (32 ≤ b ∧ b ≤ 126) ∨ 128 ≤ b := by
  simp [isValue, isValueByte_iff]

/-- No byte of a token is a colon. -/
theorem ne_colon_of_isName {name : Bytes} (h : isName name = true) : ∀ b ∈ name, (b != 58) = true := by
  intro b hb
  rw [bne_iff_ne]
  rintro rfl
  have colon := ((isName_iff name).1 h).2 58 hb
  revert colon
  decide

/-! ## Trimming -/

/-- Blanks before a text that does not begin with one are all that is dropped of them. -/
theorem dropWhile_blanks {blanks rest : Bytes} (all : ∀ b ∈ blanks, isBlank b = true)
    (first : ∀ b, rest.head? = some b → isBlank b = false) :
    (blanks ++ rest).dropWhile isBlank = rest := by
  rw [List.dropWhile_append_of_pos all, dropWhile_eq_self first]

theorem Trims.eq_trim {value kept : Bytes} (h : Trims value kept) : kept = trim value := by
  obtain ⟨⟨front, back, rfl, blanks⟩, first, last⟩ := h
  simp only [← isBlank_iff, Bool.not_eq_true, List.mem_append] at blanks first last
  have before : ∀ b ∈ front, isBlank b = true := fun b hb => blanks b (.inl hb)
  have after : ∀ b ∈ back.reverse, isBlank b = true := fun b hb =>
    blanks b (.inr (List.mem_reverse.1 hb))
  by_cases none : kept = []
  · have all : (front ++ kept ++ back).dropWhile isBlank = [] := by
      rw [none, List.append_nil, ← List.append_nil (front ++ back)]
      exact dropWhile_blanks (fun b hb => blanks b (List.mem_append.1 hb)) nofun
    rw [none] at all
    rw [none, trim, all]
    rfl
  · have opened : (front ++ kept ++ back).dropWhile isBlank = kept ++ back := by
      rw [List.append_assoc]
      refine dropWhile_blanks before fun b hb => first b ?_
      cases kept with
      | nil => exact (none rfl).elim
      | cons k kept => exact hb
    have closed : (back.reverse ++ kept.reverse).dropWhile isBlank = kept.reverse := by
      refine dropWhile_blanks after fun b hb => last b ?_
      rwa [List.getLast?_eq_head?_reverse]
    rw [trim, opened, List.reverse_append, closed, List.reverse_reverse]

theorem trims_trim (value : Bytes) : Trims value (trim value) := by
  generalize mid : value.dropWhile isBlank = rest
  have front := List.takeWhile_append_dropWhile (p := isBlank) (l := value)
  have back := congrArg List.reverse
    (List.takeWhile_append_dropWhile (p := isBlank) (l := rest.reverse))
  have kept : (rest.reverse.dropWhile isBlank).reverse = trim value := by rw [trim, mid]
  rw [List.reverse_append, List.reverse_reverse, kept] at back
  refine ⟨⟨value.takeWhile isBlank, (rest.reverse.takeWhile isBlank).reverse, ?_, ?_⟩, ?_, ?_⟩
  · rw [List.append_assoc, back, ← mid, front]
  · intro b hb
    rw [← isBlank_iff]
    rcases List.mem_append.1 hb with hb | hb
    · exact List.all_eq_true.1 List.all_takeWhile b hb
    · exact List.all_eq_true.1 List.all_takeWhile b (List.mem_reverse.1 hb)
  · intro b hb
    rw [← isBlank_iff, head?_dropWhile_not isBlank value b (head?_dropWhile_end hb)]
    decide
  · intro b hb
    rw [List.getLast?_eq_head?_reverse, ← kept, List.reverse_reverse] at hb
    rw [← isBlank_iff, head?_dropWhile_not isBlank _ b hb]
    decide

/-- Trimming keeps the one text that stands between the blanks at both ends. -/
theorem trims_iff (value kept : Bytes) : Trims value kept ↔ kept = trim value := by
  constructor
  · exact Trims.eq_trim
  · rintro rfl
    exact trims_trim value

/-! ## Written fields -/

namespace Header

theorem raw_eq (h : Header) : h.raw = h.name ++ 58 :: 32 :: h.value := by
  have separator : text ": " = [58, 32] := by decide
  rw [raw, separator, List.append_assoc]
  rfl

/-- The first colon of a written field ends its name. -/
theorem cut_raw (h : Header) : cut h.raw = (h.name, h.value) := by
  have token := ne_colon_of_isName h.name_valid
  rw [cut, raw_eq, List.takeWhile_append_of_pos token, List.dropWhile_append_of_pos token]
  simp

theorem eq_iff (g h : Header) : g = h ↔ g.name = h.name ∧ g.value = h.value := by
  constructor
  · rintro rfl
    exact ⟨rfl, rfl⟩
  · rintro ⟨name, value⟩
    have made := ofPair_name_value g
    rw [name, value, ofPair_name_value h] at made
    exact (Except.ok.inj made).symm

/-- Fields that are written the same are the same. -/
theorem raw_inj {g h : Header} (same : g.raw = h.raw) : g = h := by
  have parts := congrArg cut same
  rw [cut_raw, cut_raw, Prod.mk.injEq] at parts
  exact (eq_iff g h).2 parts

theorem packed_name {h : Header} (short : h.name.length < UInt32.size) : h.packed.name = h.name := by
  rw [PackedHeader.name, packed]
  simp only [Nat.toUInt32_eq, UInt32.toNat_ofNat_of_lt' short, raw_eq]
  exact List.take_left ..

theorem packed_value {h : Header} (short : h.name.length < UInt32.size) : h.packed.value = h.value := by
  rw [PackedHeader.value, packed]
  simp only [Nat.toUInt32_eq, UInt32.toNat_ofNat_of_lt' short, raw_eq]
  rw [← List.drop_drop, List.drop_left]
  rfl

theorem packed_inj {g h : Header} (same : g.packed = h.packed) : g = h :=
  raw_inj (congrArg PackedHeader.raw same)

end Header

/-! ## Result -/

/-- **Headers keep to their grammar, and their written form tells them apart.** A header is made of
a name and a value exactly if the name is a token that is not empty and the value, as it is given, has
only tabs, printable bytes and bytes above ASCII.  Then the header has that name and what is left of
the value without the blanks at its ends; its written form has no line break, no zero and no delete
byte, and is cut into name and value at its first colon.  Kept as one text with the place of its colon,
it has the same name and value.  Headers are equal exactly if they are written the same, and if they
are kept the same, and if they have the same name and value; and the name and value of a header make
it again. -/
theorem ofPair_grammar (name value : Bytes) :
    ((∃ h, Header.ofPair name value = .ok h) ↔
      name ≠ [] ∧ (∀ b ∈ name, IsToken b) ∧
        ∀ b ∈ value, b = 9 ∨ (32 ≤ b ∧ b ≤ 126) ∨ 128 ≤ b) ∧
    ∀ h, Header.ofPair name value = .ok h →
      h.name = name ∧ (∀ kept, Trims value kept ↔ kept = h.value) ∧
      h.raw = name ++ text ": " ++ h.value ∧
      (∀ b ∈ h.raw, b ≠ 13 ∧ b ≠ 10 ∧ b ≠ 0 ∧ b ≠ 127) ∧
      cut h.raw = (name, h.value) ∧
      (name.length < UInt32.size → h.packed.name = name ∧ h.packed.value = h.value) ∧
      (∀ g : Header, (g = h ↔ g.raw = h.raw) ∧ (g = h ↔ g.packed = h.packed) ∧
        (g = h ↔ g.name = h.name ∧ g.value = h.value)) ∧
      Header.ofPair h.name h.value = .ok h := by
  constructor
  · rw [← and_assoc, ← isName_iff, ← isValue_iff, ← isValue_trim]
    constructor
    · rintro ⟨h, made⟩
      obtain ⟨token, sound, -, -⟩ := (Header.ofPair_eq_ok_iff name value h).1 made
      exact ⟨token, sound⟩
    · rintro ⟨token, sound⟩
      exact ⟨⟨name, trim value, token, sound, trim_trim value⟩,
        (Header.ofPair_eq_ok_iff ..).2 ⟨token, sound, rfl, rfl⟩⟩
  · intro h made
    obtain ⟨-, -, rfl, kept⟩ := (Header.ofPair_eq_ok_iff name value h).1 made
    refine ⟨rfl, ?_, rfl, ?_, h.cut_raw, ?_, ?_, Header.ofPair_name_value h⟩
    · rw [kept]
      exact trims_iff value
    · intro b hb
      have delete : b ≠ 127 := by
        rintro rfl
        have sound := List.all_eq_true.1 h.isValue_raw 127 hb
        revert sound
        decide
      obtain ⟨cr, lf, nul⟩ := h.raw_unbroken b hb
      exact ⟨cr, lf, nul, delete⟩
    · intro short
      exact ⟨Header.packed_name short, Header.packed_value short⟩
    · intro g
      exact ⟨⟨congrArg Header.raw, Header.raw_inj⟩, ⟨congrArg Header.packed, Header.packed_inj⟩,
        Header.eq_iff g h⟩

/-- An entity tag with blanks around it. -/
theorem ofPair_grammar_entityTag :
    ∃ h, Header.ofPair (text "ETag") (text "  \"x y\" \t") = .ok h ∧ h.value = text "\"x y\"" ∧
      cut h.raw = (text "ETag", h.value) ∧ h.packed.name = text "ETag" ∧
      h.packed.value = h.value := by
  obtain ⟨accepted, described⟩ := ofPair_grammar (text "ETag") (text "  \"x y\" \t")
  obtain ⟨h, made⟩ := accepted.2 ⟨by decide, by decide +kernel, by decide +kernel⟩
  obtain ⟨-, value, -, -, parts, packed, -, -⟩ := described h made
  obtain ⟨packedName, packedValue⟩ := packed (by decide)
  refine ⟨h, made, ?_, parts, packedName, packedValue⟩
  exact ((value _).1 (trims_trim _)).symm.trans (by decide)

end RequestFlow
