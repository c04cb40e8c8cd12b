import RequestFlow.CacheEntry

/-!
# Merging headers

A confirmed response has the headers of the answer, and those stored headers whose name the answer
does not have.  Two names are the same if they differ at most in the case of Latin letters.  That is
an equivalence, so each list of headers falls into groups by name, and the merge takes every group
whole: the received one if there is any, else the stored one.  What a lookup finds is the first of
its group, so a lookup in the merge asks the answer first.

    the comparison of names goes by letters, place by place     (equalIgnoringCase_iff_sameText)
    a lookup finds the first header of a group                  (find?_eq_head?)
    the merge has the received group, or else the stored one    (named_combine)
    two merges are one with the merge of what was stored        (combine_assoc)
-/

namespace RequestFlow

namespace Bytes

/-- One byte, or the two cases of a Latin letter. -/
inductive SameLetter : UInt8 → UInt8 → Prop
  | same (b : UInt8) : SameLetter b b
  | capitalFirst {b : UInt8} (h : 65 ≤ b ∧ b ≤ 90) : SameLetter b (b + 32)
  | capitalLast {b : UInt8} (h : 65 ≤ b ∧ b ≤ 90) : SameLetter (b + 32) b

/-- Texts that differ at most in the case of their letters. -/
inductive SameText : Bytes → Bytes → Prop
  | nil : SameText [] []
  | cons {x y : UInt8} {a b : Bytes} (letter : SameLetter x y) (rest : SameText a b) :
    SameText (x :: a) (y :: b)

/-! ## Letter case -/

theorem lowerByte_of_capital {b : UInt8} (h : 65 ≤ b ∧ b ≤ 90) : lowerByte b = b + 32 :=
  forall_byte (P := fun b => 65 ≤ b ∧ b ≤ 90 → lowerByte b = b + 32) (by decide +kernel) b h

theorem lowerByte_of_not_capital {b : UInt8} (h : ¬ (65 ≤ b ∧ b ≤ 90)) : lowerByte b = b :=
  if_neg h

/-- The lower form of a capital is no capital. -/
theorem not_capital_lower {b : UInt8} (h : 65 ≤ b ∧ b ≤ 90) : ¬ (65 ≤ b + 32 ∧ b + 32 ≤ 90) :=
  forall_byte (P := fun b => 65 ≤ b ∧ b ≤ 90 → ¬ (65 ≤ b + 32 ∧ b + 32 ≤ 90))
    (by decide +kernel) b h

theorem lowerByte_eq_iff (x y : UInt8) : lowerByte x = lowerByte y ↔ SameLetter x y := by
  constructor
  · intro same
    by_cases hx : 65 ≤ x ∧ x ≤ 90
    · by_cases hy : 65 ≤ y ∧ y ≤ 90
      · rw [lowerByte_of_capital hx, lowerByte_of_capital hy] at same
        rw [(UInt8.add_left_inj 32).1 same]
        exact .same y
      · rw [lowerByte_of_capital hx, lowerByte_of_not_capital hy] at same
        rw [← same]
        exact .capitalFirst hx
    · by_cases hy : 65 ≤ y ∧ y ≤ 90
      · rw [lowerByte_of_not_capital hx, lowerByte_of_capital hy] at same
        rw [same]
        exact .capitalLast hy
      · rw [lowerByte_of_not_capital hx, lowerByte_of_not_capital hy] at same
        rw [same]
        exact .same y
  · intro h
    cases h with
    | same => rfl
    | capitalFirst h => rw [lowerByte_of_capital h, lowerByte_of_not_capital (not_capital_lower h)]
    | capitalLast h => rw [lowerByte_of_capital h, lowerByte_of_not_capital (not_capital_lower h)]

/-- The comparison without case finds letters of one kind at every place, and no text longer. -/
theorem equalIgnoringCase_iff_sameText (a b : Bytes) :
    equalIgnoringCase a b = true ↔ SameText a b := by
  induction a generalizing b with
  | nil =>
    cases b with
    | nil => exact ⟨fun _ => .nil, fun _ => rfl⟩
    | cons y b => exact ⟨nofun, nofun⟩
  | cons x a ih =>
    cases b with
    | nil => exact ⟨nofun, nofun⟩
    | cons y b =>
      rw [equalIgnoringCase, Bool.and_eq_true, beq_iff_eq, lowerByte_eq_iff, ih b]
      constructor
      · rintro ⟨letter, rest⟩
        exact .cons letter rest
      · rintro (_ | ⟨letter, rest⟩)
        exact ⟨letter, rest⟩

theorem sameText_iff (a b : Bytes) : SameText a b ↔ lower a = lower b := by
  rw [← equalIgnoringCase_iff_sameText, equalIgnoringCase_iff]

instance (a b : Bytes) : Decidable (SameText a b) :=
  decidable_of_iff _ (equalIgnoringCase_iff_sameText a b)

theorem decide_sameText (a b : Bytes) : decide (SameText a b) = equalIgnoringCase a b := by
  rw [Bool.eq_iff_iff, decide_eq_true_eq, equalIgnoringCase_iff_sameText]

/-- Texts are in one class if they have the same lower form. -/
theorem sameText_equivalence : Equivalence SameText where
  refl a := (sameText_iff a a).2 rfl
  symm h := (sameText_iff _ _).2 ((sameText_iff _ _).1 h).symm
  trans h g := (sameText_iff _ _).2 (((sameText_iff _ _).1 h).trans ((sameText_iff _ _).1 g))

end Bytes

/-! ## Groups -/

namespace Header

open Bytes

/-- The headers of a name, in their order. -/
def named (name : Bytes) (headers : List Header) : List Header :=
  headers.filter fun h => decide (SameText h.name name)

theorem named_append (name : Bytes) (a b : List Header) :
    named name (a ++ b) = named name a ++ named name b :=
  List.filter_append ..

/-- Names that are the same have one group. -/
theorem named_congr {a b : Bytes} (h : SameText a b) (headers : List Header) :
    named a headers = named b headers := by
  refine List.filter_congr fun g _ => decide_eq_decide.2 ?_
  exact ⟨fun ha => sameText_equivalence.trans ha h,
    fun hb => sameText_equivalence.trans hb (sameText_equivalence.symm h)⟩

/-- A lookup finds the first header of the group. -/
theorem find?_eq_head? (headers : List Header) (name : Bytes) :
    find? headers name = (named name headers).head?.map Header.value := by
  simp only [named, List.head?_filter, decide_sameText, find?]

theorem find?_isNone_iff_named (headers : List Header) (name : Bytes) :
    (find? headers name).isNone = true ↔ named name headers = [] := by
  rw [find?_eq_head?, Option.isNone_map, Option.isNone_iff_eq_none, List.head?_eq_none_iff]

end Header

namespace CacheEntry

open Header

/-- Of the stored headers of a name, the merge takes all if the name was not received, and else
none. -/
theorem named_unseen (received cached : List Header) (name : Bytes) :
    named name (cached.filter fun h => (find? received h.name).isNone) =
      if named name received = [] then named name cached else [] := by
  -- the name of a header in the group asks for the same group as `name`
  have unseen {h : Header} (same : Bytes.SameText h.name name) :
      (find? received h.name).isNone = true ↔ named name received = [] := by
    rw [find?_isNone_iff_named, named_congr same]
  rw [named, List.filter_filter]
  split
  · next none =>
    refine List.filter_congr fun h _ => ?_
    by_cases same : Bytes.SameText h.name name
    · simp [same, (unseen same).2 none]
    · simp [same]
  · next some =>
    rw [List.filter_eq_nil_iff]
    intro h _ both
    rw [Bool.and_eq_true, decide_eq_true_eq] at both
    exact some ((unseen both.1).1 both.2)

/-- The merge has the received group of each name, or else the stored one. -/
theorem named_combine (received cached : List Header) (name : Bytes) :
    named name (combine received cached) =
      if named name received = [] then named name cached else named name received := by
  rw [combine, named_append, named_unseen]
  split
  · next none => rw [none, List.nil_append]
  · rw [List.append_nil]

/-- A lookup in the merge asks the received headers first. -/
theorem find?_combine (received cached : List Header) (name : Bytes) :
    find? (combine received cached) name = (find? received name).or (find? cached name) := by
  rw [find?_eq_head?, find?_eq_head?, find?_eq_head?, named_combine]
  cases group : named name received with
  | nil => rfl
  | cons h rest => rfl

/-- A response that two stored lists complete, one after the other, is completed by their merge. -/
theorem combine_assoc (received older oldest : List Header) :
    combine (combine received older) oldest = combine received (combine older oldest) := by
  have unseen (h : Header) : (find? (combine received older) h.name).isNone =
      ((find? received h.name).isNone && (find? older h.name).isNone) := by
    rw [find?_combine, Option.isNone_or]
  simp only [combine, List.filter_append, List.filter_filter, List.append_assoc] at unseen ⊢
  simp only [unseen]

end CacheEntry

/-! ## Result -/

open Header CacheEntry

/-- **The response wins, the cache fills in.** Names are the same if they differ at most in the case
of Latin letters; this is an equivalence, and the comparison of names decides it.  The received
headers are the front of a merge.  For each name a lookup finds what it finds in the answer, or else
what it finds in the cache; and the headers of that name are all those of the answer in their order
if it has any, and else all those of the cache in theirs.  Merging once more changes nothing. -/
theorem combine_fills_in :
    (∀ a b, Bytes.equalIgnoringCase a b = true ↔ Bytes.SameText a b) ∧
    Equivalence Bytes.SameText ∧
    ∀ received cached : List Header,
      received <+: combine received cached ∧
      (∀ name, find? (combine received cached) name =
        (find? received name).or (find? cached name)) ∧
      (∀ name, named name (combine received cached) =
        if named name received = [] then named name cached else named name received) ∧
      combine (combine received cached) cached = combine received cached := by
  refine ⟨Bytes.equalIgnoringCase_iff_sameText, Bytes.sameText_equivalence, ?_⟩
  intro received cached
  refine ⟨prefix_combine received cached, ?_, ?_, combine_combine received cached⟩
  · exact find?_combine received cached
  · exact named_combine received cached

end RequestFlow
