import RequestFlow.Bytes

/-!
# Message templates

A template is filled from left to right: an empty pair of braces takes the next argument, a doubled
brace stands for one brace, and every other byte is copied.  Arguments are never read as templates.

    fill t [] = t   for a template without braces               (fill_plain)
-/

namespace RequestFlow

namespace Template

/-! ## Algorithm -/

def opening : UInt8 := 0x7B

def closing : UInt8 := 0x7D

/-- The template with its places filled by the arguments; places beyond the last argument are empty. -/
def fill : Bytes → List Bytes → Bytes
  | [], _ => []
  | [b], _ => [b]
  | b :: c :: rest, args =>
    if b = opening ∧ c = opening then opening :: fill rest args
    else if b = closing ∧ c = closing then closing :: fill rest args
    else if b = opening ∧ c = closing then args.headD [] ++ fill rest args.tail
    else b :: fill (c :: rest) args

/-! ## Lemmas -/

theorem fill_plain (t : Bytes) (h : opening ∉ t ∧ closing ∉ t) (args : List Bytes) :
    fill t args = t := by
  fun_induction fill t args with
  | case1 => rfl
  | case2 => rfl
  | case3 b c rest args hb ih => simp [hb] at h
  | case4 b c rest args _ hb ih => simp [hb] at h
  | case5 b c rest args _ _ hb ih => simp [hb] at h
  | case6 b c rest args _ _ _ ih =>
    have : opening ∉ c :: rest ∧ closing ∉ c :: rest :=
      ⟨fun m => h.1 (List.mem_cons_of_mem _ m), fun m => h.2 (List.mem_cons_of_mem _ m)⟩
    rw [ih this]

end Template

end RequestFlow
