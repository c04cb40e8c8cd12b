import Mathlib.Data.List.Basic
import RequestFlow.RetryPolicy

/-!
# A policy that is asked again and again

The count of a policy goes up at every call and starts over after 2 ^ 32 of them, so the `k`-th call is
granted when the remainder of `k` is within the limit.  The timeout grows by its product with the
multiplier, cut to whole milliseconds; as long as the product and the sum are signed words it never
shrinks, and at the first call where one of them is not, the next timeout is negative.

    answer k of a new policy is whether (k + 1) % 2 ^ 32 ≤ limit          (getElem?_answers)
    a call that fits lengthens the timeout by the product                 (Sound.retry)
    a call that does not leaves a negative timeout                        (Sound.retry_neg)
-/

namespace RequestFlow

namespace Word

/-- A word that is not negative and another one come to a negative one when no word holds their sum. -/
theorem wrap_neg {m n : Int} (hm : 0 ≤ m) (hm' : Holds m) (h : n = -bound ∨ Holds n ∧ ¬Holds (m + n)) :
    wrap (m + n) < 0 := by
  unfold wrap Holds bound modulus at *
  rw [Int.bmod_def]
  omega

end Word

namespace Single

variable {x y z : Single} {n : Int}

theorem truncate?_nonneg (hx : x.negative = false) (hn : x.truncate? = some n) : 0 ≤ n := by
  unfold truncate? at hn
  split at hn
  · simp only [hx, Bool.false_eq_true, if_false, Option.some.injEq] at hn
    exact hn ▸ Int.natCast_nonneg _
  · cases hn

theorem truncate?_zero (sign : Bool) (e : Int) :
    (⟨sign, .finite 0 e⟩ : Single).truncate? = some 0 := by
  have hzero : (Magnitude.quotient 0 e).1 = 0 := by
    unfold Magnitude.quotient
    split <;> simp
  simp [truncate?, hzero]

theorem negative_mul (h : x.mul y = some z) : z.negative = (x.negative != y.negative) := by
  unfold mul at h
  split at h <;> (try split at h) <;> cases h <;> rfl

theorem mul_zero {e : Int} (hy : y.size = .finite 0 e) (h : x.mul y = some z) :
    z.size = .finite 0 BinaryFormat.single.minExponent := by
  unfold mul at h
  split at h
  · rename_i m₂ _ _ h₂
    obtain ⟨rfl, -⟩ := Magnitude.finite.inj (h₂.symm.trans hy)
    cases h
    unfold Magnitude.quotient
    split <;> simp [Magnitude.nearest]
  · rename_i h₂
    cases h₂.symm.trans hy
  · rename_i h₂
    obtain ⟨rfl, -⟩ := Magnitude.finite.inj (h₂.symm.trans hy)
    simp at h
  · rename_i h₂
    cases h₂.symm.trans hy

/-- A product of numbers that are not less than zero has no integer part that is: one with the sign of
the negative zero is a zero. -/
theorem mul_truncate_nonneg (hx : x.negative = false) (hy : y.isNegative = false)
    (hn : (x.mul y).bind truncate? = some n) : 0 ≤ n := by
  obtain ⟨z, hz, hn⟩ := Option.bind_eq_some_iff.mp hn
  cases hsign : y.negative with
  | false => exact truncate?_nonneg (by rw [negative_mul hz, hx, hsign]; rfl) hn
  | true =>
    obtain ⟨e, hsize⟩ : ∃ e, y.size = .finite 0 e := by
      unfold isNegative at hy
      split at hy <;> simp_all
    obtain ⟨sign, size⟩ := z
    obtain rfl : size = _ := mul_zero hsize hz
    rw [truncate?_zero] at hn
    exact Option.some.inj hn ▸ Int.le_refl 0

end Single

namespace Backoff

variable {b : Backoff} {e : RequestError} {es : List RequestError} {k : Nat}

/-- The policy after calls with the given errors. -/
def after (b : Backoff) (es : List RequestError) : Backoff := es.foldl (fun b e => (b.retry e).1) b

/-- What each of the calls returns. -/
def answers : Backoff → List RequestError → List Bool
  | _, [] => []
  | b, e :: es => (b.retry e).2.1 :: answers (b.retry e).1 es

/-- The timeout before the first call and after each of them, which the attempts are sent with. -/
def timeouts : Backoff → List RequestError → List Int
  | b, [] => [b.timeout]
  | b, e :: es => b.timeout :: timeouts (b.retry e).1 es

theorem make_eq_ok_iff {timeout : Int} {limit : UInt32} {multiplier : Single} :
    Backoff.make timeout limit multiplier = .ok b ↔
      0 ≤ timeout ∧ multiplier.isNegative = false ∧ b = { timeout, limit, multiplier } := by
  unfold Backoff.make
  split
  · rename_i h
    simp only [reduceCtorEq, false_iff]
    exact fun ⟨h', _⟩ => by omega
  · split
    · rename_i h
      simp [h]
    · rename_i h h'
      simp only [Except.ok.injEq, Bool.not_eq_true] at h' ⊢
      exact ⟨fun hb => ⟨by omega, h', hb.symm⟩, fun hb => hb.2.2.symm⟩

/-! ## The count -/

theorem toNat_count_retry (b : Backoff) (e : RequestError) :
    (b.retry e).1.count.toNat = (b.count.toNat + 1) % UInt32.size := by
  rw [count_retry, UInt32.toNat_add]
  rfl

theorem retry_answer (b : Backoff) (e : RequestError) :
    (b.retry e).2.1 = decide ((b.count.toNat + 1) % UInt32.size ≤ b.limit.toNat) := by
  rw [Bool.eq_iff_iff, retry_allows_iff, decide_eq_true_eq, UInt32.le_iff_toNat_le, ← count_retry b e,
    toNat_count_retry]

theorem answers_eq (b : Backoff) (es : List RequestError) :
    b.answers es = (List.range es.length).map fun k =>
      decide ((b.count.toNat + k + 1) % UInt32.size ≤ b.limit.toNat) := by
  induction es generalizing b with
  | nil => rfl
  | cons e es ih =>
    rw [answers, ih, retry_answer, limit_retry, toNat_count_retry, List.length_cons,
      List.range_succ_eq_map, List.map_cons, List.map_map]
    congr 1
    refine List.map_congr_left fun k _ => ?_
    simp only [Function.comp_apply, Nat.add_assoc, Nat.mod_add_mod, Nat.succ_eq_add_one]
    congr 4
    omega

theorem length_answers (b : Backoff) (es : List RequestError) :
    (b.answers es).length = es.length := by
  simp [answers_eq]

/-- A new policy grants the call at place `k`, counted from zero, as its remainder says. -/
theorem getElem?_answers (hb : b.count = 0) (hk : k < es.length) :
    (b.answers es)[k]? = some (decide ((k + 1) % UInt32.size ≤ b.limit.toNat)) := by
  simp [answers_eq, hb, hk]

theorem countP_lt_range (n m : Nat) : (List.range n).countP (fun k => decide (k < m)) = min n m := by
  induction n with
  | zero => simp
  | succ n ih =>
    rw [List.range_succ, List.countP_append, ih]
    by_cases h : n < m <;> simp [h] <;> omega

/-- Before the count starts over, exactly the first calls are granted. -/
theorem count_answers (hb : b.count = 0) (hn : es.length < UInt32.size) :
    (b.answers es).count true = min es.length b.limit.toNat := by
  rw [← countP_lt_range, answers_eq, List.count, List.countP_map]
  refine List.countP_congr fun k hk => ?_
  have hsmall : k + 1 < UInt32.size := by have := List.mem_range.mp hk; omega
  simp only [Function.comp_apply, beq_true, decide_eq_true_eq, hb, UInt32.toNat_zero, Nat.zero_add,
    Nat.mod_eq_of_lt hsmall]
  omega

/-- The call at which the count starts over is granted once more than the limit allows. -/
theorem limit_lt_count_answers (hb : b.count = 0) (hn : UInt32.size ≤ es.length) :
    b.limit.toNat < (b.answers es).count true := by
  have hlimit : b.limit.toNat < UInt32.size := b.limit.toNat_lt
  obtain ⟨last, hlast⟩ : ∃ last, UInt32.size = last + 1 := ⟨4294967295, rfl⟩
  rw [hlast] at hlimit hn
  calc b.limit.toNat
      _ = min last b.limit.toNat := by omega
      _ = (List.range last).countP (fun k => decide (k < b.limit.toNat)) := (countP_lt_range _ _).symm
      _ = (List.range last).countP (fun k => decide ((k + 1) % (last + 1) ≤ b.limit.toNat)) := by
        refine List.countP_congr fun k hk => ?_
        rw [Nat.mod_eq_of_lt (Nat.succ_lt_succ (List.mem_range.mp hk))]
        simp only [decide_eq_true_eq]
        omega
      _ < (List.range (last + 1)).countP (fun k => decide ((k + 1) % (last + 1) ≤ b.limit.toNat)) := by
        simp [List.range_succ]
      _ ≤ (List.range es.length).countP (fun k => decide ((k + 1) % (last + 1) ≤ b.limit.toNat)) :=
        (List.range_sublist.mpr hn).countP_le
      _ = (b.answers es).count true := by
        rw [answers_eq, List.count, List.countP_map, hlast]
        exact List.countP_congr fun k _ => by simp [hb]

/-- A new policy grants the `k`-th call when the remainder of `k` by 2 ^ 32 is within the limit: as long
as fewer calls are made the first ones up to the limit are granted and no other, and with the call of
that number one more is granted than the limit allows. -/
theorem granted_within_limit_iff {timeout : Int} {limit : UInt32} {multiplier : Single}
    (hb : Backoff.make timeout limit multiplier = .ok b) (es : List RequestError) :
    (∀ k < es.length, (b.answers es)[k]? = some true ↔ (k + 1) % UInt32.size ≤ limit.toNat) ∧
    ((∀ k < es.length, (b.answers es)[k]? = some true ↔ k + 1 ≤ limit.toNat) ↔
      es.length < UInt32.size) ∧
    ((b.answers es).count true ≤ limit.toNat ↔ es.length < UInt32.size) ∧
    (es.length < UInt32.size → (b.answers es).count true = min es.length limit.toNat ∧
      (b.answers es).Pairwise fun earlier later => later = true → earlier = true) := by
  obtain ⟨hcount, hlimit⟩ : b.count = 0 ∧ b.limit = limit := by
    obtain ⟨-, -, rfl⟩ := make_eq_ok_iff.mp hb
    exact ⟨rfl, rfl⟩
  subst hlimit
  have hcalls : ∀ k < es.length,
      ((b.answers es)[k]? = some true ↔ (k + 1) % UInt32.size ≤ b.limit.toNat) := fun k hk => by
    simp [getElem?_answers hcount hk]
  refine ⟨hcalls, ⟨fun hall => ?_, fun hn k hk => ?_⟩, ⟨fun hle => ?_, fun hn => ?_⟩, fun hn =>
    ⟨count_answers hcount hn, List.pairwise_iff_getElem.mpr fun i j hi hj hij hlater => ?_⟩⟩
  · by_contra hn
    have hlimit : b.limit.toNat < UInt32.size := b.limit.toNat_lt
    obtain ⟨last, hlast⟩ : ∃ last, UInt32.size = last + 1 := ⟨4294967295, rfl⟩
    rw [hlast] at hcalls hlimit hn
    have hgranted := (hcalls last (by omega)).mpr (by simp)
    have hwithin := (hall last (by omega)).mp hgranted
    omega
  · rw [hcalls k hk, Nat.mod_eq_of_lt (by omega)]
  · by_contra hn
    exact absurd hle (Nat.not_le_of_lt (limit_lt_count_answers hcount (Nat.le_of_not_lt hn)))
  · exact count_answers hcount hn ▸ Nat.min_le_right _ _
  · have hlater := (hcalls j (length_answers b es ▸ hj)).mp (by rw [List.getElem?_eq_getElem hj, hlater])
    rw [length_answers] at hj
    have hearlier := (hcalls i (by omega)).mpr (by
      rw [Nat.mod_eq_of_lt (by omega)] at hlater ⊢
      omega)
    rw [List.getElem?_eq_getElem hi] at hearlier
    exact Option.some.inj hearlier

/-- Two of three calls are granted where the limit is two. -/
theorem granted_within_limit_two :
    Backoff.make 2500 2 Single.one = .ok { limit := 2 } ∧
      (({ limit := 2 } : Backoff).answers (List.replicate 3 { kind := .timeout })).count true = 2 := by
  have hmake : Backoff.make 2500 2 Single.one = .ok { limit := 2 } := rfl
  obtain ⟨-, -, -, hcount⟩ := granted_within_limit_iff hmake (List.replicate 3 { kind := .timeout })
  exact ⟨hmake, (hcount (by decide)).1⟩

/-- A policy that allows one retry refuses the second call and grants the one of number 2 ^ 32. -/
theorem granted_again : ∃ b, Backoff.make 0 1 Single.one = .ok b ∧
    (b.answers (List.replicate 4294967296 { kind := .timeout }))[1]? = some false ∧
    (b.answers (List.replicate 4294967296 { kind := .timeout }))[4294967295]? = some true := by
  refine ⟨_, rfl, ?_, ?_⟩
  · rw [getElem?_answers rfl (by rw [List.length_replicate]; decide)]
    rfl
  · rw [getElem?_answers rfl (by rw [List.length_replicate]; decide)]
    rfl

/-! ## The timeout -/

/-- The product of the timeout with the multiplier, cut to whole milliseconds. -/
def product (b : Backoff) : Option Int :=
  ((Single.ofInt b.timeout).mul b.multiplier).bind Single.truncate?

/-- The next call neither cuts the product nor wraps the sum. -/
def Fits (b : Backoff) : Prop := ∃ n, b.product = some n ∧ Word.Holds n ∧ Word.Holds (b.timeout + n)

/-- What the constructor demands of a timeout and a multiplier. -/
structure Sound (b : Backoff) : Prop where
  nonneg : 0 ≤ b.timeout
  holds : Word.Holds b.timeout
  multiplier : b.multiplier.isNegative = false

theorem timeout_retry (b : Backoff) (e : RequestError) :
    (b.retry e).1.timeout = Word.wrap (b.timeout + b.growth) := by
  unfold retry
  simp only
  split <;> rfl

theorem multiplier_retry (b : Backoff) (e : RequestError) :
    (b.retry e).1.multiplier = b.multiplier := by
  unfold retry
  simp only
  split <;> rfl

theorem Sound.of_make {timeout : Int} {limit : UInt32} {multiplier : Single}
    (hb : Backoff.make timeout limit multiplier = .ok b) (ht : Word.Holds timeout) : b.Sound := by
  obtain ⟨hn, hm, rfl⟩ := make_eq_ok_iff.mp hb
  exact ⟨hn, ht, hm⟩

theorem growth_of_product {n : Int} (hn : b.product = some n) (h : Word.Holds n) : b.growth = n := by
  rw [growth, Single.toWord, ← product, hn]
  exact if_pos h

/-- The growth is the product, or the least word in its place. -/
theorem growth_cases (b : Backoff) :
    b.growth = -Word.bound ∨ b.product = some b.growth ∧ Word.Holds b.growth := by
  by_cases h : ∃ n, b.product = some n ∧ Word.Holds n
  · obtain ⟨n, hn, hholds⟩ := h
    rw [growth_of_product hn hholds]
    exact .inr ⟨hn, hholds⟩
  · left
    rw [growth, Single.toWord, ← product]
    split
    · rename_i n hn
      exact if_neg fun hholds => h ⟨n, hn, hholds⟩
    · rfl

/-- A call that fits lengthens the timeout by the product. -/
theorem Sound.retry (h : b.Sound) (hfits : b.Fits) (e : RequestError) :
    (b.retry e).1.Sound ∧ b.timeout ≤ (b.retry e).1.timeout := by
  obtain ⟨n, hn, hholds, hsum⟩ := hfits
  have hpos : 0 ≤ n :=
    Single.mul_truncate_nonneg (by simpa [Single.ofInt] using h.nonneg) h.multiplier hn
  have hnext : (b.retry e).1.timeout = b.timeout + n := by
    rw [timeout_retry, growth_of_product hn hholds, Word.wrap_eq_self hsum]
  have hlow := h.nonneg
  exact ⟨⟨by omega, hnext ▸ hsum, multiplier_retry b e ▸ h.multiplier⟩, by omega⟩

/-- A call that does not fit leaves a negative timeout. -/
theorem Sound.retry_neg (h : b.Sound) (hfits : ¬b.Fits) (e : RequestError) :
    (b.retry e).1.timeout < 0 := by
  rw [timeout_retry]
  refine Word.wrap_neg h.nonneg h.holds (b.growth_cases.imp_right fun ⟨hn, hholds⟩ => ⟨hholds, ?_⟩)
  exact fun hsum => hfits ⟨_, hn, hholds, hsum⟩

theorem timeouts_eq_cons (b : Backoff) (es : List RequestError) :
    ∃ later, b.timeouts es = b.timeout :: later := by
  cases es <;> exact ⟨_, rfl⟩

/-- Whether each of the calls fits. -/
def AllFit (b : Backoff) (es : List RequestError) : Prop := ∀ k < es.length, (b.after (es.take k)).Fits

theorem allFit_cons : b.AllFit (e :: es) ↔ b.Fits ∧ (b.retry e).1.AllFit es := by
  constructor
  · intro h
    exact ⟨h 0 (by simp), fun k hk => h (k + 1) (by simpa using hk)⟩
  · rintro ⟨hfirst, hrest⟩ k hk
    cases k with
    | zero => exact hfirst
    | succ k => exact hrest k (by simpa using hk)

/-- Calls that fit never shorten the timeout. -/
theorem Sound.sorted (h : b.Sound) (hfit : b.AllFit es) :
    (b.timeouts es).Pairwise (· ≤ ·) ∧ ∀ t ∈ b.timeouts es, b.timeout ≤ t := by
  induction es generalizing b with
  | nil => simp [timeouts]
  | cons e es ih =>
    obtain ⟨hfirst, hrest⟩ := allFit_cons.mp hfit
    obtain ⟨hnext, hle⟩ := h.retry hfirst e
    obtain ⟨hsorted, hleast⟩ := ih hnext hrest
    have hall : ∀ t ∈ (b.retry e).1.timeouts es, b.timeout ≤ t := fun t ht =>
      Int.le_trans hle (hleast t ht)
    exact ⟨List.pairwise_cons.mpr ⟨hall, hsorted⟩, List.forall_mem_cons.mpr ⟨Int.le_refl _, hall⟩⟩

/-- Where no timeout is negative, every call fits. -/
theorem Sound.allFit (h : b.Sound) (hnonneg : ∀ t ∈ b.timeouts es, 0 ≤ t) : b.AllFit es := by
  induction es generalizing b with
  | nil => exact fun k hk => absurd hk (Nat.not_lt_zero k)
  | cons e es ih =>
    have hrest := (List.forall_mem_cons.mp hnonneg).2
    by_cases hfits : b.Fits
    · exact allFit_cons.mpr ⟨hfits, ih (h.retry hfits e).1 hrest⟩
    · obtain ⟨later, htimeouts⟩ := timeouts_eq_cons (b.retry e).1 es
      have hnext := hrest (b.retry e).1.timeout (by simp [htimeouts])
      exact absurd (h.retry_neg hfits e) (Int.not_lt_of_ge hnext)

/-- The timeouts of a policy that its constructor accepted are never negative exactly as long as each
call's product and sum are signed words, and that is also exactly when they never shrink. -/
theorem timeouts_grow_iff {timeout : Int} {limit : UInt32} {multiplier : Single}
    (hb : Backoff.make timeout limit multiplier = .ok b) (ht : Word.Holds timeout)
    (es : List RequestError) :
    ((∀ t ∈ b.timeouts es, 0 ≤ t) ↔ ∀ k < es.length, (b.after (es.take k)).Fits) ∧
    ((b.timeouts es).Pairwise (· ≤ ·) ↔ ∀ k < es.length, (b.after (es.take k)).Fits) := by
  have hs := Sound.of_make hb ht
  have hnonneg : b.AllFit es → ∀ t ∈ b.timeouts es, 0 ≤ t := fun hfit t hmem =>
    Int.le_trans hs.nonneg ((hs.sorted hfit).2 t hmem)
  refine ⟨⟨hs.allFit, hnonneg⟩, ⟨fun hsorted => hs.allFit fun t hmem => ?_, fun h => (hs.sorted h).1⟩⟩
  obtain ⟨later, htimeouts⟩ := timeouts_eq_cons b es
  rw [htimeouts] at hsorted hmem
  have hfirst : b.timeout ≤ t := by
    obtain rfl | hmem := List.mem_cons.mp hmem
    · exact Int.le_refl _
    · exact (List.pairwise_cons.mp hsorted).1 t hmem
  exact Int.le_trans hs.nonneg hfirst

/-- The standard timeout and multiplier: no call of three goes wrong. -/
theorem timeouts_grow_standard :
    Backoff.make 2500 1 Single.one = .ok {} ∧
      ({} : Backoff).timeouts (List.replicate 3 { kind := .timeout }) = [2500, 5000, 10000, 20000] ∧
      ∀ k < 3, (({} : Backoff).after ((List.replicate 3 { kind := .timeout }).take k)).Fits := by
  have hmake : Backoff.make 2500 1 Single.one = .ok {} := rfl
  have htimeouts : ({} : Backoff).timeouts (List.replicate 3 { kind := .timeout }) =
      [2500, 5000, 10000, 20000] := by decide +kernel
  have hgrow := (timeouts_grow_iff hmake (by decide) (List.replicate 3 { kind := .timeout })).1
  exact ⟨hmake, htimeouts, hgrow.mp (by rw [htimeouts]; decide)⟩

/-- The greatest timeout that the constructor accepts: its product with one is rounded to a number that
no signed word holds, and the next timeout is negative. -/
theorem timeout_greatest_retry : ∃ b, Backoff.make 9223372036854775807 1 Single.one = .ok b ∧
    b.product = some 9223372036854775808 ∧ ¬b.Fits ∧
    b.timeouts [{ kind := .timeout }] = [9223372036854775807, -1] := by
  refine ⟨_, rfl, by decide +kernel, ?_, by decide +kernel⟩
  rintro ⟨n, hn, hholds, -⟩
  obtain rfl : n = 9223372036854775808 := Option.some.inj (hn.symm.trans (by decide +kernel))
  exact absurd hholds (by decide)

/-- The standard policy doubles its timeout, and not more than 51 times. -/
example : (({} : Backoff).after (List.replicate 51 { kind := .timeout })).timeout = 5629499534213120000 ∧
    (({} : Backoff).after (List.replicate 52 { kind := .timeout })).timeout < 0 := by
  decide +kernel

end Backoff

end RequestFlow
