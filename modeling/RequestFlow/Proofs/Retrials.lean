import RequestFlow.Proofs.PlainLoop

/-!
# Retried failures

What the standard classifier does to a request, one failure after the other.  A failure that is tried
again counts one retry, sets the next timeout and leaves a marker with the timeout that there was
before; nothing else of the request changes, so it is categorized as it was at the first attempt.  A
failure that ends the request leaves it alone, unless the policy refuses the retry: then the refusal
is counted and marked in the same way.

    after a list of trials the markers are theirs                              (Retried.markers)
    the count is their number, and the policy had so many retries left         (Retried.backoff, left)
    a final failure changes nothing, a refused one is counted and marked       (classify_ended)
-/

namespace RequestFlow

/-- The reason for which the failure is a candidate for a retry. -/
def Category.reason? : Category → Option RetryReason
  | final _ => none
  | candidate reason _ => some reason

def Request.reason? (r : Request) (x : FailureContext) : Option RetryReason :=
  (categorize r x).reason?

/-- A failed attempt that was tried again. -/
structure Trial where
  timeout : Int
  context : FailureContext
  reason : RetryReason
  deriving DecidableEq, Repr

namespace Trial

def marker (t : Trial) : Bytes := retryMarker t.reason t.timeout

end Trial

/-- The failures of these trials turn the first request into the second one. -/
inductive Request.Retried (r : Request) : List Trial → Request → Prop
  | none : Retried r [] r
  | again {l : List Trial} {q : Request} {x : FailureContext} {reason : RetryReason}
    (h : Retried r l q) (granted : (classify q x).answer = .ok (.retry reason)) :
    Retried r (l ++ [⟨q.timeout, x, reason⟩]) (classify q x).request

/-! ## Lemmas -/

section

variable {q : Request} {x : FailureContext} {reason : RetryReason}

/-- What a granted retry makes of a request. -/
theorem classify_granted (h : (classify q x).answer = .ok (.retry reason)) :
    ∃ e p records, categorize q x = .candidate reason e ∧ q.policy.retry e = .ok (p, true, records) ∧
      (classify q x).request =
        { q with policy := p, history := retryMarker reason q.timeout :: q.history } := by
  unfold classify at h ⊢
  cases hc : categorize q x with
  | final e => simp [hc] at h
  | candidate why e =>
    simp only [hc] at h ⊢
    unfold settleCandidate Request.retry at h ⊢
    cases hr : q.policy.retry e with
    | error f => simp [hr, Except.map] at h
    | ok result =>
      obtain ⟨p, allowed, records⟩ := result
      cases allowed with
      | false => simp [hr, Except.map] at h
      | true =>
        simp only [hr, Except.map, ↓reduceIte, Except.ok.injEq, Decision.retry.injEq] at h ⊢
        subst h
        exact ⟨e, p, records, rfl, hr, rfl⟩

/-- A candidate is granted a retry or refused one.  Its policy counts it either way, and it is
marked. -/
theorem settleCandidate_backoff {b : Backoff} (hb : q.policy = .backoff b) (why : RetryReason)
    (e : RequestError) :
    (settleCandidate q why e).answer =
        .ok (if (b.retry e).2.1 then .retry why else .final e) ∧
      (settleCandidate q why e).request =
        { q with
          policy := .backoff (b.retry e).1
          history := (if (b.retry e).2.1 then retryMarker why q.timeout
            else giveUpMarker why q.timeout) :: q.history } := by
  unfold settleCandidate Request.retry RetryPolicy.retry
  rcases hr : b.retry e with ⟨next, allowed, records⟩
  cases allowed <;> simp [hb, hr, Except.map, Request.addMarker]

/-- What a failure that ends the request makes of it: nothing, unless the policy refused a retry. -/
theorem classify_ended {b : Backoff} (hb : q.policy = .backoff b)
    (h : ∀ reason, (classify q x).answer ≠ .ok (.retry reason)) :
    (q.reason? x = none ∧ (classify q x).request = q) ∨
      ∃ why e, q.reason? x = some why ∧ (b.retry e).2.1 = false ∧
        (classify q x).request =
          { q with
            policy := .backoff (b.retry e).1
            history := giveUpMarker why q.timeout :: q.history } := by
  unfold classify at h ⊢
  cases hc : categorize q x with
  | final e => exact .inl ⟨by simp [Request.reason?, hc, Category.reason?], rfl⟩
  | candidate why e =>
    refine .inr ⟨why, e, by simp [Request.reason?, hc, Category.reason?], ?_⟩
    obtain ⟨answer, request⟩ := settleCandidate_backoff hb why e
    have refused : (b.retry e).2.1 = false := by
      refine Bool.eq_false_iff.2 fun allowed => ?_
      have other := h why
      simp only [hc] at other
      rw [answer, if_pos allowed] at other
      exact other rfl
    refine ⟨refused, ?_⟩
    dsimp only
    rw [request, refused]
    rfl

end

theorem RetryPolicy.bounded_of_fresh {p : RetryPolicy} {b : Backoff} (hp : p = .backoff b)
    (count : b.count = 0) (small : b.limit.toNat + 1 < UInt32.size) : p.Bounded := by
  rw [hp]
  exact ⟨by rw [count]; exact Nat.zero_le _, small⟩

namespace Request.Retried

variable {r q : Request} {l : List Trial}

/-- A request that was retried differs in its policy and its markers. -/
theorem like (h : r.Retried l q) : q = { r with policy := q.policy, history := q.history } := by
  induction h with
  | none => rfl
  | again h granted ih =>
    obtain ⟨e, p, records, -, -, request⟩ := classify_granted granted
    rw [request]
    rw [ih]

theorem reason? (h : r.Retried l q) (x : FailureContext) : q.reason? x = r.reason? x := by
  rw [h.like]
  rfl

theorem cache (h : r.Retried l q) : q.cache = r.cache := by rw [h.like]

theorem reasons (h : r.Retried l q) : ∀ t ∈ l, r.reason? t.context = some t.reason := by
  induction h with
  | none => simp
  | again h granted ih =>
    obtain ⟨e, p, records, category, -, -⟩ := classify_granted granted
    intro t ht
    rcases List.mem_append.1 ht with ht | ht
    · exact ih t ht
    · rw [List.mem_singleton.1 ht, ← h.reason?]
      simp [Request.reason?, category, Category.reason?]

theorem markers (h : r.Retried l q) : q.markers = r.markers ++ l.map Trial.marker := by
  induction h with
  | none => simp
  | @again l q x reason h granted ih =>
    obtain ⟨e, p, records, -, -, request⟩ := classify_granted granted
    have marked : (classify q x).request.markers = q.markers ++ [retryMarker reason q.timeout] := by
      simp [request, Request.markers]
    rw [marked, ih, List.map_append, List.append_assoc]
    rfl

/-- Each retry is counted by the policy. -/
theorem backoff {b : Backoff} (h : r.Retried l q) (hb : r.policy = .backoff b) :
    ∃ b', q.policy = .backoff b' ∧ b'.limit = b.limit ∧
      b'.count = b.count + UInt32.ofNat l.length := by
  induction h with
  | none => exact ⟨b, hb, rfl, by simp⟩
  | @again l q x reason h granted ih =>
    obtain ⟨b', policy, limit, count⟩ := ih
    obtain ⟨e, p, records, -, retry, request⟩ := classify_granted granted
    have next : p = .backoff (b'.retry e).1 := by
      rw [policy] at retry
      simp only [RetryPolicy.retry, Except.ok.injEq, Prod.mk.injEq] at retry
      exact retry.1.symm
    refine ⟨(b'.retry e).1, by rw [request, ← next], ?_, ?_⟩
    · rw [Backoff.limit_retry, limit]
    · rw [Backoff.count_retry, count, List.length_append, UInt32.ofNat_add, UInt32.add_assoc]
      rfl

/-- Each retry is one that the policy had left. -/
theorem left (h : r.Retried l q) (hb : r.policy.Bounded) :
    q.policy.Bounded ∧ q.policy.left + l.length = r.policy.left := by
  induction h with
  | none => exact ⟨hb, rfl⟩
  | again h granted ih =>
    obtain ⟨bounded, left⟩ := ih
    obtain ⟨bounded', left'⟩ := classify_retry bounded granted
    refine ⟨bounded', ?_⟩
    rw [List.length_append, List.length_singleton]
    omega

section

variable {b : Backoff} (hb : r.policy = .backoff b) (count : b.count = 0)
  (small : b.limit.toNat + 1 < UInt32.size)
include hb count small

/-- Each retry is one of those that a fresh policy allows. -/
theorem length_le (h : r.Retried l q) : l.length ≤ b.limit.toNat := by
  have left := (h.left (RetryPolicy.bounded_of_fresh hb count small)).2
  have all : r.policy.left = b.limit.toNat := by
    rw [hb, RetryPolicy.left, count]
    rfl
  omega

/-- A count that cannot wrap around is a number of trials, also with a refused one. -/
theorem toNat_count (h : r.Retried l q) {n : Nat} (hn : n ≤ l.length + 1) :
    (UInt32.ofNat n).toNat = n := by
  have tried := length_le hb count small h
  exact UInt32.toNat_ofNat_of_lt' (by omega)

end

end Request.Retried

end RequestFlow
