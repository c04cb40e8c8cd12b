import RequestFlow.Proofs.Declining

/-!
# Policies that refuse

A backoff policy refuses sooner or later, unless its limit is the last count that a word holds.  So a
request whose cached tag makes no header comes to an end by itself: each attempt fails where it
begins, and is tried again as long as the policy grants that.  Neither the transport nor the executor
is needed for it, and the transport is not even asked.

    a policy refuses in the end exactly if its count can pass its limit    (exists_refusesAfter_iff)
    an attempt that cannot be sent is the last one, or costs a retry       (Futile.attempt)
    performing such a request tells the failure in so many steps           (Barred.ends)
    headers are made as they should be, or nothing is sent at all          (confirms_exactly)
-/

namespace RequestFlow

/-- The policy grants so many retries, whatever failed, and refuses the next one. -/
def RetryPolicy.RefusesAfter : Nat → RetryPolicy → Prop
  | 0, p => ∀ e, ∃ q records, p.retry e = .ok (q, false, records)
  | n + 1, p => ∀ e, ∃ q records, p.retry e = .ok (q, true, records) ∧ q.RefusesAfter n

namespace World

/-- The request can be performed by the network with its standard classifier, but its cached tag
makes no header.  Its policy grants so many retries. -/
structure Barred (w : World) (i : Nat) (f : Fault) (n : Nat) : Prop where
  present : w.present = true
  hasExecutor : w.hasExecutor = true
  classifier : w.classifiers.getD w.classifier .standard = .standard
  stored : ∃ q, w.requestAt? i = some q ∧ CacheEntry.conditionalHeaders q.cache = .error f ∧
    q.policy.RefusesAfter n

/-- The call has one attempt registered, which cannot be sent. -/
structure Futile (w : World) (c : Nat) (p : Performance) (f : Fault) (n : Nat) : Prop where
  inside : c < w.calls.size
  call : ∃ k, w.callAt c = ⟨p.request, p.onSuccess, p.onError, k, 1, false⟩
  classifier : w.classifierOf c = .standard
  stored : ∃ q, w.requestAt? p.request = some q ∧
    CacheEntry.conditionalHeaders q.cache = .error f ∧ q.policy.RefusesAfter n

/-- So many attempts were made, of this call, and all are resolved.  The transport was not asked. -/
structure Tries (w w' : World) (c n : Nat) : Prop where
  attempts : ∃ l, w'.attempts.toList = w.attempts.toList ++ l ∧ l.length = n ∧
    ∀ a ∈ l, a.call = c ∧ a.resolved = true
  transport : w'.transport = w.transport

/-- The call was told that there is no connection, after at most so many attempts. -/
structure Refused (w w' : World) (i c n : Nat) : Prop where
  tries : ∃ k, 0 < k ∧ k ≤ n ∧ w.Tries w' c k
  told : ∃ e, w'.told c = w.told c ++ [.failure c i e] ∧ e.kind = .noConnection

end World

/-! ## Policies -/

namespace RetryPolicy

variable {p : RetryPolicy} {b : Backoff} {n : Nat}

theorem retry_backoff (b : Backoff) (e : RequestError) :
    (backoff b).retry e = .ok (.backoff (b.retry e).1, (b.retry e).2.1, (b.retry e).2.2) := rfl

/-- Only a backoff can refuse; the other kind fails instead. -/
theorem RefusesAfter.backoff (h : p.RefusesAfter n) : ∃ b, p = .backoff b := by
  cases p with
  | backoff b => exact ⟨b, rfl⟩
  | failing message =>
    cases n with
    | zero =>
      obtain ⟨q, records, never⟩ := h { kind := .network }
      cases never
    | succ n =>
      obtain ⟨q, records, never, -⟩ := h { kind := .network }
      cases never

theorem RefusesAfter.small (h : (RetryPolicy.backoff b).RefusesAfter n) :
    b.limit.toNat + 1 < UInt32.size := by
  induction n generalizing b with
  | zero =>
    obtain ⟨q, records, refused⟩ := h { kind := .network }
    simp only [retry_backoff, Except.ok.injEq, Prod.mk.injEq] at refused
    have beyond := mt (Backoff.retry_allows_iff b { kind := .network }).2 (by rw [refused.2.1]; decide)
    rw [UInt32.le_iff_toNat_le] at beyond
    have := (b.count + 1).toNat_lt
    simp only [UInt32.size] at this ⊢
    omega
  | succ n ih =>
    obtain ⟨q, records, granted, next⟩ := h { kind := .network }
    simp only [retry_backoff, Except.ok.injEq, Prod.mk.injEq] at granted
    rw [← granted.1] at next
    have := ih next
    rwa [Backoff.limit_retry] at this

/-- A count that is not past the limit passes it after the retries in between. -/
theorem refusesAfter_of_le (small : b.limit.toNat + 1 < UInt32.size)
    (room : b.count.toNat + n = b.limit.toNat) : (RetryPolicy.backoff b).RefusesAfter n := by
  have next : (b.count + 1).toNat = b.count.toNat + 1 := by
    rw [UInt32.toNat_add]
    exact Nat.mod_eq_of_lt (by simp only [UInt32.size] at small; simp; omega)
  induction n generalizing b with
  | zero =>
    intro e
    have refused : (b.retry e).2.1 = false := by
      rw [Bool.eq_false_iff, Ne, Backoff.retry_allows_iff, UInt32.le_iff_toNat_le]
      omega
    exact ⟨_, _, by rw [retry_backoff, refused]⟩
  | succ n ih =>
    intro e
    have granted : (b.retry e).2.1 = true := by
      rw [Backoff.retry_allows_iff, UInt32.le_iff_toNat_le]
      omega
    refine ⟨_, _, by rw [retry_backoff, granted], ih ?_ ?_ ?_⟩
    · rwa [Backoff.limit_retry]
    · rw [Backoff.limit_retry, Backoff.count_retry]
      omega
    · rw [Backoff.count_retry, UInt32.toNat_add, next]
      exact Nat.mod_eq_of_lt (by simp only [UInt32.size] at small; simp; omega)

/-- A policy refuses in the end exactly if it counts retries and its count can pass its limit. -/
theorem exists_refusesAfter_iff :
    (∃ n, p.RefusesAfter n) ↔ ∃ b, p = .backoff b ∧ b.limit.toNat + 1 < UInt32.size := by
  constructor
  · rintro ⟨n, h⟩
    obtain ⟨b, rfl⟩ := h.backoff
    exact ⟨b, rfl, h.small⟩
  · rintro ⟨b, rfl, small⟩
    by_cases room : b.count.toNat ≤ b.limit.toNat
    · exact ⟨_, refusesAfter_of_le small (Nat.add_sub_cancel' room)⟩
    · by_cases wraps : b.count + 1 ≤ b.limit
      · -- the count was the last one, and begins anew
        refine ⟨b.limit.toNat + 1, fun e => ?_⟩
        have granted := (Backoff.retry_allows_iff b e).2 wraps
        refine ⟨_, _, by rw [retry_backoff, granted], refusesAfter_of_le ?_ ?_⟩
        · rwa [Backoff.limit_retry]
        · have count : (b.count + 1).toNat = 0 := by
            rw [UInt32.le_iff_toNat_le, UInt32.toNat_add] at wraps
            rw [UInt32.toNat_add]
            have := b.count.toNat_lt
            simp at wraps ⊢
            omega
          rw [Backoff.limit_retry, Backoff.count_retry, count, Nat.zero_add]
      · refine ⟨0, fun e => ?_⟩
        have refused : (b.retry e).2.1 = false := by
          rw [Bool.eq_false_iff, Ne, Backoff.retry_allows_iff]
          exact wraps
        exact ⟨_, _, by rw [retry_backoff, refused]⟩

end RetryPolicy

/-! ## Attempts -/

namespace World

variable {w w' w'' : World} {c n k : Nat} {p : Performance} {f : Fault}

theorem Tries.trans (h : w.Tries w' c n) (h' : w'.Tries w'' c k) : w.Tries w'' c (n + k) := by
  obtain ⟨l, attempts, size, sound⟩ := h.attempts
  obtain ⟨l', attempts', size', sound'⟩ := h'.attempts
  refine ⟨⟨l ++ l', ?_, ?_, ?_⟩, h'.transport.trans h.transport⟩
  · rw [attempts', attempts, List.append_assoc]
  · rw [List.length_append, size, size']
  · intro a ha
    rcases List.mem_append.1 ha with ha | ha
    · exact sound a ha
    · exact sound' a ha

theorem Tries.of_eq (attempts : w'.attempts = w.attempts) (transport : w'.transport = w.transport) :
    w.Tries w' c 0 :=
  ⟨⟨[], by rw [attempts, List.append_nil], rfl, by simp⟩, transport⟩

theorem Futile.requestOf (h : w.Futile c p f n) {q : Request}
    (stored : w.requestAt? p.request = some q) : w.requestOf c = q := by
  obtain ⟨k, call⟩ := h.call
  rw [World.requestOf, call, stored]
  rfl

/-- An attempt that cannot be sent is resolved as it begins, and fails. -/
theorem Futile.begin (h : w.Futile c p f n) (stack : List Frame) :
    ∃ w' x, Machine.begin w c stack = Machine.doing w' (.fail c x) stack ∧ x.Unsent f ∧
      w'.Futile c p f n ∧ w.Tries w' c 1 ∧ w'.told c = w.told c := by
  obtain ⟨q, stored, bad, -⟩ := h.stored
  have made : CacheEntry.conditionalHeaders ((w.openAttempt c).2.requestOf c).cache = .error f := by
    rw [show (w.openAttempt c).2.requestOf c = q from h.requestOf stored]
    exact bad
  have attempts : ((w.openAttempt c).2.resolve w.attempts.size).attempts.toList =
      w.attempts.toList ++ [⟨c, w.clock, true⟩] := by
    show ((w.attempts.push ⟨c, w.clock, false⟩).modify w.attempts.size _).toList = _
    rw [Array.toList_modify, Array.toList_push, List.modify_eq_take_cons_drop (by simp)]
    simp
  refine ⟨(w.openAttempt c).2.resolve w.attempts.size, { failure := ⟨.io, f.message⟩, networkTime :=
    ((w.openAttempt c).2.resolve w.attempts.size).elapsed w.attempts.size }, ?_, ⟨rfl, rfl⟩,
    ⟨h.inside, h.call, h.classifier, h.stored⟩, ⟨⟨_, attempts, rfl, by simp⟩, rfl⟩, rfl⟩
  unfold Machine.begin
  dsimp only
  rw [made]
  rfl

/-- A failed attempt is the last one, or costs a retry. -/
theorem Futile.fail (h : w.Futile c p f n) {x : FailureContext} (unsent : x.Unsent f)
    (stack : List Frame) :
    ∃ w', w.Tries w' c 0 ∧ w'.told c = w.told c ∧ w'.calls = w.calls ∧
      ((∃ e, e.kind = .noConnection ∧ Machine.fail w c x stack =
          Machine.doing w' (.settle c x.networkTime (.ok (.final e))) stack) ∨
        ∃ reason k, n = k + 1 ∧ w'.Futile c p f k ∧ Machine.fail w c x stack =
          Machine.doing w' (.settle c x.networkTime (.ok (.retry reason))) stack) := by
  obtain ⟨q, stored, bad, refuses⟩ := h.stored
  obtain ⟨b, policy⟩ := refuses.backoff
  obtain ⟨k, call⟩ := h.call
  have judged : (w.classifierOf c).judge (w.requestOf c) x = (classify q x, .standard) := by
    rw [h.classifier, h.requestOf stored]
    rfl
  obtain ⟨requests, -, calls, transport, -, -⟩ := Machine.fail_world w c x stack
  have settles : Machine.fail w c x stack = Machine.doing (Machine.fail w c x stack).world
      (.settle c x.networkTime (classify q x).answer) stack := by
    rw [← congrArg (·.1.answer) judged]
    rfl
  rw [judged] at requests
  have same : (Machine.fail w c x stack).world.callAt c = w.callAt c := by
    rw [World.callAt, calls]
    rfl
  refine ⟨(Machine.fail w c x stack).world, .of_eq rfl transport, Machine.told_fail w c x stack c,
    calls, ?_⟩
  rcases classify_unsent policy unsent with ⟨reason, granted⟩ | ⟨e, final, kind⟩
  · obtain ⟨e, next, records, -, retried, request⟩ := classify_granted granted
    rw [granted] at settles
    have changed := World.requestAt?_setIfInBounds requests p.request
    rw [if_pos ⟨by rw [call], World.inside_of_requestAt? stored⟩, request] at changed
    cases n with
    | zero =>
      obtain ⟨_, _, refused⟩ := refuses e
      rw [retried] at refused
      cases refused
    | succ n =>
      obtain ⟨q', _, granted', rest⟩ := refuses e
      rw [retried] at granted'
      cases granted'
      exact .inr ⟨reason, n, rfl, ⟨calls ▸ h.inside, ⟨k, same.trans call⟩,
        Machine.fail_classifierOf h.classifier x stack, _, changed, bad, rest⟩, settles⟩
  · rw [final] at settles
    exact .inl ⟨e, kind, settles⟩

/-- A retry comes back to the loop of the call, which begins the next attempt. -/
theorem Futile.retry (h : w.Futile c p f n) (time : Int) (reason : RetryReason) (stack : List Frame) :
    ∃ w', w'.Futile c p f n ∧ w.Tries w' c 0 ∧ w'.told c = w.told c ∧ ∀ m,
      Machine.run (m + 3)
          (Machine.doing w (.settle c time (.ok (.retry reason))) (.attempts c :: stack)) =
        Machine.run m (Machine.doing w' (.begin c) (.attempts c :: stack)) := by
  obtain ⟨k, call⟩ := h.call
  let logged := w.logFor c .debug (text "Retrying (" ++ reason.label ++ text ")")
  let registered := logged.setCall c ⟨p.request, p.onSuccess, p.onError, k, 2, false⟩
  have registers : Machine.dispatch logged c (.attempts c :: stack) =
      Machine.finished registered (.attempts c :: stack) := by
    unfold Machine.dispatch
    rw [show logged.callAt c = _ from call]
    rfl
  have two : registered.callAt c = ⟨p.request, p.onSuccess, p.onError, k, 2, false⟩ := by
    rw [World.callAt_setCall _ _ (show c < logged.calls.size from h.inside), if_pos rfl]
  have again : Machine.nextAttempt registered c stack =
      Machine.doing (registered.setCall c ⟨p.request, p.onSuccess, p.onError, k, 1, false⟩) (.begin c)
        (.attempts c :: stack) := by
    unfold Machine.nextAttempt
    rw [two]
    rfl
  have inside : c < registered.calls.size := by
    rw [World.size_setCall]
    exact h.inside
  have one := World.callAt_setCall registered ⟨p.request, p.onSuccess, p.onError, k, 1, false⟩ inside c
  rw [if_pos rfl] at one
  have told : logged.told c = w.told c := (w.told_note _ c).trans (List.append_nil _)
  refine ⟨_, ⟨by rwa [World.size_setCall], ⟨k, one⟩, ?_, h.stored⟩, .of_eq rfl rfl, told, fun m => ?_⟩
  · have standard := h.classifier
    rw [World.classifierOf, call] at standard
    rw [World.classifierOf, one]
    exact standard
  · show Machine.run (m + 1) (Machine.dispatch logged c (.attempts c :: stack)) = _
    rw [registers, ← again]
    rfl

/-- A call that is told of its last failure has its continuation react to it. -/
theorem tell_failure {k : Nat} (inside : c < w.calls.size)
    (call : w.callAt c = ⟨p.request, p.onSuccess, p.onError, k, 1, false⟩) (e : RequestError)
    (time : Int) (stack : List Frame) :
    ∃ w', w.Tries w' c 0 ∧ w'.told c = w.told c ++ [.failure c p.request e] ∧
      (w'.callAt c).pending = 1 ∧ ∀ m,
      Machine.run (m + 2) (Machine.doing w (.settle c time (.ok (.final e))) stack) =
        Machine.run m (Machine.doing w' (.react p.onError) stack) := by
  let ended := w.setCall c ⟨p.request, p.onSuccess, p.onError, k, 1, true⟩
  have tells : Machine.complete w c (.error e) stack =
      Machine.doing (ended.note (.failure c p.request e)) (.react p.onError) stack := by
    unfold Machine.complete
    rw [call]
    rfl
  refine ⟨ended.note (.failure c p.request e), .of_eq rfl rfl, ?_, ?_,
    fun m => congrArg (Machine.run m) tells⟩
  · rw [World.told_note, if_pos (by simp [Event.answers])]
    rfl
  · have same := w.callAt_setCall ⟨p.request, p.onSuccess, p.onError, k, 1, true⟩ inside c
    rw [if_pos rfl] at same
    exact congrArg Call.pending same

/-- An attempt of such a call is the last one, or costs a retry. -/
theorem Futile.attempt (h : w.Futile c p f n) (stack : List Frame) :
    (∃ w', w.Refused w' p.request c 1 ∧ (w'.callAt c).pending = 1 ∧ ∀ m,
        Machine.run (m + 4) (Machine.doing w (.begin c) (.attempts c :: stack)) =
          Machine.run m (Machine.doing w' (.react p.onError) (.attempts c :: stack))) ∨
      ∃ k w', n = k + 1 ∧ w'.Futile c p f k ∧ w.Tries w' c 1 ∧ w'.told c = w.told c ∧ ∀ m,
        Machine.run (m + 5) (Machine.doing w (.begin c) (.attempts c :: stack)) =
          Machine.run m (Machine.doing w' (.begin c) (.attempts c :: stack)) := by
  obtain ⟨begun, x, begins, unsent, futile, one, quiet⟩ := h.begin (.attempts c :: stack)
  obtain ⟨failed, none, quiet', calls, ⟨e, kind, final⟩ | ⟨reason, k, rfl, left, granted⟩⟩ :=
    futile.fail unsent (.attempts c :: stack)
  · obtain ⟨k, call⟩ := futile.call
    have same : failed.callAt c = ⟨p.request, p.onSuccess, p.onError, k, 1, false⟩ := by
      rw [World.callAt, calls]
      exact call
    obtain ⟨w', none', told, last, ran⟩ := tell_failure (calls ▸ futile.inside) same e x.networkTime
      (.attempts c :: stack)
    rw [quiet', quiet] at told
    refine .inl ⟨w', ⟨⟨1, by decide, by decide, (one.trans none).trans none'⟩, e, told, kind⟩, last,
      fun m => ?_⟩
    calc Machine.run (m + 4) (Machine.doing w (.begin c) (.attempts c :: stack))
      _ = Machine.run (m + 3) (Machine.begin w c (.attempts c :: stack)) := rfl
      _ = Machine.run (m + 2) (Machine.fail begun c x (.attempts c :: stack)) := by rw [begins]; rfl
      _ = _ := by rw [final]; exact ran m
  · obtain ⟨w', futile', none', quiet'', ran⟩ := left.retry x.networkTime reason stack
    refine .inr ⟨k, w', rfl, futile', (one.trans none).trans none',
      quiet''.trans (quiet'.trans quiet), fun m => ?_⟩
    calc Machine.run (m + 5) (Machine.doing w (.begin c) (.attempts c :: stack))
      _ = Machine.run (m + 4) (Machine.begin w c (.attempts c :: stack)) := rfl
      _ = Machine.run (m + 3) (Machine.fail begun c x (.attempts c :: stack)) := by rw [begins]; rfl
      _ = _ := by rw [granted]; exact ran m

/-- The attempts of such a call come to an end, and its continuation is told. -/
theorem Futile.ends (h : w.Futile c p f n) (stack : List Frame) :
    ∃ k ≤ 5 * n + 4, ∃ w', w.Refused w' p.request c (n + 1) ∧ (w'.callAt c).pending = 1 ∧ ∀ m,
      Machine.run (m + k) (Machine.doing w (.begin c) (.attempts c :: stack)) =
        Machine.run m (Machine.doing w' (.react p.onError) (.attempts c :: stack)) := by
  induction n generalizing w with
  | zero =>
    rcases h.attempt stack with ⟨w', refused, last, ran⟩ | ⟨k, w', impossible, -⟩
    · exact ⟨4, Nat.le_refl _, w', refused, last, ran⟩
    · omega
  | succ n ih =>
    rcases h.attempt stack with ⟨w', refused, last, ran⟩ | ⟨k, w', one, futile, tried, quiet, ran⟩
    · obtain ⟨l, some, few, tries⟩ := refused.tries
      exact ⟨4, by omega, w', ⟨⟨l, some, by omega, tries⟩, refused.told⟩, last, ran⟩
    · obtain rfl : n = k := by omega
      obtain ⟨k, small, w'', ⟨⟨l, some, few, tries⟩, told⟩, last, ends⟩ := ih futile
      rw [quiet] at told
      exact ⟨k + 5, by omega, w'', ⟨⟨1 + l, by omega, by omega, tried.trans tries⟩, told⟩, last,
        fun m => (ran (m + k)).trans (ends m)⟩

/-- Performing such a request tells its continuation, after a bounded number of steps. -/
theorem Barred.ends (h : w.Barred p.request f n) (stack : List Frame) :
    ∃ k ≤ 5 * n + 6, ∃ w', w.Refused w' p.request w.calls.size (n + 1) ∧
      (w'.callAt w.calls.size).pending = 1 ∧ ∀ m,
        Machine.run (m + k) (Machine.doing w (.perform p) stack) =
          Machine.run m (Machine.doing w' (.react p.onError) (.attempts w.calls.size :: stack)) := by
  obtain ⟨q, stored, bad, refuses⟩ := h.stored
  let opened := (w.openCall p).2
  let registered := opened.setCall w.calls.size
    ⟨p.request, p.onSuccess, p.onError, w.classifier, 1, false⟩
  have call : opened.callAt w.calls.size =
      ⟨p.request, p.onSuccess, p.onError, w.classifier, 0, false⟩ := by
    rw [World.callAt_openCall, if_pos rfl]
  have inside : w.calls.size < opened.calls.size := by
    show w.calls.size < (w.calls.push _).size
    rw [Array.size_push]
    exact Nat.lt_succ_self _
  have performs : Machine.perform w p stack = Machine.doing opened (.dispatch w.calls.size) stack := by
    unfold Machine.perform
    rw [h.present, h.hasExecutor, stored]
    rfl
  have registers : Machine.dispatch opened w.calls.size stack =
      Machine.doing registered (.begin w.calls.size) (.attempts w.calls.size :: stack) := by
    unfold Machine.dispatch
    rw [call]
    rfl
  have one := opened.callAt_setCall
    ⟨p.request, p.onSuccess, p.onError, w.classifier, 1, false⟩ inside w.calls.size
  rw [if_pos rfl] at one
  have futile : registered.Futile w.calls.size p f n := by
    refine ⟨by rwa [World.size_setCall], ⟨_, one⟩, ?_, h.stored⟩
    rw [World.classifierOf, one]
    exact h.classifier
  obtain ⟨k, small, w', ⟨⟨l, some, few, attempts, transport⟩, told⟩, last, ends⟩ := futile.ends stack
  refine ⟨k + 2, by omega, w', ⟨⟨l, some, few, attempts, transport⟩, told⟩, last, fun m => ?_⟩
  calc Machine.run (m + (k + 2)) (Machine.doing w (.perform p) stack)
    _ = Machine.run (m + k + 1) (Machine.perform w p stack) := rfl
    _ = Machine.run (m + k) (Machine.dispatch opened w.calls.size stack) := by rw [performs]; rfl
    _ = _ := by rw [registers]; exact ends m

/-- A loop with nothing more to do ends once its continuation rests. -/
theorem run_rest (w : World) (last : (w.callAt c).pending = 1) (stack : List Frame) :
    ∃ w', w'.attempts = w.attempts ∧ w'.transport = w.transport ∧ w'.trace = w.trace ∧
      Machine.run 2 (Machine.doing w (.react .rest) (.attempts c :: stack)) =
        Machine.finished w' stack := by
  have ends : Machine.nextAttempt w c stack =
      Machine.finished (w.setCall c (w.callAt c).retire.2) stack := by
    unfold Machine.nextAttempt Call.retire
    rw [last]
    rfl
  exact ⟨w.setCall c (w.callAt c).retire.2, rfl, rfl, rfl, ends⟩

end World

/-! ## Results -/

/-- What confirms an entry: its fields, which are no headers exactly if its tag has a bad byte. -/
structure CacheEntry.Exact (e : CacheEntry) : Prop where
  error : (∃ f, conditionalHeaders (some e) = .error f) ↔ ∃ b ∈ e.etag, IsBadByte b
  fields : ∀ headers, conditionalHeaders (some e) = .ok headers →
    headers.map (fun h => (h.name, h.value)) = e.fields
  date : (httpDate e.lastModified).length = 29
  validators : ∀ headers, conditionalHeaders (some e) = .ok headers →
    (headers ≠ [] ↔ e.hasValidators = true)

theorem CacheEntry.exact {e : CacheEntry} (h : Word.Holds e.lastModified) : e.Exact :=
  ⟨conditionalHeaders_error_iff h, fun _ => conditionalHeaders_fields h, length_httpDate _,
    fun _ => conditionalHeaders_ne_nil⟩

namespace Network

/-- What the transport was asked for is what confirms the entry, on one line for each field. -/
theorem Asks.sent {s : Network} {c : Nat} {made : Except Fault (List Header)}
    (h : s.Asks c made) {headers : List Header} {timeout : Int}
    (sent : .sent c headers timeout ∈ s.world.trace) :
    made = .ok headers ∧ ∀ h ∈ headers, ∀ b ∈ h.raw, b ≠ 13 ∧ b ≠ 10 ∧ b ≠ 0 := 
  ⟨h.asked headers (World.mem_asked.2 ⟨timeout, sent⟩), fun h _ => h.raw_unbroken⟩

/-- **Validation is exact, or nothing is sent.**  The fields that confirm an entry are its trimmed tag
and its date, and they can be made unless the tag has a bad byte.  Whatever the calls of a request
come to, the transport is asked with these headers at each attempt, and none of them breaks a line.
If they cannot be made, the transport is not asked at all: each attempt fails where it begins, without
a response, and the continuation is told once that there is no connection.  Performing such a request
comes to that end by itself, after no more attempts than the policy allows. -/
theorem confirms_exactly :
    (∀ e : CacheEntry, Word.Holds e.lastModified → e.Exact) ∧
      (∀ (i : Nat) (r : Request) (s : Network), Recorded i r s → ∀ c < s.world.calls.size,
        (s.world.callAt c).request = i →
          (∀ headers timeout, .sent c headers timeout ∈ s.world.trace →
            CacheEntry.conditionalHeaders r.cache = .ok headers ∧
              ∀ h ∈ headers, ∀ b ∈ h.raw, b ≠ 13 ∧ b ≠ 10 ∧ b ≠ 0) ∧
          ∀ f n, CacheEntry.conditionalHeaders r.cache = .error f → r.policy.RefusesAfter n →
            s.Declined i c f ∧
              (s.Rests c → ∃ e, s.world.told c = [.failure c i e] ∧ e.kind = .noConnection)) ∧
      ∀ (w : World) (p : Performance) (f : Fault) (n : Nat) (stack : List Frame),
        w.Barred p.request f n →
          ∃ k ≤ 5 * n + 6, ∃ w', w.Refused w' p.request w.calls.size (n + 1) ∧
            Machine.run k (Machine.doing w (.perform p) stack) =
              Machine.doing w' (.react p.onError) (.attempts w.calls.size :: stack) ∧
            (p.onError = .rest → ∃ w'', w.Refused w'' p.request w.calls.size (n + 1) ∧
              Machine.run (k + 2) (Machine.doing w (.perform p) stack) =
                Machine.finished w'' stack) := by
  refine ⟨fun e => CacheEntry.exact, ?_, ?_⟩
  · intro i r s h c inside request
    have of : s.world.IsOf i c := fun _ => request
    refine ⟨fun headers timeout => (h.asks of).sent, ?_⟩
    intro f n bad refuses
    obtain ⟨b, policy⟩ := refuses.backoff
    have declined := h.declined of bad policy
    exact ⟨declined, declined.told_once h.reachable inside⟩
  · intro w p f n stack barred
    obtain ⟨k, small, w', refused, last, ran⟩ := barred.ends stack
    refine ⟨k, small, w', refused, ?_, fun rests => ?_⟩
    · have now := ran 0
      rwa [Nat.zero_add] at now
    · obtain ⟨w'', attempts, transport, trace, ends⟩ := World.run_rest w' last stack
      refine ⟨w'', ?_, ?_⟩
      · obtain ⟨⟨l, some, few, tries⟩, e, told, kind⟩ := refused
        refine ⟨⟨l, some, few, tries.trans (.of_eq attempts transport)⟩, e, ?_, kind⟩
        rw [← told, World.told, trace]
        rfl
      · rw [Nat.add_comm, ran 2, rests]
        exact ends

/-- A cached tag that would break a line. -/
def brokenEntry : CacheEntry := { etag := text "v" ++ [13, 10] }

/-- A cached tag with blanks around it, and a date. -/
def soundEntry : CacheEntry := { etag := text " v ", lastModified := 784111777000000000 }

/-- A request that may be tried twice, with what is cached for it. -/
def cachedTwice (e : CacheEntry) : Request :=
  { url := text "u", method := text "GET", cache := some e, policy := .backoff { limit := 1 },
    retryConnectionErrors := true }

/-- A network with that request, and a transport that answers once. -/
def confirming (e : CacheEntry) : World :=
  { requests := #[some (cachedTwice e)]
    transport := { script := [.deliver (.reply (.ofBytes 304 [] []))] } }

theorem confirming_fresh (e : CacheEntry) : (confirming e).Fresh := by
  refine ⟨rfl, rfl, rfl, rfl, ?_⟩
  intro k hk
  cases hk
  rfl

/-- Performing the request. -/
def confirmingRun (e : CacheEntry) (n : Nat) : Network :=
  alone n (Machine.doing (confirming e) (.perform ⟨0, .rest, .rest⟩) [])

theorem confirming_recorded {e : CacheEntry} {n : Nat}
    (standard : ∀ m ∈ trail n (Machine.doing (confirming e) (.perform ⟨0, .rest, .rest⟩) []),
      m.isStandard 0 = true) : Recorded 0 (cachedTwice e) (confirmingRun e n) :=
  .alone (confirming_fresh e) rfl _ n standard

theorem cachedTwice_refuses (e : CacheEntry) : (cachedTwice e).policy.RefusesAfter 1 :=
  RetryPolicy.refusesAfter_of_le (by decide) (by decide)

theorem confirms_exactly_brokenEntry :
    (∃ b ∈ brokenEntry.etag, IsBadByte b) ∧ (confirmingRun brokenEntry 40).Rests 0 ∧
      (∃ e, (confirmingRun brokenEntry 40).world.told 0 = [.failure 0 0 e] ∧ e.kind = .noConnection) ∧
      (∃ k ≤ 11, ∃ w, (confirming brokenEntry).Refused w 0 0 2 ∧
        Machine.run (k + 2) (Machine.doing (confirming brokenEntry) (.perform ⟨0, .rest, .rest⟩) []) =
          Machine.finished w []) ∧
      ∃ headers timeout, .sent 0 headers timeout ∈ (confirmingRun soundEntry 40).world.trace ∧
        headers.map (fun h => (h.name, h.value)) = [(text "If-None-Match", text "v"),
          (text "If-Modified-Since", text "Sun, 06 Nov 1994 08:49:37 GMT")] := by
  obtain ⟨exact, runs, ends⟩ := confirms_exactly
  have badByte : ∃ b ∈ brokenEntry.etag, IsBadByte b :=
    ⟨13, by decide, by decide, by decide, by decide⟩
  obtain ⟨f, bad⟩ := (exact brokenEntry (by decide)).error.2 badByte
  have rests : (confirmingRun brokenEntry 40).Rests 0 := by decide +kernel
  have broken := (runs 0 _ _ (confirming_recorded (n := 40) (by decide +kernel)) 0
    (by decide +kernel) (by decide +kernel)).2 f 1 bad (cachedTwice_refuses brokenEntry)
  have barred : (confirming brokenEntry).Barred 0 f 1 :=
    ⟨rfl, rfl, rfl, cachedTwice brokenEntry, rfl, bad, cachedTwice_refuses brokenEntry⟩
  obtain ⟨k, small, w, -, -, ended⟩ := ends _ ⟨0, .rest, .rest⟩ f 1 [] barred
  obtain ⟨w', refused, ran⟩ := ended rfl
  have asked : (confirmingRun soundEntry 40).world.asked 0 ≠ [] := by decide +kernel
  obtain ⟨headers, one⟩ := List.exists_mem_of_ne_nil _ asked
  obtain ⟨timeout, sent⟩ := World.mem_asked.1 one
  have made := ((runs 0 _ _ (confirming_recorded (n := 40) (by decide +kernel)) 0
    (by decide +kernel) (by decide +kernel)).1 headers timeout sent).1
  refine ⟨badByte, rests, broken.2 rests, ⟨k, small, w', refused, ran⟩, headers, timeout, sent, ?_⟩
  rw [(exact soundEntry (by decide)).fields headers made]
  decide +kernel

end Network

end RequestFlow
