import RequestFlow.Proofs.Asking
import RequestFlow.Proofs.Raising

/-!
# Attempts that are never sent

When a cached tag makes no header, no attempt of the request can be sent.  Each one fails when it
begins, before the transport has heard of it, and the failure is classified as one without a
response.  So the call is only ever at one of a few places, `Instr.Declines`, and its continuation is
told that there was no connection.

    a failure before the transport was asked is retried, or final             (classify_unsent)
    a step leaves the call at one of these places                             (Declined.move)
    at rest the continuation was told so, once                                (Declined.told_once)
-/

namespace RequestFlow

/-- The failure of an attempt whose headers could not be made. -/
def FailureContext.Unsent (x : FailureContext) (f : Fault) : Prop :=
  x.failure = ⟨.io, f.message⟩ ∧ x.response = none

/-- What a thread has in hand for a call whose headers cannot be made. -/
inductive Instr.Declines (c : Nat) (f : Fault) : Instr → Prop
  | dispatch : Declines c f (.dispatch c)
  | fail {x : FailureContext} (h : x.Unsent f) : Declines c f (.fail c x)
  | retry (time : Int) (reason : RetryReason) : Declines c f (.settle c time (.ok (.retry reason)))
  | final (time : Int) {e : RequestError} (h : e.kind = .noConnection) :
    Declines c f (.settle c time (.ok (.final e)))
  | complete {e : RequestError} (h : e.kind = .noConnection) : Declines c f (.complete c (.error e))

/-- The attempt that begins now is resolved in the same step, with such a failure. -/
def Machine.FailsAtOnce (m : Machine) (c : Nat) (f : Fault) : Prop :=
  (m.step.world.attemptAt m.world.attempts.size).resolved = true ∧
    ∃ x : FailureContext, x.Unsent f ∧ m.step.control = .run (.fail c x)

/-- No attempt of the call got further than to its beginning. -/
structure Network.Declined (s : Network) (i c : Nat) (f : Fault) : Prop where
  unresolved : s.world.unresolved c = 0
  queued : s.world.queuedFor c = 0
  hands : ∀ t ∈ s.threads, ∀ x, t.control = .run x → x.hand? s.world = some c → x.Declines c f
  sending : ∀ t ∈ s.threads, ∀ a, .sending a ∈ t.stack → s.world.callOf a ≠ c
  told : ∀ e ∈ s.world.told c, ∃ error, e = .failure c i error ∧ error.kind = .noConnection
  asked : s.world.asked c = []
  begins : ∀ m ∈ s.past, m.control = .run (.begin c) → m.FailsAtOnce c f
  failures : ∀ m ∈ s.past, ∀ x, m.control = .run (.fail c x) → x.Unsent f
  calm : ∀ m ∈ s.past, ¬ m.LeavesUnanswered c

/-- What a step does about such a call. -/
inductive Machine.Proceeds (m m' : Machine) (i c : Nat) (f : Fault) : Prop
  | hand {x : Instr} (h : m'.control = .run x) (hx : x.Declines c f)
  | registers (h : m.act = .register c) (h' : m'.inHand c = 0)
  | tells {e : RequestError} (kind : e.kind = .noConnection)
    (h : m'.world.told c = m.world.told c ++ [.failure c i e])
  | aside (hand : m.inHand c = 0) (begins : m.does (.begin c) = 0)
    (performed : m'.world.performed c = m.world.performed c)

/-! ## Classification -/

theorem categorize_unsent (q : Request) {x : FailureContext} {f : Fault} (h : x.Unsent f) :
    categorize q x = Category.candidateIf q.retryConnectionErrors .connection
      { kind := .noConnection, details := x.failure.message, networkTime := x.networkTime } := by
  simp only [categorize, h.1, categorizeReceived, h.2]

/-- A failure before the transport was asked is tried again, or ends the call without a connection. -/
theorem classify_unsent {q : Request} {x : FailureContext} {f : Fault} {b : Backoff}
    (policy : q.policy = .backoff b) (h : x.Unsent f) :
    (∃ reason, (classify q x).answer = .ok (.retry reason)) ∨
      ∃ e, (classify q x).answer = .ok (.final e) ∧ e.kind = .noConnection := by
  have category := categorize_unsent q h
  unfold classify
  cases flag : q.retryConnectionErrors with
  | false =>
    rw [flag] at category
    rw [show categorize q x = .final _ from category]
    exact .inr ⟨_, rfl, rfl⟩
  | true =>
    rw [flag] at category
    rw [show categorize q x = .candidate .connection _ from category]
    dsimp only
    rw [(settleCandidate_backoff policy .connection _).1]
    split
    · exact .inl ⟨_, rfl⟩
    · exact .inr ⟨_, rfl, rfl⟩

/-! ## Steps -/

namespace Machine

variable {w : World} {stack : List Frame} {m m' : Machine} {past : List Machine} {i c : Nat}
  {f : Fault}

theorem control_of_register (h : m.act = .register c) : m.control = .run (.dispatch c) := by
  unfold act at h
  split at h <;> simp_all

theorem hand_of_declines {x : Instr} (h : x.Declines c f) (w : World) : x.hand? w = some c := by
  cases h <;> rfl

/-- Who has nothing of the call in hand has none of its instructions. -/
theorem hand_of_inHand {x : Instr} (h : m.inHand c = 0) (hx : m.control = .run x) :
    x.hand? m.world ≠ some c := by
  intro same
  rw [inHand, hx] at h
  dsimp only at h
  rw [if_pos same] at h
  cases h

/-- An attempt whose headers cannot be made fails when it begins. -/
theorem begin_declined (stack : List Frame)
    (bad : CacheEntry.conditionalHeaders (w.requestOf c).cache = .error f) :
    FailsAtOnce ⟨w, .run (.begin c), stack⟩ c f ∧ (begin w c stack).stack = stack := by
  have bad' : CacheEntry.conditionalHeaders ((w.openAttempt c).2.requestOf c).cache = .error f := bad
  have now := (w.openAttempt c).2.attemptAt_resolve w.attempts.size w.attempts.size
  rw [if_pos ⟨rfl, by simp [World.openAttempt]⟩] at now
  show (((begin w c stack).world.attemptAt w.attempts.size).resolved = true ∧
    ∃ x : FailureContext, x.Unsent f ∧ (begin w c stack).control = .run (.fail c x)) ∧
      (begin w c stack).stack = stack
  unfold begin
  dsimp only
  rw [bad']
  refine ⟨⟨?_, _, ⟨rfl, rfl⟩, rfl⟩, rfl⟩
  show (((w.openAttempt c).2.resolve w.attempts.size).attemptAt w.attempts.size).resolved = true
  rw [now]

/-- The hand of a thread goes on with the call, or tells its result. -/
theorem proceeds_of_hand {x : Instr} (hx : x.Declines c f) (hm : Moves ⟨w, .run x, stack⟩ m')
    (undone : (w.callAt c).completed = false) (request : (w.callAt c).request = i)
    (judged : ∀ y : FailureContext, y.Unsent f → x = .fail c y →
      m' = fail w c y stack ∧ w.classifierOf c = .standard ∧
        ∃ b, (w.requestOf c).policy = .backoff b) :
    Proceeds ⟨w, .run x, stack⟩ m' i c f := by
  cases hx with
  | dispatch =>
    cases hm
    refine .registers rfl ?_
    show (dispatch w c stack).inHand c = 0
    unfold dispatch
    dsimp only
    split <;> rfl
  | @fail y unsent =>
    obtain ⟨rfl, standard, b, policy⟩ := judged y unsent rfl
    have next := (fail_world w c y stack).2.2.2.2.2
    rw [standard] at next
    rcases classify_unsent policy unsent with ⟨reason, verdict⟩ | ⟨e, verdict, kind⟩
    · rw [show (Classifier.standard.judge (w.requestOf c) y).1.answer = _ from verdict] at next
      exact .hand next (.retry _ reason)
    · rw [show (Classifier.standard.judge (w.requestOf c) y).1.answer = _ from verdict] at next
      exact .hand next (.final _ kind)
  | retry time reason =>
    cases hm
    exact .hand rfl .dispatch
  | final time kind =>
    cases hm
    exact .hand rfl (.complete kind)
  | @complete e kind =>
    cases hm
    have tells := (complete_tells (.error e) stack undone).2
    exact .tells kind (request ▸ tells)

/-- After such a step nothing of the call is unresolved or queued. -/
theorem Proceeds.settled (h : m.Proceeds m' i c f) (hm : m.Moves m') (sound : m.Sound past m')
    (one : m.world.answers c + m.inHand c + m.does (.begin c) ≤ m.world.performed c)
    (unresolved : m.world.unresolved c = 0) (queued : m.world.queuedFor c = 0) :
    m'.world.unresolved c = 0 ∧ m'.world.queuedFor c = 0 ∧
      (∀ x, m'.control = .run x → x.hand? m'.world = some c → x.Declines c f) ∧
      (m'.world.told c = m.world.told c ∨ m'.world.told c = [] ∨
        ∃ e, e.kind = .noConnection ∧ m'.world.told c = m.world.told c ++ [.failure c i e]) := by
  have live := sound.live c
  unfold Machine.live at live
  have performed := m'.world.performed_le_one c
  have lengths := m.world.answers_eq_length c
  have lengths' := m'.world.answers_eq_length c
  cases h with
  | @hand x hc hx =>
    have own : m'.inHand c = 1 := by
      rw [inHand, hc]
      exact if_pos (hand_of_declines hx _)
    refine ⟨by omega, by omega, ?_, .inr (.inl (List.length_eq_zero_iff.1 (by omega)))⟩
    intro y hy _
    cases hc.symm.trans hy
    exact hx
  | registers act none =>
    rw [does_of_eq act] at live
    refine ⟨by omega, by omega, fun x hx hand => absurd hand (hand_of_inHand none hx), ?_⟩
    exact .inr (.inl (List.length_eq_zero_iff.1 (by omega)))
  | tells kind told =>
    have longer := congrArg List.length told
    rw [List.length_append, List.length_singleton] at longer
    have none : m'.inHand c = 0 := by omega
    exact ⟨by omega, by omega, fun x hx hand => absurd hand (hand_of_inHand none hx),
      .inr (.inr ⟨_, kind, told⟩)⟩
  | aside hand begins same =>
    have grows := sound.grows.answers c
    have none : m'.inHand c = 0 := by omega
    refine ⟨by omega, by omega, fun x hx hand => absurd hand (hand_of_inHand none hx), .inl ?_⟩
    exact ((hm.told_prefix c).eq_of_length (by omega)).symm

end Machine

namespace Network

variable {i c : Nat} {r : Request} {f : Fault} {s : Network}

section

variable {w : World} {l rest : List Thread} {t : Thread} {past : List Machine} {m : Machine}

/-- An attempt of the call fails where it begins. -/
theorem begins_declined (sane : Sane ⟨w, l ++ t :: rest, past⟩) (hm : (t.on w).Moves m)
    (of : w.IsOf i c) {q : Request} (stored : w.requestAt? i = some q)
    (bad : CacheEntry.conditionalHeaders q.cache = .error f) (begins : t.control = .run (.begin c)) :
    (t.on w).FailsAtOnce c f ∧ m = (t.on w).step ∧ m.stack = t.stack := by
  have request : w.requestOf c = q := by
    rw [World.requestOf, of (inside_of_begin sane begins), stored]
    rfl
  obtain ⟨control, stack⟩ := t
  obtain rfl : control = .run (.begin c) := begins
  cases hm
  obtain ⟨fails, same⟩ := Machine.begin_declined stack (by rw [request]; exact bad)
  exact ⟨fails, rfl, same⟩

/-- A thread with no attempt of the call at the transport is not about to send one. -/
theorem Declined.unsent (h : Declined ⟨w, l ++ t :: rest, past⟩ i c f)
    (sane : Sane ⟨w, l ++ t :: rest, past⟩) : (t.on w).does (.send c) = 0 := by
  by_contra sends
  obtain ⟨a, headers, hc, call⟩ := control_of_send sends
  have top := (hands_inside (sane.own (t := t)) (a := a) (by simp [Machine.hands, hc])).2
  exact h.sending t (by simp) a top call

/-- A call that is performed now has its first attempt registered next. -/
theorem register_of_performed (sane : Sane ⟨w, l ++ t :: rest, past⟩) (hm : (t.on w).Moves m)
    (performed : m.world.performed c ≠ w.performed c) : m.act = .register c := by
  have registers := (sane.sound hm).registers c
  have le := m.world.performed_le_one c
  have grows := (sane.sound hm).grows.calls
  simp only [Thread.on_world] at registers grows
  have now : m.does (.register c) ≠ 0 := by
    unfold World.performed at registers performed le
    split at performed <;> split at performed <;> simp_all
    omega
  by_contra other
  exact now (Machine.does_of_ne other)

section

variable (h : Declined ⟨w, l ++ t :: rest, past⟩ i c f) (sane : Sane ⟨w, l ++ t :: rest, past⟩)
  (hm : (t.on w).Moves m) (hj : (t.on w).Judges i m) (of : w.IsOf i c) {q : Request}
  (stored : w.requestAt? i = some q) (bad : CacheEntry.conditionalHeaders q.cache = .error f)
include h sane hm of stored bad

/-- Nothing of the call gets to the transport. -/
theorem Declined.sending_move {u : Thread} (hu : u ∈ l ++ m.thread :: rest) {a : Nat}
    (ha : .sending a ∈ u.stack) : m.world.callOf a ≠ c := by
  intro call
  have sound := sane.sound hm
  rcases mem_moved hu with rfl | hu
  · rcases sound.sending a ha with old | rfl
    · have inside := mem_sending_lt sane.own.stack old
      exact h.sending t (by simp) a old ((sound.grows.callOf a inside).symm.trans call)
    · -- an attempt that begins leaves the stack as it was
      obtain ⟨-, act⟩ := sound.opened _ (mem_sending_lt sound.fits.stack ha) (Nat.le_refl _)
      have call : m.world.callOf (t.on w).world.attempts.size = c := call
      rw [call] at act
      have ha : Frame.sending (t.on w).world.attempts.size ∈ m.stack := ha
      rw [(begins_declined sane hm of stored bad (Machine.control_of_begin act)).2.2] at ha
      exact Nat.lt_irrefl _ (mem_sending_lt sane.own.stack ha)
  · have inside := mem_sending_lt (sane.others hu).stack ha
    exact h.sending u (mem_others hu) a ha ((sound.grows.callOf a inside).symm.trans call)

variable {b : Backoff} (policy : q.policy = .backoff b)
include hj policy

/-- What a step of a thread does about the call. -/
theorem Declined.proceeds : (t.on w).Proceeds m i c f := by
  by_cases begins : t.control = .run (.begin c)
  · obtain ⟨⟨-, x, unsent, next⟩, rfl, -⟩ := begins_declined sane hm of stored bad begins
    exact .hand next (.fail unsent)
  · have idle : (t.on w).does (.begin c) = 0 :=
      Machine.does_of_ne fun act => begins (Machine.control_of_begin act)
    by_cases busy : (t.on w).inHand c = 0
    · by_cases performed : m.world.performed c = w.performed c
      · exact .aside busy idle performed
      · have act := register_of_performed sane hm performed
        exact .hand (Machine.control_of_register act) .dispatch
    · obtain ⟨control, stack⟩ := t
      cases control with
      | done a => exact absurd rfl busy
      | raised fault => exact absurd rfl busy
      | run x =>
        have hand : x.hand? w = some c := by
          by_contra other
          exact busy (if_neg other)
        have hx := h.hands ⟨.run x, stack⟩ (by simp) x rfl hand
        have undone := w.completedOf_eq_zero_iff.1
          ((sane.ready (t := ⟨.run x, stack⟩) (by simp)).undone c (Nat.pos_of_ne_zero busy))
        have inside : c < w.calls.size := by
          have one := sane.one c
          have own := le_total (s := ⟨w, l ++ ⟨.run x, stack⟩ :: rest, past⟩)
            (t := ⟨.run x, stack⟩) (by simp) fun m => m.inHand c
          by_contra outside
          have none : w.performed c = 0 := if_neg outside
          simp only at one own
          omega
        have request := of inside
        refine Machine.proceeds_of_hand hx hm undone request ?_
        rintro y - rfl
        obtain ⟨standard, rfl⟩ := hj c y rfl request
        refine ⟨rfl, standard, b, ?_⟩
        rw [World.requestOf, request, stored]
        exact policy

/-- What is in hand of the call, and what it was told, after a step. -/
theorem Declined.settled_move :
    m.world.unresolved c = 0 ∧ m.world.queuedFor c = 0 ∧
      (∀ x, m.control = .run x → x.hand? m.world = some c → x.Declines c f) ∧
      ∀ e ∈ m.world.told c, ∃ error, e = .failure c i error ∧ error.kind = .noConnection := by
  have one : w.answers c + (t.on w).inHand c + (t.on w).does (.begin c) ≤ w.performed c := by
    have one := sane.one c
    have hand := le_total (s := ⟨w, l ++ t :: rest, past⟩) (t := t) (by simp) fun m => m.inHand c
    have begins := le_total (s := ⟨w, l ++ t :: rest, past⟩) (t := t) (by simp)
      fun m => m.does (.begin c)
    unfold waiting at one
    simp only at one hand begins
    omega
  obtain ⟨unresolved, queued, hands, told⟩ := (h.proceeds sane hm hj of stored bad policy).settled hm
    (sane.sound hm) one h.unresolved h.queued
  refine ⟨unresolved, queued, hands, fun e he => ?_⟩
  rcases told with same | none | ⟨error, kind, more⟩
  · exact h.told e (same ▸ he)
  · rw [none] at he
    cases he
  · rw [more] at he
    rcases List.mem_append.1 he with he | he
    · exact h.told e he
    · exact ⟨error, List.mem_singleton.1 he, kind⟩

theorem Declined.move : Declined ⟨m.world, l ++ m.thread :: rest, t.on w :: past⟩ i c f := by
  have sound := sane.sound hm
  obtain ⟨unresolved, queued, hands, told⟩ := h.settled_move sane hm hj of stored bad policy
  refine ⟨unresolved, queued, ?_, fun u hu a ha => h.sending_move sane hm of stored bad hu ha, told,
    (asked_of_other hm (h.unsent sane)).trans h.asked, ?_, ?_, ?_⟩
  · intro u hu x hx hand
    rcases mem_moved hu with rfl | hu
    · exact hands x hx hand
    · obtain ⟨control, stack⟩ := u
      obtain rfl : control = .run x := hx
      have same : x.hand? m.world = x.hand? w := Machine.hand_mono sound.grows (sane.others hu).control
      exact h.hands _ (mem_others hu) x rfl (same.symm.trans hand)
  · intro x hx begins
    rcases List.mem_cons.1 hx with rfl | hx
    · exact (begins_declined sane hm of stored bad begins).1
    · exact h.begins x hx begins
  · intro x hx y fails
    rcases List.mem_cons.1 hx with rfl | hx
    · have hy := h.hands t (by simp) _ fails rfl
      cases hy with
      | fail unsent => exact unsent
    · exact h.failures x hx y fails
  · intro x hx
    rcases List.mem_cons.1 hx with rfl | hx
    · rintro ⟨a, late, call, -⟩
      obtain ⟨fault, below, -, stack, -⟩ := Machine.throwsLate_iff.1 late
      have top : .sending a ∈ t.stack := by
        rw [show t.stack = _ from stack]
        exact List.mem_cons_self
      exact h.sending t (by simp) a top call
    · exact h.calm x hx

end

end

/-- No attempt of the request's calls is sent when its cached tag makes no header. -/
theorem Recorded.declined (h : Recorded i r s) (of : s.world.IsOf i c)
    (bad : CacheEntry.conditionalHeaders r.cache = .error f) {b : Backoff}
    (policy : r.policy = .backoff b) : s.Declined i c f := by
  induction h with
  | start w h hr =>
    refine ⟨?_, ?_, by simp, by simp, ?_, ?_, by simp, by simp, by simp⟩
    · simp [World.unresolved, h.attempts]
    · simp [World.queuedFor, h.queued]
    · simp [World.told, h.trace]
    · simp [World.asked, h.trace]
  | @move w l rest t past m h hm hj ih =>
    have sane := h.reachable.sane
    have before : w.IsOf i c := of.before (sane.sound hm).grows.calls hm.leaves.plan
    obtain ⟨q, stored, ages⟩ := h.ages
    obtain ⟨b', policy'⟩ := ages.policy b policy
    exact (ih before).move sane hm hj before stored (ages.cache ▸ bad) policy'
  | @arrive s h t ht hh ih =>
    have before := ih of
    refine { before with hands := ?_, sending := ?_ }
    · intro u hu x hx hand
      rcases List.mem_cons.1 hu with rfl | hu
      · have none := ((arrival_rests ht s.past).2.2 c).2
        exact absurd hand (Machine.hand_of_inHand none hx)
      · exact before.hands u hu x hx hand
    · intro u hu a ha
      rcases List.mem_cons.1 hu with rfl | hu
      · cases ht <;> simp at ha
      · exact before.sending u hu a ha
  | @meanwhile s h w hw hr ih =>
    have before := ih (hw.isOf of)
    refine { before with
      unresolved := ?_, queued := ?_, hands := ?_, sending := ?_, told := ?_, asked := ?_ }
    · exact (hw.unresolved c).trans before.unresolved
    · exact (hw.queuedFor c).trans before.queued
    · intro t ht x hx hand
      have fits := (h.reachable.sane.fits t ht).control
      rw [show (t.on s.world).control = .run x from hx] at fits
      exact before.hands t ht x hx ((Machine.hand_mono hw.grows fits).symm.trans hand)
    · intro t ht a ha call
      exact before.sending t ht a ha ((hw.callOf a).symm.trans call)
    · rw [show ({ s with world := w } : Network).world.told c = _ from hw.told c]
      exact before.told
    · exact (hw.asked c).trans before.asked

/-- At rest the continuation was told so, once. -/
theorem Declined.told_once (h : s.Declined i c f) (reachable : s.Reachable)
    (inside : c < s.world.calls.size) (rests : s.Rests c) :
    ∃ e, s.world.told c = [.failure c i e] ∧ e.kind = .noConnection := by
  have once := reachable.answered_at_rest inside h.calm rests h.unresolved h.queued
  rw [World.answers_eq_length, List.length_eq_one_iff] at once
  obtain ⟨event, told⟩ := once
  obtain ⟨e, rfl, kind⟩ := h.told event (told ▸ List.mem_singleton_self event)
  exact ⟨e, told, kind⟩

end Network

end RequestFlow
