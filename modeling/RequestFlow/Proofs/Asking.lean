import RequestFlow.Proofs.Bodies
import RequestFlow.Proofs.Markers
import RequestFlow.Proofs.Validators

/-!
# What the transport is asked for

The extra headers of an attempt are made anew for each attempt, from what the request has cached.
Failures change the policy and the markers of a request and nothing else, so all attempts of its
calls are sent with the same headers.

    failures leave a request as it is but for policy and markers               (Recorded.ages)
    the headers that the transport sees are those of the first request         (Recorded.asks)
-/

namespace RequestFlow

/-- The extra headers that the transport sees with an attempt of the call. -/
def Event.headers? (c : Nat) : Event → Option (List Header)
  | .sent d headers _ => if d = c then some headers else none
  | _ => none

namespace World

/-- The extra headers that the transport saw with the attempts of the call, in order. -/
def asked (w : World) (c : Nat) : List (List Header) := w.trace.toList.filterMap (Event.headers? c)

theorem mem_asked {w : World} {c : Nat} {headers : List Header} :
    headers ∈ w.asked c ↔ ∃ timeout, .sent c headers timeout ∈ w.trace := by
  simp only [asked, List.mem_filterMap, Array.mem_toList_iff]
  constructor
  · rintro ⟨e, he, same⟩
    cases e with
    | sent d l timeout =>
      rw [Event.headers?] at same
      split at same
      · next own =>
        cases same
        exact ⟨timeout, own ▸ he⟩
      · cases same
    | _ => cases same
  · rintro ⟨timeout, he⟩
    exact ⟨_, he, if_pos rfl⟩

end World

/-- The call is one of the request, if it is performed at all. -/
def World.IsOf (w : World) (i c : Nat) : Prop := c < w.calls.size → (w.callAt c).request = i

/-- What failures may make of a request. -/
structure Request.Ages (r q : Request) : Prop where
  like : q = { r with policy := q.policy, history := q.history }
  policy : ∀ b, r.policy = .backoff b → ∃ b', q.policy = .backoff b'

/-- The transport is asked with these headers whenever it is handed an attempt of the call. -/
structure Network.Asks (s : Network) (c : Nat) (headers : Except Fault (List Header)) : Prop where
  asked : ∀ l ∈ s.world.asked c, headers = .ok l
  next : ∀ t ∈ s.threads, ∀ a l, t.control = .run (.send a l) → s.world.callOf a = c → headers = .ok l

/-! ## Requests -/

theorem World.IsOf.before {w w' : World} {i c : Nat} (h : w'.IsOf i c)
    (size : w.calls.size ≤ w'.calls.size)
    (plan : ∀ d < w.calls.size, (w'.callAt d).plan = (w.callAt d).plan) : w.IsOf i c := by
  intro hc
  rw [← (Call.eq_of_plan (plan c hc)).1]
  exact h (Nat.lt_of_lt_of_le hc size)

theorem Meanwhile.asked {w w' : World} (h : Meanwhile w w') (c : Nat) : w'.asked c = w.asked c := by
  obtain ⟨records, trace⟩ := h.trace
  have silent : (records.map Event.log).filterMap (Event.headers? c) = [] := by
    rw [List.filterMap_eq_nil_iff]
    intro e he
    obtain ⟨record, -, rfl⟩ := List.mem_map.1 he
    rfl
  rw [World.asked, trace, Trace.toList_addLogs, List.filterMap_append, silent, List.append_nil]
  rfl

theorem Meanwhile.isOf {w w' : World} (h : Meanwhile w w') {i c : Nat} (of : w'.IsOf i c) :
    w.IsOf i c :=
  of.before h.grows.calls fun d _ => by rw [World.callAt, World.callAt, h.calls]

namespace Request.Ages

variable {r q p : Request}

theorem refl (r : Request) : r.Ages r := ⟨rfl, fun b h => ⟨b, h⟩⟩

theorem trans (h : r.Ages q) (h' : q.Ages p) : r.Ages p := by
  refine ⟨?_, ?_⟩
  · rw [h'.like, h.like]
  · intro b hb
    obtain ⟨b', hb'⟩ := h.policy b hb
    exact h'.policy b' hb'

theorem cache (h : r.Ages q) : q.cache = r.cache := by rw [h.like]

/-- A candidate is settled by the policy, which is asked once. -/
theorem settleCandidate (r : Request) (reason : RetryReason) (e : RequestError) :
    r.Ages (settleCandidate r reason e).request := by
  cases policy : r.policy with
  | failing message =>
    unfold RequestFlow.settleCandidate Request.retry
    rw [policy]
    exact refl r
  | backoff b =>
    rw [(settleCandidate_backoff policy reason e).2]
    exact ⟨rfl, fun _ _ => ⟨_, rfl⟩⟩

theorem classify (r : Request) (x : FailureContext) : r.Ages (classify r x).request := by
  unfold RequestFlow.classify
  cases categorize r x with
  | final e => exact refl r
  | candidate reason e => exact settleCandidate r reason e

end Request.Ages

namespace Network

variable {i c : Nat} {r : Request} {s : Network}

/-- Whatever the calls of a request come to, it only ages. -/
theorem Recorded.ages (h : Recorded i r s) : ∃ q, s.world.requestAt? i = some q ∧ r.Ages q := by
  induction h with
  | start w h hr => exact ⟨r, hr, .refl r⟩
  | @move w l rest t past m h hm hj ih =>
    obtain ⟨q, stored, ages⟩ := ih
    by_cases fails : ∃ d x, t.control = .run (.fail d x) ∧ (w.callAt d).request = i
    · obtain ⟨d, x, hc, same⟩ := fails
      obtain ⟨standard, rfl⟩ := hj d x hc same
      obtain ⟨control, stack⟩ := t
      obtain rfl : control = .run (.fail d x) := hc
      have standard : w.classifierOf d = .standard := standard
      have request : w.requestOf d = q := by rw [World.requestOf, same, stored]; rfl
      have changed := World.requestAt?_setIfInBounds (Machine.fail_world w d x stack).1 i
      rw [if_pos ⟨same, World.inside_of_requestAt? stored⟩, standard, request] at changed
      exact ⟨_, changed, ages.trans (.classify q x)⟩
    · refine ⟨q, ?_, ages⟩
      have other := requestAt?_of_other (i := i) hm fun d x hc same => fails ⟨d, x, hc, same⟩
      exact other.trans stored
  | arrive h t ht hh ih => exact ih
  | meanwhile h w hw hr ih =>
    obtain ⟨q, stored, ages⟩ := ih
    exact ⟨q, hr.trans stored, ages⟩

/-! ## Headers -/

section

variable {w : World} {l rest : List Thread} {t : Thread} {past : List Machine} {m : Machine}

/-- The transport sees no headers of a call that hands over nothing. -/
theorem asked_of_other (hm : (t.on w).Moves m) (hs : (t.on w).does (.send c) = 0) :
    m.world.asked c = w.asked c := by
  obtain ⟨events, trace, -⟩ := hm.passes.trace
  have same := timeouts_of_other hm hs
  simp only [World.timeouts, World.asked, trace, Thread.on_world, List.filterMap_append,
    List.append_right_eq_self, List.filterMap_eq_nil_iff, List.append_eq_nil_iff] at same ⊢
  have none (e : Event) (he : e.timeout? c = none) : e.headers? c = none := by
    cases e with
    | sent d headers time =>
      simp only [Event.timeout?, Event.headers?] at he ⊢
      split at he
      · cases he
      · next other => exact if_neg other
    | _ => rfl
  exact ⟨fun e he => none e (same.1 e he), fun e he => none e (same.2 e he)⟩

/-- Handing over an attempt shows its headers to the transport. -/
theorem asked_of_send {a : Nat} {headers : List Header} {stack : List Frame} :
    (Machine.send w a headers stack).world.asked (w.callOf a) = w.asked (w.callOf a) ++ [headers] := by
  have told (w' : World) (h : w'.trace =
      (w.note (.sent (w.callOf a) headers (w.requestOf (w.callOf a)).timeout)).trace) :
      w'.asked (w.callOf a) = w.asked (w.callOf a) ++ [headers] := by
    simp [World.asked, h, World.note, Event.headers?]
  unfold Machine.send
  dsimp only
  split
  · exact told _ rfl
  · exact told _ rfl

/-- An attempt is handed over with the headers of its request, as that is when the attempt begins. -/
theorem headers_of_send {past' : List Machine} (hm : (t.on w).Moves m)
    (sound : (t.on w).Sound past' m) {a : Nat} {headers : List Header}
    (hc : m.control = .run (.send a headers)) :
    t.control = .run (.begin (m.world.callOf a)) ∧
      CacheEntry.conditionalHeaders (w.requestOf (m.world.callOf a)).cache = .ok headers := by
  have hands : m.hands a ≠ 0 := by simp [Machine.hands, hc]
  obtain ⟨rfl, -, d, begins⟩ := hm.hands hands
  have act : (t.on w).act = .begin d := by
    unfold Machine.act
    rw [begins]
  obtain ⟨-, call⟩ := sound.begun d act
  rw [call]
  obtain ⟨control, stack⟩ := t
  obtain rfl : control = .run (.begin d) := begins
  cases hm
  have next : (Machine.begin w d stack).control = .run (.send w.attempts.size headers) := hc
  unfold Machine.begin at next
  dsimp only at next
  split at next
  · cases next
  · next found =>
    cases next
    exact ⟨rfl, found⟩

end

/-- The transport is asked for the headers that the first request has. -/
theorem Recorded.asks (h : Recorded i r s) (of : s.world.IsOf i c) :
    s.Asks c (CacheEntry.conditionalHeaders r.cache) := by
  induction h with
  | start w h hr => exact ⟨by simp [World.asked, h.trace], by simp⟩
  | @move w l rest t past m h hm hj ih =>
    have sane := h.reachable.sane
    have sound := sane.sound hm
    have before : w.IsOf i c := of.before sound.grows.calls hm.leaves.plan
    obtain ⟨asked, next⟩ := ih before
    refine ⟨?_, ?_⟩
    · intro headers hh
      by_cases sends : (t.on w).does (.send c) = 0
      · rw [asked_of_other hm sends] at hh
        exact asked headers hh
      · obtain ⟨a, own, hc, call⟩ := control_of_send sends
        have same := next t (by simp) a own hc call
        obtain ⟨control, stack⟩ := t
        obtain rfl : control = .run (.send a own) := hc
        obtain rfl : w.callOf a = c := call
        cases hm
        have hh : headers ∈ (Machine.send w a own stack).world.asked (w.callOf a) := hh
        rw [asked_of_send] at hh
        rcases List.mem_append.1 hh with hh | hh
        · exact asked headers hh
        · rw [List.mem_singleton.1 hh]
          exact same
    · intro u hu a headers hc call
      rcases mem_moved hu with rfl | hu
      · obtain ⟨begins, found⟩ := headers_of_send hm sound hc
        have call : m.world.callOf a = c := call
        rw [call] at begins found
        obtain ⟨q, stored, ages⟩ := h.ages
        have inside := inside_of_begin sane begins
        rw [World.requestOf, before inside, stored] at found
        rw [← ages.cache]
        exact found
      · have hands : (u.on w).hands a ≠ 0 := by simp [Machine.hands, Thread.on, hc]
        have inside := (hands_inside (sane.others hu) hands).1
        exact next u (mem_others hu) a headers hc ((sound.grows.callOf a inside).symm.trans call)
  | @arrive s h t ht hh ih =>
    obtain ⟨asked, next⟩ := ih of
    refine ⟨asked, ?_⟩
    intro u hu a headers hc call
    rcases List.mem_cons.1 hu with rfl | hu
    · cases ht <;> cases hc
    · exact next u hu a headers hc call
  | @meanwhile s h w hw hr ih =>
    obtain ⟨asked, next⟩ := ih (hw.isOf of)
    refine ⟨fun headers hh => asked headers (hw.asked c ▸ hh), ?_⟩
    intro t ht a headers hc call
    exact next t ht a headers hc ((hw.callOf a).symm.trans call)

end Network

end RequestFlow
