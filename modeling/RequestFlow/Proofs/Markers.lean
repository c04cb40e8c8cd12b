import RequestFlow.Proofs.Ledger

/-!
# Markers tell the attempts

If the extra headers of a request can be made, then each attempt that begins is handed to the
transport while the request has the timeout that it had then.  So once a call is answered, the
markers of its request tell all attempts that the transport saw, with their timeouts and with the
reasons for which they failed.

    the transport sees the timeouts of the attempts that began                 (Recorded.heard)
    the markers tell the attempts                                              (markers_tell)
-/

namespace RequestFlow

/-- What others do is not seen by the transport. -/
theorem Meanwhile.timeouts {w w' : World} (h : Meanwhile w w') (c : Nat) :
    w'.timeouts c = w.timeouts c := by
  obtain ⟨records, trace⟩ := h.trace
  exact (congrArg (fun t : Trace => t.toList.filterMap (Event.timeout? c)) trace).trans
    ((World.Spared.addLogs w records).timeouts c)

namespace Network

/-- The transport saw the timeouts of the attempts that began, but for one that is handed over
next. -/
inductive Heard (s : Network) (i c : Nat) : Prop
  | all (handing : s.total (fun m => m.does (.send c)) = 0)
    (same : (s.entries c).filterMap Entry.timeout? = s.world.timeouts c)
  | butLast {q : Request} (handing : s.total (fun m => m.does (.send c)) = 1)
    (stored : s.world.requestAt? i = some q)
    (same : (s.entries c).filterMap Entry.timeout? = s.world.timeouts c ++ [q.timeout])

/-! ## Lemmas -/

variable {i c : Nat} {r q : Request} {l : List Trial} {g : Stage} {s : Network}

theorem control_of_send {m : Machine} (h : m.does (.send c) ≠ 0) :
    ∃ a headers, m.control = .run (.send a headers) ∧ m.world.callOf a = c := by
  have act : m.act = .send c := by
    by_contra other
    exact h (Machine.does_of_ne other)
  unfold Machine.act at act
  split at act <;> simp_all

/-- A call with an attempt that is handed over next has an attempt without an outcome. -/
theorem Orderly.unresolved_pos (h : s.Orderly) (sane : s.Sane)
    (handing : s.total (fun m => m.does (.send c)) ≠ 0) : 0 < s.world.unresolved c := by
  obtain ⟨t, ht, some⟩ : ∃ t ∈ s.threads, (t.on s.world).does (.send c) ≠ 0 := by
    by_contra none
    refine handing (total_eq_zero fun t ht => ?_)
    by_contra some
    exact none ⟨t, ht, some⟩
  obtain ⟨a, headers, hc, call⟩ := control_of_send some
  have hands : (t.on s.world).hands a ≠ 0 := by
    unfold Machine.hands
    rw [hc]
    simp
  have inside := (hands_inside (sane.fits t ht) hands).1
  have unresolved := h.unresolved t ht a hands
  refine Nat.pos_of_ne_zero fun none => ?_
  have := World.unresolved_eq_zero none inside call
  rw [unresolved] at this
  cases this

section

variable {w : World} {u r' : List Thread} {t : Thread} {past : List Machine} {m : Machine}

theorem total_sends (sane : Sane ⟨w, u ++ t :: r', past⟩) (hm : (t.on w).Moves m) (c : Nat) :
    total ⟨m.world, u ++ m.thread :: r', t.on w :: past⟩ (fun m => m.does (.send c)) +
        (t.on w).does (.send c) + (t.on w).misses c =
      total ⟨w, u ++ t :: r', past⟩ (fun m => m.does (.send c)) + (t.on w).does (.begin c) := by
  have total := sane.total_does (sane.sound hm) (.send c)
  have sends := (sane.sound hm).sends c
  omega

/-- The transport sees no timeout of a call that hands over nothing. -/
theorem timeouts_of_other (hm : (t.on w).Moves m) (hs : (t.on w).does (.send c) = 0) :
    m.world.timeouts c = w.timeouts c := by
  by_cases sends : ∃ a headers, t.control = .run (.send a headers)
  · obtain ⟨a, headers, hc⟩ := sends
    obtain ⟨control, stack⟩ := t
    obtain rfl : control = .run (.send a headers) := hc
    have other : w.callOf a ≠ c := by
      intro same
      have : (Machine.does ⟨w, .run (.send a headers), stack⟩ (.send c)) = 1 :=
        Machine.does_of_eq (congrArg Act.send same)
      rw [Thread.on, this] at hs
      cases hs
    cases hm
    have told := (Machine.send_world w a headers stack).2.2.2 c
    rw [if_neg other, List.append_nil] at told
    exact told
  · by_cases fails : ∃ d x, t.control = .run (.fail d x)
    · obtain ⟨d, x, hc⟩ := fails
      obtain ⟨control, stack⟩ := t
      obtain rfl : control = .run (.fail d x) := hc
      cases hm with
      | judge => rfl
      | step => exact (Machine.fail_world w d x stack).2.2.2.2.1 c
    · exact (hm.spared (fun a headers hc => sends ⟨a, headers, hc⟩)
        fun d x hc => fails ⟨d, x, hc⟩).timeouts c

variable (sane : Sane ⟨w, u ++ t :: r', past⟩) (hm : (t.on w).Moves m)
  (h : Heard ⟨w, u ++ t :: r', past⟩ i c)

include sane hm h

theorem Heard.begins (booked : Booked ⟨w, u ++ t :: r', past⟩ i c r l q g)
    (hc : t.control = .run (.begin c)) (only : w.IsOnly i c) {headers : List Header}
    (hh : CacheEntry.conditionalHeaders r.cache = .ok headers) :
    Heard ⟨m.world, u ++ m.thread :: r', t.on w :: past⟩ i c := by
  obtain rfl := booked.ready sane hc
  have act : (t.on w).act = .begin c := by simp [Thread.on, Machine.act, hc]
  have request : w.requestOf c = q := only.requestOf (inside_of_begin sane hc) booked.stored
  have free : total ⟨w, u ++ t :: r', past⟩ (fun m => m.does (.send c)) = 0 := by
    have := (sane.free_at_begin (t := t) (by simp) act).1
    have : total ⟨w, u ++ t :: r', past⟩ (fun m => m.does (.send c)) ≤
        total ⟨w, u ++ t :: r', past⟩ fun m => m.atTransport c :=
      total_mono fun v hv => Machine.sends_le_atTransport (sane.fits v hv) c
    omega
  have found : (t.on w).misses c = 0 := by
    simp [Thread.on, Machine.misses, hc, request, booked.retried.cache, hh]
  have own : (t.on w).does (.send c) = 0 := Machine.does_of_ne (by simp [act])
  have sends := total_sends sane hm c
  rw [free, found, own, Machine.does_of_eq act] at sends
  have spared := hm.spared (fun a headers other => by cases hc.symm.trans other)
    fun d x other => by cases hc.symm.trans other
  have entry : (t.on w).entryFor? c = some (.tried q.timeout) := by
    simp [Thread.on, Machine.entryFor?, hc, request]
  refine .butLast (q := q) sends ?_ ?_
  · show m.world.requestAt? i = some q
    simp only [World.requestAt?, spared.requests, Thread.on_world]
    exact booked.stored
  · cases h with
    | all handing same =>
      rw [entries_move, entry, List.filterMap_append, same]
      show _ = m.world.timeouts c ++ _
      rw [spared.timeouts c]
      rfl
    | butLast handing => omega

theorem Heard.sends (orderly : Orderly ⟨w, u ++ t :: r', past⟩) (only : w.IsOnly i c)
    (hs : (t.on w).does (.send c) ≠ 0) :
    Heard ⟨m.world, u ++ m.thread :: r', t.on w :: past⟩ i c := by
  obtain ⟨a, headers, hc, called⟩ := control_of_send hs
  have hc : t.control = .run (.send a headers) := hc
  have call : w.callOf a = c := called
  have one : (t.on w).does (.send c) = 1 := by
    unfold Machine.does at hs ⊢
    split
    · rfl
    · next other => exact absurd (if_neg other) hs
  have begins : (t.on w).does (.begin c) = 0 :=
    Machine.does_of_ne (by simp [Thread.on, Machine.act, hc])
  have some := le_total (s := ⟨w, u ++ t :: r', past⟩) (t := t) (by simp) fun m => m.does (.send c)
  have sends := total_sends sane hm c
  have entry : (t.on w).entryFor? c = none := by simp [Thread.on, Machine.entryFor?, hc]
  simp only at some
  cases h with
  | all handing => omega
  | @butLast q handing stored same =>
    have inside : a < w.attempts.size := by
      refine (hands_inside (sane.own (t := t)) (a := a) ?_).1
      simp [Thread.on, Machine.hands, hc]
    have request : w.requestOf c = q := only.requestOf (call ▸ sane.valid.attempts a inside) stored
    refine .all (by omega) ?_
    rw [entries_move, entry, Option.toList_none, List.append_nil, same]
    obtain ⟨control, stack⟩ := t
    obtain rfl : control = .run (.send a headers) := hc
    cases hm
    have told := (Machine.send_world w a headers stack).2.2.2 c
    rw [if_pos call, request] at told
    exact told.symm

theorem Heard.fails {x : FailureContext} (hc : t.control = .run (.fail c x))
    (orderly : Orderly ⟨w, u ++ t :: r', past⟩) :
    Heard ⟨m.world, u ++ m.thread :: r', t.on w :: past⟩ i c := by
  have hand : 0 < (t.on w).inHand c := by simp [Thread.on, Machine.inHand, hc, Instr.hand?]
  have one := sane.one c
  have performed := w.performed_le_one c
  have held := le_total (s := ⟨w, u ++ t :: r', past⟩) (t := t) (by simp) fun m => m.inHand c
  have free : total ⟨w, u ++ t :: r', past⟩ (fun m => m.does (.send c)) = 0 := by
    by_contra handing
    have := orderly.unresolved_pos sane handing
    simp only at *
    omega
  have own : (t.on w).does (.send c) = 0 ∧ (t.on w).does (.begin c) = 0 := by
    simp [Thread.on, Machine.does, Machine.act, hc]
  have sends := total_sends sane hm c
  have entry : (t.on w).entryFor? c = some (.failed x) := by simp [Thread.on, Machine.entryFor?, hc]
  refine .all (by omega) ?_
  cases h with
  | butLast handing => omega
  | all handing same =>
    rw [entries_move, entry, List.filterMap_append, same]
    exact (List.append_nil _).trans (timeouts_of_other hm own.1).symm

theorem Heard.aside (entry : (t.on w).entryFor? c = none) (hs : (t.on w).does (.send c) = 0)
    (stored : m.world.requestAt? i = w.requestAt? i) :
    Heard ⟨m.world, u ++ m.thread :: r', t.on w :: past⟩ i c := by
  have begins : (t.on w).does (.begin c) = 0 := by
    refine Machine.does_of_ne fun act => ?_
    rw [Machine.entryFor?, Machine.control_of_begin act] at entry
    simp at entry
  have sends := total_sends sane hm c
  have timeouts := timeouts_of_other hm hs
  have entries : entries ⟨m.world, u ++ m.thread :: r', t.on w :: past⟩ c =
      entries ⟨w, u ++ t :: r', past⟩ c := by
    rw [entries_move, entry, Option.toList_none, List.append_nil]
  cases h with
  | all handing same =>
    refine .all (by omega) ?_
    rw [entries, same]
    exact timeouts.symm
  | butLast handing stored' same =>
    refine .butLast ?_ (stored.trans stored') ?_
    · have missed : (t.on w).misses c = 0 := by
        refine Machine.misses_of_ne fun act => ?_
        rw [Machine.does_of_eq act] at begins
        cases begins
      omega
    · rw [entries, same]
      exact congrArg (· ++ _) timeouts.symm

end

section

variable (h : s.Booked i c r l q g) {b : Backoff} (policy : r.policy = .backoff b)
include h policy

/-- The last attempt changes the request only if its failure is a candidate for a retry. -/
theorem Booked.unchanged (final : g.failure?.bind r.reason? = none) : g.request q = q := by
  obtain ⟨b', policy', -⟩ := h.retried.backoff policy
  rcases h.closing policy' with ⟨-, same⟩ | ⟨reason, e, refused, -⟩
  · exact same
  · rw [final] at refused
    cases refused

/-- There is one marker for each retry, and one more for a retry that was refused. -/
theorem Booked.markers (history : r.history = []) :
    (g.request q).markers = l.map Trial.marker ++
      ((g.failure?.bind r.reason?).map fun reason => giveUpMarker reason q.timeout).toList := by
  have before : q.markers = l.map Trial.marker := by
    rw [h.retried.markers, Request.markers, history]
    rfl
  obtain ⟨b', policy', -⟩ := h.retried.backoff policy
  rcases h.closing policy' with ⟨final, same⟩ | ⟨reason, e, refused, -, same⟩
  · rw [final, same, before]
    simp
  · rw [refused, same, ← before]
    simp [Request.markers]

/-- The policy has counted the markers. -/
theorem Booked.count (count : b.count = 0) (history : r.history = []) :
    (g.request q).policy.count = UInt32.ofNat (g.request q).markers.length := by
  obtain ⟨b', policy', -, counted⟩ := h.retried.backoff policy
  rw [count, UInt32.zero_add] at counted
  rw [h.markers policy history]
  rcases h.closing policy' with ⟨final, same⟩ | ⟨reason, e, refused, -, same⟩
  · rw [final, same, policy']
    simpa [RetryPolicy.count] using counted
  · rw [refused, same]
    show (b'.retry e).1.count = _
    rw [Backoff.count_retry, counted]
    simp [UInt32.ofNat_add]

end

/-- The markers of the request tell the attempts of its call: those that were tried again, the last
one, and how it failed if it did. -/
structure Tells (s : Network) (c : Nat) (r : Request) (trials : List Trial) (last : Int)
    (failure : Option FailureContext) : Prop where
  entries : s.entries c =
    trials.flatMap Trial.entries ++ .tried last :: (failure.map Entry.failed).toList
  timeouts : s.world.timeouts c = trials.map Trial.timeout ++ [last]
  reasons : ∀ t ∈ trials, r.reason? t.context = some t.reason
  markers : (s.world.requestOf c).markers = trials.map Trial.marker ++
    ((failure.bind r.reason?).map fun reason => giveUpMarker reason last).toList
  count : (s.world.requestOf c).policy.count = UInt32.ofNat (s.world.requestOf c).markers.length
  unchanged : failure.bind r.reason? = none →
    r.Retried trials (s.world.requestOf c) ∧ (s.world.requestOf c).timeout = last

end Network

end RequestFlow
