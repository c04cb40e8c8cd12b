import RequestFlow.Proofs.Recorded
import RequestFlow.Proofs.Retrials
import RequestFlow.Proofs.Trampoline

/-!
# The ledger of a request

The attempts of a call and their failures follow one another, and the request is at any time what
the standard classifier made of it at the failures so far: every attempt but the last one has failed
with a candidate for a retry and was granted it.

    the request is what the failures of its call made of it                    (Recorded.booked)
    an answered call has an attempt that was not granted a retry               (Booked.attempted)
    the last attempt changes the request only if its retry was refused         (Booked.closing)
-/

namespace RequestFlow

/-! ## Entries -/

/-- What happens to a call, as far as its request is concerned. -/
inductive Entry
  /-- An attempt began while the request had this timeout. -/
  | tried (timeout : Int)
  | failed (context : FailureContext)
  deriving DecidableEq, Repr

def Entry.timeout? : Entry → Option Int
  | .tried t => some t
  | .failed _ => none

def Trial.entries (t : Trial) : List Entry := [.tried t.timeout, .failed t.context]

/-- The call whose result the instruction has in hand. -/
def Instr.ends? : Instr → Option Nat
  | .settle _ _ (.ok (.retry _)) => none
  | .settle c _ _ | .complete c _ => some c
  | _ => none

namespace Machine

/-- What the next step means for the call. -/
def entryFor? (c : Nat) (m : Machine) : Option Entry :=
  match m.control with
  | .run (.begin d) => if d = c then some (.tried (m.world.requestOf c).timeout) else none
  | .run (.fail d x) => if d = c then some (.failed x) else none
  | _ => none

/-- One if the thread has a result of the call in hand. -/
def ending (m : Machine) (c : Nat) : Nat :=
  match m.control with
  | .run i => if i.ends? = some c then 1 else 0
  | _ => 0

end Machine

namespace Network

/-- What happened to the call, in order. -/
def entries (s : Network) (c : Nat) : List Entry := s.past.reverse.filterMap (Machine.entryFor? c)

/-- Decisions to try again. -/
def granted (s : Network) (c : Nat) : Nat :=
  s.times (.grant c) + s.total fun m => m.does (.grant c)

end Network

/-- Where a call stands after its retried attempts. -/
inductive Stage
  /-- An attempt is to begin. -/
  | ready
  /-- An attempt began. -/
  | waiting
  /-- An attempt failed and is not tried again. -/
  | failed (x : FailureContext)

namespace Stage

def entries (q : Request) : Stage → List Entry
  | ready => []
  | waiting => [.tried q.timeout]
  | failed x => [.tried q.timeout, .failed x]

def request (q : Request) : Stage → Request
  | failed x => (classify q x).request
  | _ => q

def attempts : Stage → Nat
  | ready => 0
  | _ => 1

def failure? : Stage → Option FailureContext
  | failed x => some x
  | _ => none

end Stage

/-- The call has come from the first request to where it stands by these trials. -/
structure Network.Booked (s : Network) (i c : Nat) (r : Request) (l : List Trial) (q : Request)
    (g : Stage) : Prop where
  retried : r.Retried l q
  entries : s.entries c = l.flatMap Trial.entries ++ g.entries q
  stored : s.world.requestAt? i = some (g.request q)
  attempts : s.world.attemptsOf c = l.length + g.attempts
  granted : s.granted c = l.length
  ended : ∀ x, g = .failed x → (∀ reason, (classify q x).answer ≠ .ok (.retry reason)) ∧
    0 < s.world.answers c + s.total fun m => m.ending c

/-! ## Lemmas -/

namespace Machine

variable {w : World} {stack : List Frame} {m m' : Machine}

theorem ending_le_inHand (m : Machine) (c : Nat) : m.ending c ≤ m.inHand c := by
  obtain ⟨w, control, stack⟩ := m
  cases control with
  | run i =>
    simp only [ending, inHand]
    split
    · next h =>
      cases i with
      | settle d time answer =>
        rcases answer with f | error | reason <;> simp_all [Instr.ends?, Instr.hand?]
      | complete d result => simp_all [Instr.ends?, Instr.hand?]
      | _ => simp [Instr.ends?] at h
    · exact Nat.zero_le _
  | done a => exact Nat.le_refl _
  | raised f => exact Nat.le_refl _

theorem control_of_grant {c : Nat} (h : m.act = .grant c) :
    ∃ time reason, m.control = .run (.settle c time (.ok (.retry reason))) := by
  unfold act at h
  split at h <;> simp_all

theorem grants_le_inHand (m : Machine) (c : Nat) : m.does (.grant c) ≤ m.inHand c := by
  by_cases h : m.act = .grant c
  · obtain ⟨time, reason, control⟩ := control_of_grant h
    rw [does_of_eq h]
    simp [inHand, control, Instr.hand?]
  · rw [does_of_ne h]
    exact Nat.zero_le _

section

variable {c : Nat} {time : Int} {answer : Except Fault Decision}

theorem grants_of_retry {reason : RetryReason}
    (h : m.control = .run (.settle c time (.ok (.retry reason)))) : m.does (.grant c) = 1 := by
  refine does_of_eq ?_
  unfold act
  rw [h]

/-- A failure that is not tried again ends the call. -/
theorem ends_of_settle (h : m.control = .run (.settle c time answer))
    (refused : ∀ reason, answer ≠ .ok (.retry reason)) :
    m.does (.grant c) = 0 ∧ m.ending c = 1 := by
  constructor
  · refine does_of_ne fun act => ?_
    obtain ⟨time', reason, same⟩ := control_of_grant act
    rw [h] at same
    simp only [Control.run.injEq, Instr.settle.injEq] at same
    exact refused reason same.2.2
  · unfold Machine.ending
    rw [h]
    rcases answer with f | error | reason
    · exact if_pos rfl
    · exact if_pos rfl
    · exact absurd rfl (refused reason)

end

/-- Retries are granted to failures. -/
theorem Moves.grants (h : m.Moves m') {c : Nat} (fails : ¬ ∃ x, m.control = .run (.fail c x)) :
    m'.does (.grant c) = 0 := by
  refine does_of_ne fun act => ?_
  obtain ⟨time, reason, control⟩ := control_of_grant act
  exact fails (h.settles control)

/-- A result in hand stays in hand until it is told. -/
theorem Moves.ending {past : List Machine} (h : m.Moves m') (hs : m.Sound past m') (c : Nat)
    (undone : 0 < m.inHand c → m.world.completedOf c = 0) :
    m.world.answers c + m.ending c ≤ m'.world.answers c + m'.ending c := by
  have grows := hs.grows.answers c
  by_cases none : m.ending c = 0
  · omega
  · have hand : 0 < m.inHand c := by
      have := m.ending_le_inHand c
      omega
    have open' := m.world.completedOf_eq_zero_iff.1 (undone hand)
    obtain ⟨w, control, stack⟩ := m
    obtain ⟨i, rfl, hi⟩ : ∃ i, control = .run i ∧ i.ends? = some c := by
      unfold Machine.ending at none
      split at none
      · next i hc =>
        split at none
        · next same => exact ⟨i, hc, same⟩
        · exact absurd rfl none
      · exact absurd rfl none
    have one : Machine.ending ⟨w, .run i, stack⟩ c = 1 := if_pos hi
    rw [one]
    cases h with
    | judge => cases hi
    | step =>
      cases i with
      | settle d time answer =>
        have next : (settle w d time answer stack).ending c = 1 := by
          rcases answer with f | error | reason
          · exact if_pos hi
          · exact if_pos hi
          · cases hi
        have : Machine.ending (Machine.step ⟨w, .run (.settle d time answer), stack⟩) c = 1 := next
        omega
      | complete d result =>
        obtain rfl : d = c := Option.some.inj hi
        have told : (complete w d result stack).world.answers d = w.answers d + 1 := by
          unfold complete
          dsimp only
          rw [if_neg (by simpa using open')]
          cases result with
          | ok response =>
            exact (World.answers_note _ _ _).trans (by simp [Event.answers]; rfl)
          | error error =>
            exact (World.answers_note _ _ _).trans (by simp [Event.answers]; rfl)
        have : (Machine.step ⟨w, .run (.complete d result), stack⟩).world.answers d =
            w.answers d + 1 := told
        show w.answers d + 1 ≤ _
        omega
      | _ => cases hi

end Machine

namespace Network

variable {i c : Nat} {r q : Request} {l : List Trial} {g : Stage} {s : Network}

/-- The attempts and the retries that were granted tell whether an attempt is to begin. -/
theorem Sane.attempts_of_granted (h : s.Sane) (c : Nat) :
    s.world.attemptsOf c + s.waiting c + s.total (fun m => m.does (.register c)) +
      s.total (fun m => m.does (.grant c)) = s.granted c + s.world.performed c := by
  have := h.attemptsOf_add c
  unfold granted
  omega

section

variable {w : World} {u r' : List Thread} {t : Thread} {past : List Machine} {m : Machine}

theorem entries_move (w : World) (u r' : List Thread) (t : Thread) (past : List Machine)
    (m : Machine) (c : Nat) :
    entries ⟨m.world, u ++ m.thread :: r', t.on w :: past⟩ c =
      entries ⟨w, u ++ t :: r', past⟩ c ++ ((t.on w).entryFor? c).toList := by
  cases h : (t.on w).entryFor? c <;> simp [entries, List.filterMap_append, h]

theorem granted_move (sane : Sane ⟨w, u ++ t :: r', past⟩) (hm : (t.on w).Moves m) (c : Nat) :
    granted ⟨m.world, u ++ m.thread :: r', t.on w :: past⟩ c =
      granted ⟨w, u ++ t :: r', past⟩ c + m.does (.grant c) := by
  have total := sane.total_does (sane.sound hm) (.grant c)
  have times := times_cons m.world (u ++ m.thread :: r') (t.on w) past (.grant c)
  unfold granted
  simp only [Network.times] at *
  omega

theorem ending_move (sane : Sane ⟨w, u ++ t :: r', past⟩) (hm : (t.on w).Moves m) (c : Nat) :
    w.answers c + total ⟨w, u ++ t :: r', past⟩ (fun m => m.ending c) ≤
      m.world.answers c +
        total ⟨m.world, u ++ m.thread :: r', t.on w :: past⟩ (fun m => m.ending c) := by
  have moved : total ⟨m.world, u ++ m.thread :: r', t.on w :: past⟩ (fun m => m.ending c) +
      (t.on w).ending c = total ⟨w, u ++ t :: r', past⟩ (fun m => m.ending c) + m.ending c :=
    total_move (fun m => m.ending c) fun _ _ => rfl
  have := hm.ending (sane.sound hm) c ((sane.ready (t := t) (by simp)).undone c)
  simp only [Thread.on_world] at this
  omega

/-- While the thread has the outcome of the call in hand, no other thread counts for the call. -/
theorem Sane.only_hand (sane : Sane ⟨w, u ++ t :: r', past⟩) (hand : 0 < (t.on w).inHand c)
    {f : Machine → Nat} (hf : ∀ m, f m ≤ m.inHand c) :
    total ⟨w, u ++ t :: r', past⟩ f = f (t.on w) := by
  have one := sane.one c
  have performed := w.performed_le_one c
  simp only at one
  have all : total ⟨w, u ++ t :: r', past⟩ (fun m => m.inHand c) ≤ (t.on w).inHand c := by omega
  have none (v : Thread) (hv : v ∈ u ++ r') : f (v.on w) = 0 := by
    have := others_eq_zero all hv
    have := hf (v.on w)
    omega
  have left : (u.map fun v => f (v.on w)).sum = 0 := by
    refine List.sum_eq_zero fun n hn => ?_
    obtain ⟨v, hv, rfl⟩ := List.mem_map.1 hn
    exact none v (List.mem_append_left _ hv)
  have right : (r'.map fun v => f (v.on w)).sum = 0 := by
    refine List.sum_eq_zero fun n hn => ?_
    obtain ⟨v, hv, rfl⟩ := List.mem_map.1 hn
    exact none v (List.mem_append_right _ hv)
  simp only [total, List.map_append, List.map_cons, List.sum_append, List.sum_cons, left, right]
  omega

theorem inside_of_begin (sane : Sane ⟨w, u ++ t :: r', past⟩) (hc : t.control = .run (.begin c)) :
    c < w.calls.size := by
  have fits := sane.own (t := t)
  obtain ⟨rest, hs⟩ : ∃ rest, t.stack = .attempts c :: rest := by
    have := fits.control
    simp only [Thread.on, hc] at this
    exact this
  have top := fits.stack
  simp only [Thread.on, hs] at top
  exact top.1.1

theorem inside_of_fail (sane : Sane ⟨w, u ++ t :: r', past⟩) {x : FailureContext}
    (hc : t.control = .run (.fail c x)) : c < w.calls.size := by
  have fits := (sane.own (t := t)).control
  simp only [Thread.on, hc] at fits
  exact fits.1

/-! ## Steps -/

variable (h : Booked ⟨w, u ++ t :: r', past⟩ i c r l q g) (sane : Sane ⟨w, u ++ t :: r', past⟩)
  (hm : (t.on w).Moves m)

include h sane hm

theorem Booked.aside (entry : (t.on w).entryFor? c = none) (grants : m.does (.grant c) = 0)
    (stored : m.world.requestAt? i = w.requestAt? i) :
    Booked ⟨m.world, u ++ m.thread :: r', t.on w :: past⟩ i c r l q g := by
  have begins : (t.on w).does (.begin c) = 0 := by
    refine Machine.does_of_ne fun act => ?_
    rw [Machine.entryFor?, Machine.control_of_begin act] at entry
    simp at entry
  refine ⟨h.retried, ?_, stored.trans h.stored, ?_, ?_, ?_⟩
  · rw [entries_move, entry, Option.toList_none, List.append_nil]
    exact h.entries
  · have := (sane.sound hm).attempts c
    rw [begins] at this
    exact this.trans h.attempts
  · rw [granted_move sane hm, grants]
    exact h.granted
  · intro x hx
    obtain ⟨refused, ends⟩ := h.ended x hx
    have := ending_move sane hm c
    exact ⟨refused, Nat.lt_of_lt_of_le ends this⟩

omit hm in
/-- An attempt begins when one is to begin. -/
theorem Booked.ready (hc : t.control = .run (.begin c)) : g = .ready := by
  have act : (t.on w).act = .begin c := by simp [Thread.on, Machine.act, hc]
  have begins := le_total (s := ⟨w, u ++ t :: r', past⟩) (t := t) (by simp) fun m => m.does (.begin c)
  rw [Machine.does_of_eq act] at begins
  have counted := sane.attempts_of_granted c
  have performed := w.performed_le_one c
  have attempts := h.attempts
  have granted := h.granted
  unfold waiting at counted
  simp only at counted attempts
  cases g with
  | ready => rfl
  | waiting | failed x =>
    simp only [Stage.attempts] at attempts
    omega

theorem Booked.begins (hc : t.control = .run (.begin c)) (only : w.IsOnly i c) :
    Booked ⟨m.world, u ++ m.thread :: r', t.on w :: past⟩ i c r l q .waiting := by
  obtain rfl := h.ready sane hc
  have act : (t.on w).act = .begin c := by simp [Thread.on, Machine.act, hc]
  have inside := inside_of_begin sane hc
  have attempts := h.attempts
  have request : w.requestOf c = q := only.requestOf inside h.stored
  have spared := hm.spared (fun a headers other => by cases hc.symm.trans other)
    fun d x other => by cases hc.symm.trans other
  have grants : m.does (.grant c) = 0 := by
    refine hm.grants ?_
    rintro ⟨x, other⟩
    cases hc.symm.trans other
  refine ⟨h.retried, ?_, ?_, ?_, ?_, by simp⟩
  · have entry : (t.on w).entryFor? c = some (.tried q.timeout) := by
      simp [Thread.on, Machine.entryFor?, hc, request]
    rw [entries_move, entry, h.entries]
    simp [Stage.entries]
  · have same : m.world.requestAt? i = w.requestAt? i := by
      simp only [World.requestAt?, spared.requests, Thread.on_world]
    exact same.trans h.stored
  · have := (sane.sound hm).attempts c
    rw [Machine.does_of_eq act] at this
    simp only [Stage.attempts] at attempts ⊢
    simp only [Thread.on_world] at this
    omega
  · rw [granted_move sane hm, grants]
    exact h.granted

omit hm in
/-- A failure is that of the attempt that began last. -/
theorem Booked.waiting {x : FailureContext} (hc : t.control = .run (.fail c x)) : g = .waiting := by
  have hand : 0 < (t.on w).inHand c := by simp [Thread.on, Machine.inHand, hc, Instr.hand?]
  -- no other outcome is in hand, and this is not one of the last things
  have held := sane.only_hand hand (f := fun m => m.inHand c) fun _ => Nat.le_refl _
  have registers := sane.only_hand hand fun m => m.registers_le_inHand c
  have grants := sane.only_hand hand fun m => m.grants_le_inHand c
  have ends := sane.only_hand hand fun m => m.ending_le_inHand c
  have none : (t.on w).does (.register c) = 0 ∧ (t.on w).does (.grant c) = 0 ∧
      (t.on w).ending c = 0 := by
    simp [Thread.on, Machine.does, Machine.act, Machine.ending, hc, Instr.ends?]
  have one := sane.one c
  have counted := sane.attempts_of_granted c
  have performed := w.performed_le_one c
  have attempts := h.attempts
  have granted := h.granted
  simp only at *
  cases g with
  | waiting => rfl
  | ready =>
    simp only [Stage.attempts] at attempts
    omega
  | failed y =>
    have := (h.ended y rfl).2
    simp only at this
    omega

/-- A failed attempt is tried again, or ends the call. -/
theorem Booked.fails {x : FailureContext} (hc : t.control = .run (.fail c x)) (only : w.IsOnly i c)
    (judged : w.classifierOf c = .standard) (step : m = (t.on w).step) :
    ∃ l' q' g', Booked ⟨m.world, u ++ m.thread :: r', t.on w :: past⟩ i c r l' q' g' := by
  obtain rfl := h.waiting sane hc
  have inside := inside_of_fail sane hc
  have request : w.requestOf c = q := only.requestOf inside h.stored
  have stepped : m = Machine.fail w c x t.stack := by
    rw [step]
    simp [Thread.on, Machine.step, hc, Machine.exec]
  have verdict : (w.classifierOf c).judge (w.requestOf c) x = (classify q x, .standard) := by
    rw [judged, request]
    rfl
  obtain ⟨requests, -, -, -, -, settles⟩ := Machine.fail_world w c x t.stack
  rw [verdict, ← stepped] at requests settles
  have stored : m.world.requestAt? i = some (classify q x).request := by
    have := World.requestAt?_setIfInBounds requests i
    rwa [if_pos ⟨(only c inside).2 rfl, World.inside_of_requestAt? h.stored⟩] at this
  have entry : (t.on w).entryFor? c = some (.failed x) := by simp [Thread.on, Machine.entryFor?, hc]
  have entries := entries_move w u r' t past m c
  rw [entry, h.entries, List.append_assoc] at entries
  have attempts := (sane.sound hm).attempts c
  rw [Machine.does_of_ne (by simp [Thread.on, Machine.act, hc])] at attempts
  have attempts : m.world.attemptsOf c = l.length + 1 := attempts.trans h.attempts
  have granted := granted_move sane hm c
  rw [h.granted] at granted
  by_cases again : ∃ reason, (classify q x).answer = .ok (.retry reason)
  · obtain ⟨reason, again⟩ := again
    have grant : m.does (.grant c) = 1 := Machine.grants_of_retry (by rw [settles, again])
    refine ⟨l ++ [⟨q.timeout, x, reason⟩], (classify q x).request, .ready, h.retried.again again, ?_,
      stored, ?_, ?_, by simp⟩
    · rw [entries]
      simp [Trial.entries, Stage.entries]
    · rw [List.length_append]
      exact attempts
    · rw [granted, grant, List.length_append]
      rfl
  · have refused (reason : RetryReason) : (classify q x).answer ≠ .ok (.retry reason) :=
      fun same => again ⟨reason, same⟩
    obtain ⟨grant, ending⟩ := Machine.ends_of_settle settles refused
    refine ⟨l, q, .failed x, h.retried, entries, stored, attempts, by rw [granted, grant]; rfl, ?_⟩
    intro y hy
    obtain rfl : x = y := by cases hy; rfl
    refine ⟨refused, Nat.lt_of_lt_of_le ?_ (Nat.le_add_left _ _)⟩
    have own := le_total (s := ⟨m.world, u ++ m.thread :: r', t.on w :: past⟩) (t := m.thread)
      (by simp) fun m => m.ending c
    exact Nat.lt_of_lt_of_le (ending.symm ▸ Nat.one_pos) own

end

/-- A step of another call leaves the request alone. -/
theorem requestAt?_of_other {w : World} {t : Thread} {m : Machine} (hm : (t.on w).Moves m)
    (hf : ∀ d x, t.control = .run (.fail d x) → (w.callAt d).request ≠ i) :
    m.world.requestAt? i = w.requestAt? i := by
  by_cases hs : ∃ a headers, t.control = .run (.send a headers)
  · obtain ⟨a, headers, hc⟩ := hs
    obtain ⟨control, stack⟩ := t
    obtain rfl : control = .run (.send a headers) := hc
    cases hm
    have requests := (Machine.send_world w a headers stack).2.1
    show (Machine.send w a headers stack).world.requestAt? i = _
    simp only [World.requestAt?, requests]
  · by_cases fails : ∃ d x, t.control = .run (.fail d x)
    · obtain ⟨d, x, hc⟩ := fails
      have other := hf d x hc
      obtain ⟨control, stack⟩ := t
      obtain rfl : control = .run (.fail d x) := hc
      cases hm with
      | judge => rfl
      | step =>
        have := World.requestAt?_setIfInBounds (Machine.fail_world w d x stack).1 i
        rwa [if_neg fun both => other both.1] at this
    · have spared := hm.spared (fun a headers hc => hs ⟨a, headers, hc⟩)
        fun d x hc => fails ⟨d, x, hc⟩
      simp only [World.requestAt?, spared.requests, Thread.on_world]

theorem requestAt?_of_only {w : World} {u r' : List Thread} {t : Thread} {past : List Machine}
    {m : Machine} (sane : Sane ⟨w, u ++ t :: r', past⟩) (hm : (t.on w).Moves m) (only : w.IsOnly i c)
    (fails : ¬ ∃ x, t.control = .run (.fail c x)) : m.world.requestAt? i = w.requestAt? i := by
  refine requestAt?_of_other hm fun d x hc same => ?_
  have inside := inside_of_fail sane hc
  exact fails ⟨x, by rw [hc, (only d inside).1 same]⟩

theorem entry_of_other {w : World} {t : Thread} (begins : t.control ≠ .run (.begin c))
    (fails : ¬ ∃ x, t.control = .run (.fail c x)) : (t.on w).entryFor? c = none := by
  unfold Machine.entryFor?
  split
  · next d hd =>
    refine if_neg ?_
    rintro rfl
    exact begins hd
  · next d x hd =>
    refine if_neg ?_
    rintro rfl
    exact fails ⟨x, hd⟩
  · rfl

/-- The request is what the failures of its call made of it. -/
theorem Recorded.booked (h : Recorded i r s) (only : s.world.IsOnly i c) :
    ∃ l q g, s.Booked i c r l q g := by
  induction h with
  | start w h hr =>
    refine ⟨[], r, .ready, .none, rfl, hr, ?_, ?_, by simp⟩
    · simp [World.attemptsOf, h.attempts, Stage.attempts]
    · simp [granted, times, total]
  | @move w u r' t past m h hm hj ih =>
    have sane := h.reachable.sane
    have before : w.IsOnly i c := only.before (sane.sound hm).grows.calls hm.leaves.plan
    obtain ⟨l, q, g, booked⟩ := ih before
    by_cases begins : t.control = .run (.begin c)
    · exact ⟨l, q, .waiting, booked.begins sane hm begins before⟩
    · by_cases fails : ∃ x, t.control = .run (.fail c x)
      · obtain ⟨x, hc⟩ := fails
        have inside := inside_of_fail sane hc
        obtain ⟨judged, step⟩ := hj c x hc ((before c inside).2 rfl)
        exact booked.fails sane hm hc before judged step
      · exact ⟨l, q, g, booked.aside sane hm (entry_of_other begins fails) (hm.grants fails)
          (requestAt?_of_only sane hm before fails)⟩
  | @arrive s h t ht hh ih =>
    obtain ⟨l, q, g, booked⟩ := ih only
    have act : (t.on s.world).act = .other := (arrival_rests ht s.past).2.1
    have ending : (t.on s.world).ending c = 0 := by cases ht <;> rfl
    refine ⟨l, q, g, booked.retried, booked.entries, booked.stored, booked.attempts, ?_, ?_⟩
    · unfold granted
      rw [total_arrive, Machine.does_of_ne (by simp [act]), Nat.zero_add]
      exact booked.granted
    · rw [total_arrive, ending, Nat.zero_add]
      exact booked.ended
  | @meanwhile s h w hw hr ih =>
    have before : s.world.IsOnly i c := hw.isOnly only
    obtain ⟨l, q, g, booked⟩ := ih before
    refine ⟨l, q, g, booked.retried, booked.entries, hr.trans booked.stored, ?_, ?_, ?_⟩
    · show w.attemptsOf c = _
      rw [World.attemptsOf, hw.attempts]
      exact booked.attempts
    · unfold granted
      rw [h.reachable.sane.total_meanwhile hw]
      exact booked.granted
    · show ∀ x, g = .failed x → _ ∧ 0 < w.answers c + s.total fun m => m.ending c
      rw [hw.answers]
      exact booked.ended

/-! ## Answered calls -/

/-- An answered call has tried an attempt that was not tried again. -/
theorem Booked.attempted (h : s.Booked i c r l q g) (sane : s.Sane)
    (answered : s.world.answers c = 1) : g ≠ .ready := by
  have one := sane.one c
  have performed := s.world.performed_le_one c
  have counted := sane.attempts_of_granted c
  have registers := s.total_registers_le c
  have grants : s.total (fun m => m.does (.grant c)) ≤ s.total fun m => m.inHand c :=
    total_mono fun t _ => (t.on s.world).grants_le_inHand c
  have attempts := h.attempts
  have granted := h.granted
  unfold held at registers
  rintro rfl
  simp only [Stage.attempts] at attempts
  omega

/-- The last attempt leaves the request alone, unless the policy refused to have it tried again. -/
theorem Booked.closing (h : s.Booked i c r l q g) {b : Backoff} (policy : q.policy = .backoff b) :
    (g.failure?.bind r.reason? = none ∧ g.request q = q) ∨
      ∃ reason e, g.failure?.bind r.reason? = some reason ∧ (b.retry e).2.1 = false ∧
        g.request q =
          { q with
            policy := .backoff (b.retry e).1
            history := giveUpMarker reason q.timeout :: q.history } := by
  cases g with
  | ready => exact .inl ⟨rfl, rfl⟩
  | waiting => exact .inl ⟨rfl, rfl⟩
  | failed x =>
    rw [show (Stage.failed x).failure?.bind r.reason? = r.reason? x from rfl, ← h.retried.reason?]
    rcases classify_ended policy (h.ended x rfl).1 with final | ⟨reason, e, refused⟩
    · exact .inl final
    · exact .inr ⟨reason, e, refused⟩

end Network

end RequestFlow
