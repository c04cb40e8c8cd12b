import RequestFlow.Proofs.CopyTrace
import RequestFlow.Proofs.Stacks

/-!
# What a step moves

One step of a thread takes what is under way for a call from one place to another.  `Sound` states
this as equations between the counts before and after the step, with what the step leaves on one side
and what it enters on the other, together with the shape of the new stack; there is one lemma for
each instruction and each frame, and `step_sound` collects them.

    live + beginnings + calls opened = live + registrations + ..          (Sound.live)
-/

namespace RequestFlow

/-- The machine is not about to register, begin or send an attempt. -/
def Control.IsPlain : Control → Prop
  | .run (.dispatch _) | .run (.begin _) | .run (.send ..) => False
  | _ => True

/-- A change of the world that opens no call and no attempt and leaves the counts of pending attempts
alone. -/
structure World.Even (w w' : World) : Prop where
  grows : w.Grows w'
  valid : w'.Valid
  size : w'.attempts.size = w.attempts.size
  attemptsOf : ∀ c, w'.attemptsOf c = w.attemptsOf c
  performed : ∀ c, w'.performed c = w.performed c
  pending : ∀ c, w'.pendingOf c = w.pendingOf c
  completion : ∀ c, w'.answers c + w.completedOf c = w.answers c + w'.completedOf c

/-- A change of the world that is about the counts of pending attempts only. -/
structure World.Recount (w w' : World) : Prop where
  grows : w.Grows w'
  valid : w'.Valid
  attempts : w'.attempts = w.attempts
  unresolved : ∀ c, w'.unresolved c = w.unresolved c
  queuedFor : ∀ c, w'.queuedFor c = w.queuedFor c
  answers : ∀ c, w'.answers c = w.answers c
  performed : ∀ c, w'.performed c = w.performed c
  completedOf : ∀ c, w'.completedOf c = w.completedOf c

namespace Machine

/-- What holds between two calls of a step: it neither loses nor doubles anything. -/
structure Sound (past : List Machine) (m m' : Machine) : Prop where
  grows : m.world.Grows m'.world
  valid : m'.world.Valid
  fits : m'.Fits (m :: past)
  live : ∀ c, m'.live c + m.does (.register c) + m.world.performed c =
    m.live c + m.does (.begin c) + m'.world.performed c
  pending : ∀ c, m'.world.pendingOf c + m.does (.retire c) =
    m.world.pendingOf c + m.does (.register c)
  loops : ∀ c, m'.loops c + m.does (.leave c) + m.closes c = m.loops c + m.opens c
  begins : ∀ c, m'.does (.begin c) + m.closes c = m.opens c + m.does (.retire c)
  registers : ∀ c, m'.does (.register c) + m.world.performed c =
    m.does (.grant c) + m'.world.performed c
  sends : ∀ c, m'.does (.send c) + m.misses c = m.does (.begin c)
  completion : ∀ c, m'.world.answers c + m.world.completedOf c =
    m.world.answers c + m'.world.completedOf c
  attempts : ∀ c, m'.world.attemptsOf c = m.world.attemptsOf c + m.does (.begin c)
  opened : ∀ a < m'.world.attempts.size, m.world.attempts.size ≤ a →
    a = m.world.attempts.size ∧ m.act = .begin (m'.world.callOf a)
  begun : ∀ c, m.act = .begin c → m.world.attempts.size < m'.world.attempts.size ∧
    m'.world.callOf m.world.attempts.size = c
  sending : ∀ a, .sending a ∈ m'.stack → .sending a ∈ m.stack ∨ a = m.world.attempts.size

/-- What the counts of pending attempts and completed calls promise the next step. -/
structure Ready (m : Machine) : Prop where
  idle : ∀ c, m.world.pendingOf c = 0 → m.loops c = 0
  undone : ∀ c, 0 < m.inHand c → m.world.completedOf c = 0

/-! ## Lemmas -/

theorem does_of_ne {m : Machine} {a : Act} (h : m.act ≠ a) : m.does a = 0 := if_neg h

theorem does_of_eq {m : Machine} {a : Act} (h : m.act = a) : m.does a = 1 := if_pos h

theorem misses_of_ne {m : Machine} {c : Nat} (h : m.act ≠ .begin c) : m.misses c = 0 := by
  unfold misses
  split
  · next d hd =>
    have : m.act = .begin d := by unfold act; rw [hd]
    split
    · refine if_neg ?_
      rintro rfl
      exact h this
    · rfl
  · rfl

variable {past : List Machine} {m m' : Machine} {w w' : World} {stack : List Frame}

theorem inHand_run (w : World) (i : Instr) (stack : List Frame) (c : Nat) :
    inHand ⟨w, .run i, stack⟩ c = if i.hand? w = some c then 1 else 0 := rfl

theorem control_of_begin {c : Nat} (h : m.act = .begin c) : m.control = .run (.begin c) := by
  unfold act at h
  split at h <;> simp_all

theorem act_of_plain (h : m'.control.IsPlain) (c : Nat) :
    m'.act ≠ .begin c ∧ m'.act ≠ .register c ∧ m'.act ≠ .send c := by
  obtain ⟨w, control, stack⟩ := m'
  cases control with
  | run i =>
    cases i <;> simp_all [act, Control.IsPlain]
    split <;> simp_all
  | done a => simp only [act]; split <;> simp_all
  | raised f => simp only [act]; split <;> simp_all

end Machine

theorem World.Keeps.even {w w' : World} (h : w.Keeps w') (hv : w.Valid) : w.Even w' :=
  ⟨h.grows, h.valid hv, by rw [h.attempts], h.attemptsOf, h.performed, h.pendingOf,
    fun c => by rw [h.answers, h.completedOf]⟩

namespace Machine

/-- A step over an even change of the world is sound if what is under way stays the same; it may
decide to try again. -/
theorem Sound.of_even {past : List Machine} {m m' : Machine} (he : m.world.Even m'.world)
    (ho : ∀ a, m.act ≠ .register a ∧ m.act ≠ .begin a ∧ m.act ≠ .retire a ∧ m.act ≠ .leave a)
    (hr : ∀ c, m'.does (.register c) = m.does (.grant c))
    (hp : ∀ c, m'.act ≠ .begin c ∧ m'.act ≠ .send c)
    (hl : ∀ c, m'.loops c = m.loops c) (hv : ∀ c, m'.live c = m.live c)
    (hs : ∀ a, .sending a ∈ m'.stack → .sending a ∈ m.stack)
    (hf : m'.Fits (m :: past)) : Sound past m m' := by
  have registers (c : Nat) : m.does (.register c) = 0 := does_of_ne (ho c).1
  have begins (c : Nat) : m.does (.begin c) = 0 := does_of_ne (ho c).2.1
  have retires (c : Nat) : m.does (.retire c) = 0 := does_of_ne (ho c).2.2.1
  have leaves (c : Nat) : m.does (.leave c) = 0 := does_of_ne (ho c).2.2.2
  have opens (c : Nat) : m.opens c = 0 := if_neg fun h => (ho c).1 h.1
  have closes (c : Nat) : m.closes c = 0 := if_neg fun h => (ho c).2.2.1 h.1
  refine ⟨he.grows, he.valid, hf, ?_, ?_, ?_, ?_, ?_, ?_, he.completion, ?_, ?_,
    fun c hb => absurd hb (ho c).2.1, ?_⟩
  · intro c
    rw [registers, begins, hv, he.performed]
  · intro c
    rw [registers, retires, he.pending]
  · intro c
    rw [leaves, opens, closes, hl]
  · intro c
    rw [opens, closes, retires, does_of_ne (hp c).1]
  · intro c
    rw [hr, he.performed]
  · intro c
    rw [begins, does_of_ne (hp c).2, misses_of_ne (ho c).2.1]
  · intro c
    rw [begins, he.attemptsOf]
    rfl
  · intro a ha hb
    rw [he.size] at ha
    omega
  · intro a ha
    exact Or.inl (hs a ha)

/-- A step that does nothing which is told apart and goes on plainly. -/
theorem Sound.aside {past : List Machine} {m m' : Machine} (he : m.world.Even m'.world)
    (ho : m.act = .other) (hp : m'.control.IsPlain)
    (hl : ∀ c, m'.loops c = m.loops c) (hv : ∀ c, m'.live c = m.live c)
    (hs : ∀ a, .sending a ∈ m'.stack → .sending a ∈ m.stack)
    (hf : m'.Fits (m :: past)) : Sound past m m' := by
  have plain := act_of_plain hp
  refine .of_even he (by simp [ho]) ?_ (fun c => ⟨(plain c).1, (plain c).2.2⟩) hl hv hs hf
  intro c
  rw [does_of_ne (plain c).2.1, does_of_ne (by simp [ho])]

/-- A step that counts the attempts of a call anew. -/
theorem Sound.of_recount {past : List Machine} {m m' : Machine} (hr : m.world.Recount m'.world)
    (ho : ∀ c, m.act ≠ .begin c ∧ m.act ≠ .grant c ∧ m.act ≠ .leave c)
    (hp : ∀ c, m'.world.pendingOf c + m.does (.retire c) =
      m.world.pendingOf c + m.does (.register c))
    (hh : ∀ c, m'.inHand c + m.does (.register c) = m.inHand c)
    (hn : ∀ c, m'.act ≠ .register c ∧ m'.act ≠ .send c)
    (hl : ∀ c, m'.loops c + m.closes c = m.loops c + m.opens c)
    (hb : ∀ c, m'.does (.begin c) + m.closes c = m.opens c + m.does (.retire c))
    (hs : ∀ a, .sending a ∈ m'.stack → .sending a ∈ m.stack)
    (hf : m'.Fits (m :: past)) : Sound past m m' := by
  refine ⟨hr.grows, hr.valid, hf, ?_, hp, ?_, hb, ?_, ?_, ?_, ?_, ?_,
    fun c hb => absurd hb (ho c).1, fun a ha => Or.inl (hs a ha)⟩
  · intro c
    rw [Machine.live, Machine.live, hr.unresolved, hr.queuedFor, hr.answers, hr.performed,
      does_of_ne (ho c).1, ← hh c]
    omega
  · intro c
    rw [does_of_ne (ho c).2.2, Nat.add_zero, hl]
  · intro c
    rw [does_of_ne (hn c).1, does_of_ne (ho c).2.1, hr.performed]
  · intro c
    rw [does_of_ne (hn c).2, misses_of_ne (ho c).1, does_of_ne (ho c).1]
  · intro c
    rw [hr.answers, hr.completedOf]
  · intro c
    rw [does_of_ne (ho c).1, World.attemptsOf, hr.attempts]
    rfl
  · intro a ha hb
    rw [hr.attempts] at ha
    exact absurd ha (Nat.not_lt.2 hb)

/-- A step that begins an attempt. -/
theorem Sound.of_begin {past : List Machine} {w : World} {c : Nat} {rest : List Frame} {m' : Machine}
    (grows : w.Grows m'.world) (valid : m'.world.Valid)
    (size : m'.world.attempts.size = w.attempts.size + 1)
    (new : m'.world.callOf w.attempts.size = c)
    (attemptsOf : ∀ d, m'.world.attemptsOf d = w.attemptsOf d + if c = d then 1 else 0)
    (calls : m'.world.calls = w.calls) (answers : ∀ d, m'.world.answers d = w.answers d)
    (live : ∀ d, m'.live d =
      Machine.live ⟨w, .run (.begin c), .attempts c :: rest⟩ d + if c = d then 1 else 0)
    (loops : ∀ d, m'.loops d = Machine.loops ⟨w, .run (.begin c), .attempts c :: rest⟩ d)
    (hn : ∀ d, m'.act ≠ .begin d ∧ m'.act ≠ .register d)
    (sends : ∀ d, m'.does (.send d) + misses ⟨w, .run (.begin c), .attempts c :: rest⟩ d =
      if c = d then 1 else 0)
    (sending : ∀ a, .sending a ∈ m'.stack → .sending a ∈ .attempts c :: rest ∨ a = w.attempts.size)
    (hf : m'.Fits (⟨w, .run (.begin c), .attempts c :: rest⟩ :: past)) :
    Sound past ⟨w, .run (.begin c), .attempts c :: rest⟩ m' := by
  have begins (d : Nat) :
      does ⟨w, .run (.begin c), .attempts c :: rest⟩ (.begin d) = if c = d then 1 else 0 := by
    simp [does, act]
  have other {a : Act} (ha : a ≠ .begin c) :
      does ⟨w, .run (.begin c), .attempts c :: rest⟩ a = 0 := does_of_ne ha.symm
  have closes (d : Nat) : closes ⟨w, .run (.begin c), .attempts c :: rest⟩ d = 0 := by
    simp [Machine.closes, act]
  have opens (d : Nat) : opens ⟨w, .run (.begin c), .attempts c :: rest⟩ d = 0 := by
    simp [Machine.opens, act]
  have performed (d : Nat) : m'.world.performed d = w.performed d := by
    simp only [World.performed, calls]
  have callAt (d : Nat) : m'.world.callAt d = w.callAt d := by simp only [World.callAt, calls]
  refine ⟨grows, valid, hf, ?_, ?_, ?_, ?_, ?_, ?_, ?_, ?_, ?_, ?_, sending⟩
  · intro d
    rw [other (by simp), begins, live, performed, Nat.add_zero]
  · intro d
    rw [other (by simp), other (by simp)]
    simp only [World.pendingOf, callAt]
  · intro d
    rw [other (by simp), closes, opens, loops]
  · intro d
    rw [other (by simp), closes, opens, does_of_ne (hn d).1]
  · intro d
    rw [other (by simp), does_of_ne (hn d).2, performed]
  · intro d
    rw [begins, sends]
  · intro d
    rw [answers]
    simp only [World.completedOf, callAt]
  · intro d
    rw [begins, attemptsOf]
  · intro a ha hb
    obtain rfl : a = w.attempts.size := by
      have : w.attempts.size ≤ a := hb
      omega
    exact ⟨rfl, by rw [new]; rfl⟩
  · intro d hb
    obtain rfl : c = d := by simpa [act] using hb
    exact ⟨Nat.lt_of_succ_le (Nat.le_of_eq size.symm), new⟩

/-- The same for a step that touches nothing that is counted. -/
theorem Sound.of_keeps {past : List Machine} {m m' : Machine} (hk : m.world.Keeps m'.world)
    (hw : m.world.Valid) (ho : m.act = .other) (hp : m'.control.IsPlain)
    (hl : ∀ c, m'.loops c = m.loops c) (hh : ∀ c, m'.inHand c = m.inHand c)
    (hs : ∀ a, .sending a ∈ m'.stack → .sending a ∈ m.stack)
    (hf : m'.Fits (m :: past)) : Sound past m m' := by
  refine .aside (hk.even hw) ho hp hl ?_ hs hf
  intro c
  simp only [Machine.live, hk.unresolved, hk.queuedFor, hk.answers, hh]

/-! ## Changes of the world -/

theorem told_append {t : Trace} {stream : Nat} (h : ∀ e ∈ t, e.isCopyOf stream = true)
    (u : Trace) (c : Nat) :
    (u ++ t).toList.filter (Event.answers c) = u.toList.filter (Event.answers c) := by
  rw [Array.toList_append, List.filter_append, List.append_right_eq_self, List.filter_eq_nil_iff]
  intro e he
  have := h e (Array.mem_toList_iff.1 he)
  cases e <;> simp_all [Event.isCopyOf, Event.answers]

theorem tracedEvents_events (w : World) {t : Trace} {stream : Nat}
    (h : ∀ e ∈ t, e.isCopyOf stream = true) :
    ∀ e ∈ Machine.tracedEvents w t, e.isCopyOf stream = true := by
  intro e he
  unfold Machine.tracedEvents at he
  split at he
  · exact h e he
  · exact h e (Array.mem_filter.1 he).1

theorem queuedFor_resolve (w : World) (a c : Nat) : (w.resolve a).queuedFor c = w.queuedFor c := by
  show w.queued.countP (fun k => (w.resolve a).callOf k.attempt == c) = _
  simp only [World.callOf_resolve]
  rfl

/-- Taking the outcome of an attempt in hand resolves the attempt. -/
theorem resolve_live {w : World} {a : Nat} (ha : a < w.attempts.size)
    (hr : (w.attemptAt a).resolved = false) (c : Nat) :
    (w.resolve a).unresolved c + (w.resolve a).queuedFor c + (w.resolve a).answers c +
      (if some (w.callOf a) = some c then 1 else 0) =
      w.unresolved c + w.queuedFor c + w.answers c := by
  have := w.unresolved_resolve ha hr c
  rw [queuedFor_resolve]
  simp only [Option.some.injEq]
  show (w.resolve a).unresolved c + w.queuedFor c + w.answers c + _ = _
  omega

theorem enqueue_live {w : World} {e : Executor} (he : w.executor = some e) (k : CopyTask) (c : Nat) :
    let w' := (w.note .submit).setExecutor (e.enqueue k)
    w'.unresolved c + w'.queuedFor c + w'.answers c =
      w.unresolved c + w.queuedFor c + w.answers c +
        if some (w.callOf k.attempt) = some c then 1 else 0 := by
  have queued := World.queuedFor_enqueue (w.note .submit) he k c
  have answers : (w.note .submit).answers c = w.answers c := (World.Keeps.note w fun _ => rfl).answers c
  show w.unresolved c + _ + (w.note .submit).answers c = _
  rw [queued, answers]
  simp only [Option.some.injEq]
  show w.unresolved c + (w.queuedFor c + if w.callOf k.attempt = c then 1 else 0) + _ = _
  omega

theorem answers_tell (w : World) {c : Nat} (call : Call) {e : Event}
    (he : ∀ d, e.answers d = (c == d)) (d : Nat) :
    ((w.setCall c call).note e).answers d = w.answers d + if c = d then 1 else 0 := by
  rw [World.answers_note, he]
  simp only [beq_iff_eq]
  rfl

section

variable {w : World} (hw : w.Valid)
include hw

theorem enqueue_even {e : Executor} {k : CopyTask} (he : w.executor = some e)
    (hk : k.attempt < w.attempts.size) : w.Even ((w.note .submit).setExecutor (e.enqueue k)) := by
  have noted : w.Keeps (w.note .submit) := .note w fun _ => rfl
  refine ⟨⟨Nat.le_refl _, Nat.le_refl _, fun _ _ => rfl, fun _ _ hr => hr, noted.grows.answers⟩,
    ⟨hw.attempts, ?_, ?_⟩, rfl, fun _ => rfl, fun _ => rfl, fun _ => rfl,
    fun c => congrArg (· + _) (noted.answers c)⟩
  · intro t ht
    rcases List.mem_append.1 ht with ht | ht
    · exact hw.tasks t (World.queued_of_executor he ▸ ht)
    · rw [List.mem_singleton.1 ht]
      exact hk
  · intro f hf
    cases hf
    exact hw.inOrder e he

theorem resolve_even {a : Nat} : w.Even (w.resolve a) := by
  have size : (w.resolve a).attempts.size = w.attempts.size := Array.size_modify ..
  refine ⟨⟨Nat.le_refl _, Nat.le_of_eq size.symm, fun b _ => w.callOf_resolve a b, ?_,
    fun _ => Nat.le_refl _⟩, ⟨?_, ?_, hw.inOrder⟩, size, w.attemptsOf_resolve a, fun _ => rfl,
    fun _ => rfl, fun _ => rfl⟩
  · intro b _ hr
    rw [w.attemptAt_resolve]
    split
    · rfl
    · exact hr
  · intro b hb
    rw [w.callOf_resolve]
    exact hw.attempts b (size ▸ hb)
  · intro k hk
    rw [size]
    exact hw.tasks k hk

theorem complete_even {c : Nat} {call : Call} {e : Event} (hc : c < w.calls.size)
    (hn : w.completedOf c = 0) (hd : call.completed = true)
    (hp : call.pending = (w.callAt c).pending) (he : ∀ d, e.answers d = (c == d)) :
    w.Even ((w.setCall c call).note e) := by
  have size : ((w.setCall c call).note e).calls.size = w.calls.size := w.size_setCall c call
  have callAt (d : Nat) : ((w.setCall c call).note e).callAt d =
      if c = d then call else w.callAt d := w.callAt_setCall call hc d
  refine ⟨⟨Nat.le_of_eq size.symm, Nat.le_refl _, fun _ _ => rfl, fun _ _ hr => hr, ?_⟩,
    ⟨?_, hw.tasks, hw.inOrder⟩,
    rfl, fun _ => rfl, ?_, ?_, ?_⟩
  · intro d
    rw [answers_tell w call he]
    omega
  · intro a ha
    rw [size]
    exact hw.attempts a ha
  · intro d
    unfold World.performed
    rw [size]
  · intro d
    unfold World.pendingOf
    rw [callAt]
    split
    · next h => rw [hp, h]
    · rfl
  · intro d
    rw [answers_tell w call he]
    unfold World.completedOf at hn ⊢
    rw [callAt]
    split
    · next h =>
      subst h
      rw [hn]
    · omega

/-- Counting the attempts of a call anew touches nothing else. -/
theorem setCall_recount {c : Nat} (call : Call) (hc : c < w.calls.size)
    (hd : call.completed = (w.callAt c).completed) : w.Recount (w.setCall c call) := by
  have size := w.size_setCall c call
  refine ⟨⟨Nat.le_of_eq size.symm, Nat.le_refl _, fun _ _ => rfl, fun _ _ hr => hr,
      fun _ => Nat.le_refl _⟩,
    ⟨?_, hw.tasks, hw.inOrder⟩, rfl, fun _ => rfl, fun _ => rfl, fun _ => rfl, ?_, ?_⟩
  · intro a ha
    rw [size]
    exact hw.attempts a ha
  · intro d
    unfold World.performed
    rw [size]
  · intro d
    unfold World.completedOf
    rw [World.callAt_setCall w call hc]
    split
    · next h => rw [hd, h]
    · rfl

theorem openAttempt_grows {c : Nat} (hc : c < w.calls.size) :
    w.Grows (w.openAttempt c).2 ∧ (w.openAttempt c).2.Valid ∧
      (w.openAttempt c).2.attempts.size = w.attempts.size + 1 ∧
      (w.openAttempt c).2.callOf w.attempts.size = c := by
  have size : (w.openAttempt c).2.attempts.size = w.attempts.size + 1 := Array.size_push ..
  have callOf (a : Nat) (ha : a < w.attempts.size) : (w.openAttempt c).2.callOf a = w.callOf a :=
    w.callOf_openAttempt c ha
  have new : (w.openAttempt c).2.callOf w.attempts.size = c := by
    simp [World.callOf, World.attemptAt_openAttempt]
  refine ⟨⟨Nat.le_refl _, by omega, callOf, ?_, fun _ => Nat.le_refl _⟩, ⟨?_, ?_, hw.inOrder⟩,
    size, new⟩
  · intro a ha hr
    rw [w.attemptAt_openAttempt, if_neg (by omega)]
    exact hr
  · intro a ha
    by_cases h : a < w.attempts.size
    · rw [callOf a h]
      exact hw.attempts a h
    · obtain rfl : a = w.attempts.size := by omega
      rw [new]
      exact hc
  · intro k hk
    rw [size]
    exact Nat.lt_succ_of_lt (hw.tasks k hk)

end

end Machine

end RequestFlow
