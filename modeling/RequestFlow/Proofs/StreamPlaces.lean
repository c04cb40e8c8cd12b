import RequestFlow.Proofs.Balance
import RequestFlow.Proofs.Carrying

/-!
# The places of a stream

From the moment that it is delivered a stream is in one place: a thread resolves an attempt with it,
its task waits, its task is carried out, or it was closed.  A step takes a stream from one place to
another; it puts a stream into a first place only when it numbers it.

    a step takes a stream from place to place                                  (Carries.places)
    a stream that is turned down is closed, or waits for nothing else          (Carries.down)
-/

namespace RequestFlow

/-! ## Places -/

/-- One if the stream is there and has this number. -/
def tally (i : Nat) : Option Stream → Nat
  | some x => if x.id = i then 1 else 0
  | none => 0

/-- One for a stream that was numbered. -/
def World.numbered (w : World) (i : Nat) : Nat := if i < w.streams then 1 else 0

/-- How often the stream was closed. -/
def World.closed (w : World) (i : Nat) : Nat := w.trace.toList.count (.close i)

/-- Tasks with the stream that wait on the executor. -/
def World.waits (w : World) (i : Nat) : Nat := w.queued.countP fun k => k.stream.id == i

/-- The stream of an outcome that the control delivers. -/
def Control.brought? : Control → Option Stream
  | .run (.deliver _ o) => o.stream?
  | _ => none

/-- The stack keeps a frame that closes the stream. -/
def holds (i : Nat) (stack : List Frame) : Nat := (stack.map fun f => tally i f.stream?).sum

/-- Below each frame that closes the stream is the given stack. -/
def Over (i : Nat) (base : List Frame) : List Frame → Prop
  | [] => True
  | f :: stack => (tally i f.stream? ≠ 0 → base <:+ stack) ∧ Over i base stack

namespace Machine

def brings (m : Machine) (i : Nat) : Nat := tally i m.control.brought?

/-- The stream is in the hands of the resolution that it came for. -/
def resolves (m : Machine) (i : Nat) : Nat := tally i m.control.passing? + holds i m.stack

def copies (m : Machine) (i : Nat) : Nat := tally i m.control.copying?

/-- Whenever the machine resolves with the stream, it does so over the given stack. -/
def ResolvesOver (m : Machine) (i : Nat) (base : List Frame) : Prop :=
  (tally i m.control.passing? ≠ 0 → base <:+ m.stack) ∧ Over i base m.stack

end Machine

/-- No stream was read once it had been closed. -/
def Unread (l : List Event) : Prop :=
  l.Pairwise fun e e' => ∀ i, e = .close i → e'.reads i = false

/-! ## Lemmas -/

@[simp]
theorem tally_none (i : Nat) : tally i none = 0 := rfl

theorem tally_self (x : Stream) : tally x.id (some x) = 1 := if_pos rfl

theorem id_of_tally {i : Nat} {x : Stream} (h : tally i (some x) ≠ 0) : x.id = i := by
  unfold tally at h
  simpa using h

theorem Control.Empty.brought {c : Control} (h : c.Empty) : c.brought? = none := by
  unfold Control.brought?
  split
  · exact h.1
  · rfl

theorem Control.passing_of_brought {c : Control} {x : Stream} (h : c.brought? = some x) :
    c.passing? = some x := by
  unfold Control.brought? at h
  split at h
  · exact h
  · cases h

theorem Control.copying_of_passing {c : Control} {x : Stream} (h : c.passing? = some x) :
    c.copying? = none := by
  unfold Control.passing? at h
  unfold Control.copying?
  split at h <;> first | rfl | cases h

namespace World

variable {w w' : World}

theorem Aside.closed (h : w.Aside w') (i : Nat) : w'.closed i = w.closed i := by
  obtain ⟨events, trace, quiet⟩ := h
  have none : events.count (.close i) = 0 := by
    rw [List.count_eq_zero]
    intro closes
    exact absurd (quiet _ closes) (by simp [Event.isOfStream])
  rw [World.closed, trace, List.count_append, none]
  rfl

theorem Closes.closed {x : Stream} {before : List Event} (h : w.Closes x.id before w')
    (hb : ∀ j, .close j ∉ before) (i : Nat) : w'.closed i = w.closed i + tally i (some x) := by
  obtain ⟨after, trace, quiet⟩ := h
  have none : before.count (.close i) = 0 := List.count_eq_zero.2 (hb i)
  have none' : after.count (.close i) = 0 := by
    rw [List.count_eq_zero]
    intro closes
    exact absurd (quiet _ closes) (by simp [Event.isOfStream])
  rw [World.closed, trace, List.count_append, List.count_append, none, List.count_cons, none', tally]
  simp [World.closed]

theorem waits_of_queued (h : w'.queued = w.queued) (i : Nat) : w'.waits i = w.waits i := by
  rw [waits, waits, h]

end World

theorem holds_append (i : Nat) (p rest : List Frame) :
    holds i (p ++ rest) = holds i p + holds i rest := by
  simp [holds]

theorem holds_eq_zero {i : Nat} {p : List Frame} (h : ∀ f ∈ p, f.stream? = none) : holds i p = 0 := by
  unfold holds
  rw [List.sum_eq_zero_iff]
  intro n hn
  obtain ⟨f, hf, rfl⟩ := List.mem_map.1 hn
  rw [h f hf]
  rfl

theorem over_append {i : Nat} {base p rest : List Frame} (h : ∀ f ∈ p, f.stream? = none) :
    Over i base (p ++ rest) ↔ Over i base rest := by
  induction p with
  | nil => rfl
  | cons f p ih =>
    obtain ⟨first, others⟩ := List.forall_mem_cons.1 h
    rw [List.cons_append, Over, ih others, first]
    simp [tally]

theorem SameHeld.holds {stack stack' : List Frame} (h : SameHeld stack stack') (i : Nat) :
    holds i stack' = holds i stack := by
  obtain ⟨p, p', rest, rfl, rfl, none, none'⟩ := h
  rw [holds_append, holds_append, holds_eq_zero none, holds_eq_zero none']

theorem SameHeld.keepsOver {stack stack' : List Frame} (h : SameHeld stack stack') {i : Nat}
    {base : List Frame} (kept : Over i base stack) : Over i base stack' := by
  obtain ⟨p, p', rest, rfl, rfl, none, none'⟩ := h
  rw [over_append none']
  exact (over_append none).1 kept

theorem over_of_holds {i : Nat} {base stack : List Frame} (h : RequestFlow.holds i stack = 0) :
    Over i base stack := by
  induction stack with
  | nil => trivial
  | cons f stack ih =>
    have both : tally i f.stream? + RequestFlow.holds i stack = 0 := h
    exact ⟨fun some => absurd (by omega) some, ih (by omega)⟩

namespace Machine

/-- What a step does with the stream of the given number. -/
structure Effect (i : Nat) (m m' : Machine) : Prop where
  places : m'.world.closed i + m'.world.waits i + m'.copies i + m'.resolves i + m.world.numbered i =
    m.world.closed i + m.world.waits i + m.copies i + m.resolves i + m'.world.numbered i
  brings : m'.brings i + m.world.numbered i = m'.world.numbered i
  copied : m.world.closed i + m.copies i ≤ m'.world.closed i
  held : m.world.closed i + holds i m.stack ≤ m'.world.closed i + holds i m'.stack

/-- What the machine has in hand. -/
structure Grip (m : Machine) (i passing copying brought : Nat) : Prop where
  passing : tally i m.control.passing? = passing
  copying : m.copies i = copying
  brought : m.brings i = brought

theorem grip_of_empty {m : Machine} (h : m.control.Empty) (i : Nat) : m.Grip i 0 0 0 := by
  refine ⟨?_, ?_, ?_⟩
  · rw [h.1]
    rfl
  · rw [copies, h.2]
    rfl
  · rw [Machine.brings, h.brought]
    rfl

theorem grip_of_passing {m : Machine} {x : Stream} (h : m.control.passing? = some x) (i : Nat) :
    m.Grip i (tally i (some x)) 0 (m.brings i) := by
  refine ⟨by rw [h], ?_, rfl⟩
  rw [copies, Control.copying_of_passing h]
  rfl

theorem grip_of_deliver {m : Machine} {a : Nat} {o : Outcome Stream}
    (h : m.control = .run (.deliver a o)) (i : Nat) :
    m.Grip i (tally i o.stream?) 0 (tally i o.stream?) := by
  refine ⟨?_, ?_, ?_⟩
  · rw [h]
    rfl
  · rw [copies, h]
    rfl
  · rw [Machine.brings, h]
    rfl

theorem grip_of_schedule {m : Machine} {k : CopyTask} (h : m.control = .run (.schedule k)) (i : Nat) :
    m.Grip i (tally i (some k.stream)) 0 0 := by
  refine ⟨?_, ?_, ?_⟩
  · rw [h]
    rfl
  · rw [copies, h]
    rfl
  · rw [Machine.brings, h]
    rfl

theorem grip_of_copy {m : Machine} {k : CopyTask} (h : m.control = .run (.copy k)) (i : Nat) :
    m.Grip i 0 (tally i (some k.stream)) 0 := by
  refine ⟨?_, ?_, ?_⟩
  · rw [h]
    rfl
  · rw [copies, h]
    rfl
  · rw [Machine.brings, h]
    rfl

theorem task_of_copies {m : Machine} {i : Nat} (h : m.copies i ≠ 0) :
    ∃ k, m.control = .run (.copy k) ∧ k.stream.id = i := by
  unfold copies Control.copying? at h
  split at h
  · next k hk => exact ⟨k, hk, id_of_tally h⟩
  · exact absurd rfl h

section

variable {m m' : Machine}

theorem Beside.same {m m' : Machine} (h : m.Beside m') (i : Nat) :
    m'.world.closed i = m.world.closed i ∧ m'.world.waits i = m.world.waits i ∧
      m'.world.numbered i = m.world.numbered i := by
  refine ⟨h.trace.closed i, World.waits_of_queued h.queued i, ?_⟩
  rw [World.numbered, h.streams]
  rfl

theorem numbered_of_streams (h : m'.world.streams = m.world.streams) (i : Nat) :
    m'.world.numbered i = m.world.numbered i := by
  rw [World.numbered, h]
  rfl

/-- The effect, read off what is in hand before and after. -/
theorem Grip.effect {i p c b p' c' b' : Nat} (h : m.Grip i p c b) (h' : m'.Grip i p' c' b')
    (places : m'.world.closed i + m'.world.waits i + c' + p' + holds i m'.stack +
      m.world.numbered i = m.world.closed i + m.world.waits i + c + p + holds i m.stack +
      m'.world.numbered i) (brings : b' + m.world.numbered i = m'.world.numbered i)
    (copied : m.world.closed i + c ≤ m'.world.closed i)
    (held : m.world.closed i + holds i m.stack ≤ m'.world.closed i + holds i m'.stack) :
    Effect i m m' := by
  have before : m.resolves i = p + holds i m.stack := by rw [resolves, h.passing]
  have after : m'.resolves i = p' + holds i m'.stack := by rw [resolves, h'.passing]
  refine ⟨?_, ?_, ?_, held⟩
  · rw [before, after, h.copying, h'.copying]
    omega
  · rw [h'.brought]
    exact brings
  · rw [h.copying]
    exact copied

/-- A step takes a stream from place to place, and numbers a stream when it is brought. -/
theorem Carries.effect (h : Carries m m') (i : Nat) : Effect i m m' := by
  have unclosing {before : List Event} (quiet : ∀ e ∈ before, e.isOfStream = false) (j : Nat) :
      .close j ∉ before := fun closes => absurd (quiet _ closes) (by simp [Event.isOfStream])
  cases h with
  | aside empty empty' held beside =>
    obtain ⟨closed, waits, numbered⟩ := beside.same i
    have holds := held.holds i
    exact (grip_of_empty empty i).effect (grip_of_empty empty' i) (by omega) (by omega) (by omega)
      (by omega)
  | @bring a o x empty control' stream fresh held queued streams trace =>
    have closed := trace.closed i
    have waits := World.waits_of_queued queued i
    have holds := held.holds i
    have numbered : m'.world.numbered i = m.world.numbered i + tally i o.stream? := by
      simp only [World.numbered, streams, stream, tally, fresh]
      split <;> split <;> split <;> omega
    exact (grip_of_empty empty i).effect (grip_of_deliver control' i) (by omega) (by omega) (by omega)
      (by omega)
  | drop passing down empty' stack queued streams quiet trace =>
    have closed := trace.closed (unclosing quiet) i
    have waits := World.waits_of_queued queued i
    have numbered := numbered_of_streams streams i
    exact (grip_of_passing passing i).effect (grip_of_empty empty' i) (by rw [stack]; omega)
      (by omega) (by omega) (by rw [stack]; omega)
  | @hold x passing down empty' stack beside =>
    obtain ⟨closed, waits, numbered⟩ := beside.same i
    have holds : holds i m'.stack = tally i (some x) + holds i m.stack := by rw [stack]; rfl
    exact (grip_of_passing passing i).effect (grip_of_empty empty' i) (by omega) (by omega) (by omega)
      (by omega)
  | @handOver a r x control stream taken control' stack beside =>
    obtain ⟨closed, waits, numbered⟩ := beside.same i
    have grip := grip_of_deliver control i
    rw [show (Outcome.reply r).stream? = some x from stream] at grip
    have grip' : m'.Grip i (tally i (some x)) 0 0 := grip_of_schedule control' i
    exact grip.effect grip' (by rw [stack]; omega) (by omega) (by omega) (by rw [stack]; omega)
  | @enqueue k control taken empty' stack queued streams trace =>
    have closed := trace.closed i
    have numbered := numbered_of_streams streams i
    have waits : m'.world.waits i = m.world.waits i + tally i (some k.stream) := by
      rw [World.waits, queued, List.countP_append, List.countP_singleton, World.waits, tally]
      simp only [beq_iff_eq]
    exact (grip_of_schedule control i).effect (grip_of_empty empty' i) (by rw [stack]; omega)
      (by omega) (by omega) (by rw [stack]; omega)
  | start control taken control' held beside =>
    obtain ⟨closed, waits, numbered⟩ := beside.same i
    have holds := held.holds i
    exact (grip_of_schedule control i).effect (grip_of_copy control' i) (by omega) (by omega)
      (by omega) (by omega)
  | @take k empty control' held queued streams trace =>
    have closed := trace.closed i
    have numbered := numbered_of_streams streams i
    have holds := held.holds i
    have waits : m.world.waits i = m'.world.waits i + tally i (some k.stream) := by
      rw [World.waits, queued, List.countP_cons, World.waits, tally]
      simp only [beq_iff_eq]
    exact (grip_of_empty empty i).effect (grip_of_copy control' i) (by omega) (by omega) (by omega)
      (by omega)
  | copy control empty' stack queued streams reads trace =>
    have closed := trace.closed (fun j closes => by
      have := reads _ closes rfl
      simp [Event.reads] at this) i
    have waits := World.waits_of_queued queued i
    have numbered := numbered_of_streams streams i
    exact (grip_of_copy control i).effect (grip_of_empty empty' i) (by rw [stack]; omega) (by omega)
      (by omega) (by rw [stack]; omega)
  | @release x empty empty' stack queued streams trace =>
    have closed := trace.closed (by simp) i
    have waits := World.waits_of_queued queued i
    have numbered := numbered_of_streams streams i
    have holds : holds i m.stack = tally i (some x) + holds i m'.stack := by rw [stack]; rfl
    exact (grip_of_empty empty i).effect (grip_of_empty empty' i) (by omega) (by omega) (by omega)
      (by omega)

/-- A stream that is turned down is closed, or it will be once what is under way is done. -/
theorem Carries.down (h : Carries m m') {x : Stream} (hd : m.TurnsDown x) :
    m.control.passing? = some x ∧ 0 < m'.world.closed x.id + holds x.id m'.stack := by
  have passing : m.control.passing? = some x := by
    cases hd with
    | late control stream late => rw [control]; exact stream
    | unchanged control stream status => rw [control]; exact stream
    | unscheduled control declines => rw [control]; rfl
  refine ⟨passing, ?_⟩
  have self := tally_self x
  cases h with
  | @drop y passing' down empty' stack queued streams before quiet trace =>
    rw [passing] at passing'
    cases passing'
    have := trace.closed (fun j closes => absurd (quiet _ closes) (by simp [Event.isOfStream])) x.id
    omega
  | @hold y passing' down empty' stack beside =>
    rw [passing] at passing'
    cases passing'
    have : holds x.id m'.stack = tally x.id (some x) + holds x.id m.stack := by rw [stack]; rfl
    omega
  | @handOver a r y control stream taken =>
    rw [control] at passing
    cases (stream.symm.trans passing : some y = some x)
    exact absurd hd taken
  | @enqueue k control taken | @start k control taken =>
    rw [control] at passing
    cases passing
    exact absurd hd taken
  | aside empty | bring empty | take empty | release empty =>
    rw [empty.1] at passing
    cases passing
  | copy control =>
    rw [control] at passing
    cases passing

/-- What resolves with a stream over a stack goes on to do so. -/
theorem Carries.resolvesOver (h : Carries m m') {i : Nat} {base : List Frame}
    (ho : m.ResolvesOver i base) (fresh : m'.brings i = 0) : m'.ResolvesOver i base := by
  obtain ⟨hand, stack⟩ := ho
  have emptied (empty' : m'.control.Empty) (rest : Over i base m'.stack) :
      m'.ResolvesOver i base := by
    refine ⟨fun some => ?_, rest⟩
    rw [empty'.1] at some
    exact absurd rfl some
  have copied {k : CopyTask} (control' : m'.control = .run (.copy k))
      (held : SameHeld m.stack m'.stack) : m'.ResolvesOver i base := by
    refine ⟨fun some => ?_, held.keepsOver stack⟩
    rw [control'] at some
    exact absurd rfl some
  cases h with
  | aside empty empty' held beside => exact emptied empty' (held.keepsOver stack)
  | bring empty control' stream fresh' held queued streams trace =>
    refine ⟨fun some => ?_, held.keepsOver stack⟩
    rw [Machine.brings, control'] at fresh
    rw [control'] at some
    exact absurd fresh some
  | drop passing down empty' same => exact emptied empty' (by rw [same]; exact stack)
  | hold passing down empty' same beside =>
    refine emptied empty' ?_
    rw [same]
    exact ⟨fun some => hand (by rw [passing]; exact some), stack⟩
  | @handOver a r x control stream taken control' same beside =>
    refine ⟨fun some => ?_, by rw [same]; exact stack⟩
    rw [control'] at some
    rw [same]
    refine hand ?_
    rw [control]
    show tally i r.stream ≠ 0
    rw [stream]
    exact some
  | enqueue control taken empty' same => exact emptied empty' (by rw [same]; exact stack)
  | start control taken control' held beside => exact copied control' held
  | take empty control' held => exact copied control' held
  | copy control empty' same => exact emptied empty' (by rw [same]; exact stack)
  | release empty empty' same =>
    rw [same] at stack
    exact emptied empty' stack.2

/-- A body that is handed over came with a reply that is now delivered. -/
theorem Carries.schedules (h : Carries m m') {k : CopyTask} (hk : m'.control = .run (.schedule k)) :
    ∃ r, m.control = .run (.deliver k.attempt (.reply r)) ∧
      k = ⟨k.attempt, r.status, r.headers, k.stream, r.length⟩ ∧ r.stream = some k.stream := by
  have passing : m'.control.passing? = some k.stream := by rw [hk]; rfl
  cases h with
  | handOver control stream taken control' stack beside =>
    rw [control'] at hk
    cases hk
    exact ⟨_, control, rfl, stream⟩
  | aside empty empty' | drop passing' down empty' | hold passing' down empty'
  | enqueue control taken empty' | copy control empty' | release empty empty' =>
    rw [empty'.1] at passing
    cases passing
  | bring empty control' | start control taken control' | take empty control' =>
    rw [control'] at hk
    cases hk

end

end Machine

end RequestFlow
