import Mathlib
import RequestFlow.Proofs.Frames

/-!
# The books of a call

Summed over all threads, the counts of a call balance in every reachable state: what is under way
against what was registered and begun, the count of pending attempts against the loops that run them,
and the attempts against the decisions to try again.

    registrations = attempts + waiting, and at most one loop                 (Balanced)
    the books balance in every reachable state                               (Reachable.sane)
-/

namespace RequestFlow

namespace Network

/-- The sum over the threads. -/
def total (s : Network) (f : Machine → Nat) : Nat := (s.threads.map fun t => f (t.on s.world)).sum

/-- How often a step did this. -/
def times (s : Network) (a : Act) : Nat := s.past.countP fun m => decide (m.act = a)

/-- Attempts of the call that never reached the transport. -/
def missed (s : Network) (c : Nat) : Nat := (s.past.map fun m => m.misses c).sum

/-- Attempts of the call that are registered and have not begun: those that the loop has yet to come
to, and the one that it is about to begin. -/
def waiting (s : Network) (c : Nat) : Nat :=
  (s.world.pendingOf c - 1) + s.total fun m => m.does (.begin c)

/-- The counts of a call agree. -/
structure Balanced (s : Network) (c : Nat) : Prop where
  tokens : s.world.unresolved c + s.world.queuedFor c + s.world.answers c +
    s.total (fun m => m.inHand c) + s.times (.register c) = s.world.attemptsOf c + s.world.performed c
  pending : s.world.pendingOf c + s.total (fun m => m.does (.begin c)) + s.world.attemptsOf c =
    s.total (fun m => m.loops c) + s.times (.leave c) + s.times (.register c)
  loops : s.total (fun m => m.loops c) + s.times (.leave c) =
    if s.world.pendingOf c = 0 then 0 else 1
  registered : s.times (.register c) + s.total (fun m => m.does (.register c)) =
    s.times (.grant c) + s.world.performed c
  begun : s.world.attemptsOf c =
    s.times (.send c) + s.missed c + s.total fun m => m.does (.send c)
  completed : s.world.answers c = s.world.completedOf c

/-- The threads are in shape and all books balance. -/
structure Sane (s : Network) : Prop where
  valid : s.world.Valid
  fits : ∀ t ∈ s.threads, (t.on s.world).Fits s.past
  balanced : ∀ c, s.Balanced c

end Network

/-! ## Lemmas -/

namespace Machine

variable {past : List Machine} {w w' : World} {control : Control} {stack : List Frame}

/-- What a thread is about to do is not changed by others. -/
theorem act_mono (h : w.Grows w') (hm : Fits past ⟨w, control, stack⟩) :
    act ⟨w', control, stack⟩ = act ⟨w, control, stack⟩ := by
  cases control with
  | run i =>
    cases i with
    | send a headers =>
      obtain ⟨rest, rfl⟩ := hm.control
      have ha : a < w.attempts.size := hm.stack.1.1
      show Act.send (w'.callOf a) = .send (w.callOf a)
      rw [h.callOf a ha]
    | settle c time answer => rcases answer with f | ⟨⟨⟩⟩ | ⟨⟨⟩⟩ <;> rfl
    | _ => rfl
  | done a => rcases stack with ⟨⟩ | ⟨⟨⟩, rest⟩ <;> rfl
  | raised f => rcases stack with ⟨⟩ | ⟨⟨⟩, rest⟩ <;> rfl

theorem hand_mono {i : Instr} (h : w.Grows w') (hm : i.Fits w stack) : i.hand? w' = i.hand? w := by
  cases i with
  | schedule k | unscheduled k f | copy k =>
    exact congrArg some (h.callOf _ (And.left hm))
  | receive a status headers body => exact congrArg some (h.callOf a (And.left hm))
  | _ => rfl

theorem inHand_mono (h : w.Grows w') (hm : Fits past ⟨w, control, stack⟩) (c : Nat) :
    inHand ⟨w', control, stack⟩ c = inHand ⟨w, control, stack⟩ c := by
  cases control with
  | run i => rw [inHand_run, inHand_run, hand_mono h hm.control]
  | done a => rfl
  | raised f => rfl

theorem opens_eq (m : Machine) (c : Nat) :
    m.opens c = if m.world.pendingOf c = 0 then m.does (.register c) else 0 := by
  unfold opens does
  split <;> split <;> simp_all

theorem closes_eq (m : Machine) (c : Nat) :
    m.closes c = if m.world.pendingOf c = 1 then m.does (.retire c) else 0 := by
  unfold closes does
  split <;> split <;> simp_all

/-- A step does one thing. -/
theorem does_or (m : Machine) (a b : Act) (h : a ≠ b) : m.does a + m.does b ≤ 1 := by
  unfold does
  split
  · next ha =>
    rw [if_neg (ha ▸ h)]
  · split <;> omega

/-- Each attempt at the transport has a loop of its own, and so has the one that is about to begin. -/
theorem atTransport_add_begins_le {m : Machine} (hm : m.Fits past) (c : Nat) :
    m.atTransport c + m.does (.begin c) ≤ m.loops c := by
  have ⟨le, top⟩ := sends_le_loops hm.stack c
  by_cases h : m.act = .begin c
  · obtain ⟨w, control, stack⟩ := m
    obtain rfl : control = .run (.begin c) := control_of_begin h
    obtain ⟨rest, rfl⟩ := hm.control
    rw [does_of_eq h]
    exact top rest rfl
  · rw [does_of_ne h]
    exact le

end Machine

namespace Network

variable {s : Network}

theorem le_total {t : Thread} (ht : t ∈ s.threads) (f : Machine → Nat) :
    f (t.on s.world) ≤ s.total f := by
  unfold total
  exact List.single_le_sum (by simp) _ (List.mem_map_of_mem ht)

theorem total_mono {f g : Machine → Nat} (h : ∀ t ∈ s.threads, f (t.on s.world) ≤ g (t.on s.world)) :
    s.total f ≤ s.total g :=
  List.sum_le_sum h

theorem total_add (f g : Machine → Nat) :
    s.total (fun m => f m + g m) = s.total f + s.total g :=
  List.sum_map_add

theorem total_eq_zero {f : Machine → Nat} (h : ∀ t ∈ s.threads, f (t.on s.world) = 0) :
    s.total f = 0 := by
  unfold total
  rw [List.sum_eq_zero]
  simpa using h

theorem total_arrive (s : Network) (t : Thread) (f : Machine → Nat) :
    total { s with threads := t :: s.threads } f = f (t.on s.world) + s.total f := by
  simp [total]

/-- A step of one thread changes a sum by what it changes in that thread. -/
theorem total_move {w : World} {l r : List Thread} {t : Thread} {past past' : List Machine}
    {m : Machine} (f : Machine → Nat) (h : ∀ u ∈ l ++ r, f (u.on m.world) = f (u.on w)) :
    total ⟨m.world, l ++ m.thread :: r, past'⟩ f + f (t.on w) =
      total ⟨w, l ++ t :: r, past⟩ f + f m := by
  have left : l.map (fun u => f (u.on m.world)) = l.map fun u => f (u.on w) :=
    List.map_congr_left fun u hu => h u (List.mem_append_left r hu)
  have right : r.map (fun u => f (u.on m.world)) = r.map fun u => f (u.on w) :=
    List.map_congr_left fun u hu => h u (List.mem_append_right l hu)
  simp only [total, List.map_append, List.map_cons, List.sum_append, List.sum_cons, left, right]
  show _ + (f m + _) + _ = _
  omega

/-- Where a sum over the threads is one thread's share at most, that thread has it all. -/
theorem others_eq_zero {w : World} {l r : List Thread} {t : Thread} {past : List Machine}
    {f : Machine → Nat} (h : total ⟨w, l ++ t :: r, past⟩ f ≤ f (t.on w)) {u : Thread}
    (hu : u ∈ l ++ r) : f (u.on w) = 0 := by
  have sum : ((l ++ r).map fun u => f (u.on w)).sum = 0 := by
    simp only [total, List.map_append, List.map_cons, List.sum_append, List.sum_cons] at h ⊢
    omega
  exact List.sum_eq_zero_iff.1 sum _ (List.mem_map_of_mem hu)

theorem mem_moved {l r : List Thread} {t u : Thread} (h : u ∈ l ++ t :: r) :
    u = t ∨ u ∈ l ++ r := by
  simp only [List.mem_append, List.mem_cons] at h ⊢
  tauto

theorem mem_others {l r : List Thread} {t u : Thread} (h : u ∈ l ++ r) : u ∈ l ++ t :: r := by
  simp only [List.mem_append, List.mem_cons] at h ⊢
  tauto

theorem total_loops (w : World) (l : List Thread) (t : Thread) (r : List Thread)
    (past : List Machine) (m : Machine) (c : Nat) :
    total ⟨m.world, l ++ m.thread :: r, t.on w :: past⟩ (fun m => m.loops c) + (t.on w).loops c =
      total ⟨w, l ++ t :: r, past⟩ (fun m => m.loops c) + m.loops c :=
  total_move (fun m => m.loops c) fun _ _ => rfl

theorem times_cons (w : World) (l : List Thread) (m : Machine) (past : List Machine) (a : Act) :
    times ⟨w, l, m :: past⟩ a = past.countP (fun m => decide (m.act = a)) + m.does a := by
  simp only [times, List.countP_cons, decide_eq_true_eq, Machine.does]

/-! ## What the books promise -/

namespace Balanced

variable {c : Nat} (h : s.Balanced c)
include h

/-- Every registered attempt has begun or waits. -/
theorem times_register :
    s.times (.register c) = s.world.attemptsOf c + s.waiting c := by
  have pending := h.pending
  have loops := h.loops
  unfold waiting
  split at loops <;> omega

end Balanced

namespace Sane

variable (h : s.Sane)
include h

theorem atTransport_add_begins_le (c : Nat) :
    s.total (fun m => m.atTransport c) + s.total (fun m => m.does (.begin c)) ≤
      s.total fun m => m.loops c := by
  rw [← total_add]
  exact total_mono fun t ht => Machine.atTransport_add_begins_le (h.fits t ht) c

theorem loops_le_one (c : Nat) : s.total (fun m => m.loops c) + s.times (.leave c) ≤ 1 := by
  have := (h.balanced c).loops
  split at this <;> omega

/-- What is under way for a performed call is one thing. -/
theorem one (c : Nat) : s.world.unresolved c + s.waiting c + s.world.queuedFor c +
    s.total (fun m => m.inHand c) + s.world.answers c = s.world.performed c := by
  have tokens := (h.balanced c).tokens
  have := (h.balanced c).times_register
  omega

/-- The books are what the next step of each thread relies on. -/
theorem ready {t : Thread} (ht : t ∈ s.threads) : (t.on s.world).Ready := by
  constructor
  · intro c hp
    have loops := (h.balanced c).loops
    have := le_total ht fun m => m.loops c
    have hp : s.world.pendingOf c = 0 := hp
    rw [if_pos hp] at loops
    omega
  · intro c hc
    have one := h.one c
    have := s.world.performed_le_one c
    have := le_total ht fun m => m.inHand c
    show s.world.completedOf c = 0
    rw [← (h.balanced c).completed]
    omega

end Sane

/-! ## Steps -/

section

variable {w : World} {l r : List Thread} {t : Thread} {past : List Machine} {m : Machine}
  (h : Sane ⟨w, l ++ t :: r, past⟩)
include h

/-- The other threads are in shape, whatever one does. -/
theorem Sane.others {u : Thread} (hu : u ∈ l ++ r) : (u.on w).Fits past :=
  h.fits u (mem_others hu)

theorem Sane.own : (t.on w).Fits past := h.fits t (by simp)

theorem Sane.sound (hm : (t.on w).Moves m) : (t.on w).Sound past m :=
  hm.sound h.valid h.own (h.ready (t := t) (by simp))

variable (hs : (t.on w).Sound past m)
include hs

/-- A step changes the sum of what threads are about to do by its own part. -/
theorem Sane.total_does (a : Act) :
    total ⟨m.world, l ++ m.thread :: r, t.on w :: past⟩ (fun m => m.does a) + (t.on w).does a =
      total ⟨w, l ++ t :: r, past⟩ (fun m => m.does a) + m.does a := by
  refine total_move (fun m => m.does a) ?_
  intro u hu
  have same : (u.on m.world).act = (u.on w).act := Machine.act_mono hs.grows (h.others hu)
  simp only [Machine.does, same]

theorem Sane.total_inHand (c : Nat) :
    total ⟨m.world, l ++ m.thread :: r, t.on w :: past⟩ (fun m => m.inHand c) + (t.on w).inHand c =
      total ⟨w, l ++ t :: r, past⟩ (fun m => m.inHand c) + m.inHand c :=
  total_move (fun m => m.inHand c) fun _ hu => Machine.inHand_mono hs.grows (h.others hu) c

/-- The books balance after a step. -/
theorem Balanced.move (c : Nat) :
    Balanced ⟨m.world, l ++ m.thread :: r, t.on w :: past⟩ c := by
  have old := h.balanced c
  have register := times_cons m.world (l ++ m.thread :: r) (t.on w) past (.register c)
  refine ⟨?_, ?_, ?_, ?_, ?_, ?_⟩
  · have live := hs.live c
    have hand := h.total_inHand hs c
    have attempts := hs.attempts c
    have before := old.tokens
    simp only [Machine.live, Thread.on_world, times] at *
    omega
  · have pending := hs.pending c
    have begins := hs.begins c
    have total := h.total_does hs (.begin c)
    have loops := total_loops w l t r past m c
    have stepped := hs.loops c
    have attempts := hs.attempts c
    have leave := times_cons m.world (l ++ m.thread :: r) (t.on w) past (.leave c)
    have before := old.pending
    simp only [Thread.on_world, times] at *
    omega
  · have opens : (t.on w).opens c = if w.pendingOf c = 0 then (t.on w).does (.register c) else 0 :=
      (t.on w).opens_eq c
    have closes : (t.on w).closes c = if w.pendingOf c = 1 then (t.on w).does (.retire c) else 0 :=
      (t.on w).closes_eq c
    have either := (t.on w).does_or (.register c) (.retire c) (by simp)
    have pending := hs.pending c
    have loops := total_loops w l t r past m c
    have stepped := hs.loops c
    have leave := times_cons m.world (l ++ m.thread :: r) (t.on w) past (.leave c)
    have before := old.loops
    simp only [Thread.on_world, times] at *
    by_cases idle : w.pendingOf c = 0
    · rw [if_pos idle] at before opens
      rw [if_neg (by omega)] at closes
      split <;> omega
    · rw [if_neg idle] at before opens
      split at closes <;> split <;> omega
  · have total := h.total_does hs (.register c)
    have registers := hs.registers c
    have grant := times_cons m.world (l ++ m.thread :: r) (t.on w) past (.grant c)
    have before := old.registered
    simp only [Thread.on_world, times] at *
    omega
  · have total := h.total_does hs (.send c)
    have sends := hs.sends c
    have send := times_cons m.world (l ++ m.thread :: r) (t.on w) past (.send c)
    have attempts := hs.attempts c
    have before := old.begun
    simp only [Thread.on_world, times, missed, List.map_cons, List.sum_cons] at *
    omega
  · have completion := hs.completion c
    have before := old.completed
    simp only [Thread.on_world] at *
    omega

/-- A step keeps the network sane. -/
theorem Sane.move : Sane ⟨m.world, l ++ m.thread :: r, t.on w :: past⟩ := by
  refine ⟨hs.valid, ?_, Balanced.move h hs⟩
  intro u hu
  simp only [List.mem_append, List.mem_cons] at hu
  rcases hu with hu | rfl | hu
  · exact (h.others (List.mem_append_left r hu)).mono hs.grows (List.subset_cons_self _ _)
  · exact hs.fits
  · exact (h.others (List.mem_append_right l hu)).mono hs.grows (List.subset_cons_self _ _)

end

/-- A new thread has done nothing yet. -/
theorem arrival_rests {w : World} {t : Thread} (h : Arrival w t) (past : List Machine) :
    (t.on w).Fits past ∧ (t.on w).act = .other ∧ ∀ c, (t.on w).loops c = 0 ∧ (t.on w).inHand c = 0 := by
  cases h with
  | perform p => exact ⟨⟨trivial, World.clear_of_none rfl⟩, rfl, fun c => ⟨rfl, rfl⟩⟩
  | turn a turn answer ha =>
    exact ⟨⟨⟨trivial, trivial⟩, ha, Or.inr ⟨answer, rfl⟩⟩, rfl, fun c => ⟨rfl, rfl⟩⟩
  | runQueue => exact ⟨⟨trivial, rfl⟩, rfl, fun c => ⟨rfl, rfl⟩⟩
  | serve => exact ⟨⟨trivial, rfl⟩, rfl, fun c => ⟨rfl, rfl⟩⟩

theorem Sane.arrive {t : Thread} (h : s.Sane) (ha : Arrival s.world t) :
    Sane { s with threads := t :: s.threads } := by
  obtain ⟨fits, rests, counts⟩ := arrival_rests ha s.past
  have total (f : Machine → Nat) (hf : f (t.on s.world) = 0) :
      Network.total { s with threads := t :: s.threads } f = s.total f := by
    rw [total_arrive, hf, Nat.zero_add]
  have does (a : Act) (hne : a ≠ .other) : (t.on s.world).does a = 0 :=
    Machine.does_of_ne (rests ▸ hne.symm)
  refine ⟨h.valid, ?_, ?_⟩
  · intro u hu
    rcases List.mem_cons.1 hu with rfl | hu
    · exact fits
    · exact h.fits u hu
  · intro c
    have old := h.balanced c
    refine ⟨?_, ?_, ?_, ?_, ?_, old.completed⟩
    · rw [total _ (counts c).2]
      exact old.tokens
    · rw [total _ (does _ (by simp)), total _ (counts c).1]
      exact old.pending
    · rw [total _ (counts c).1]
      exact old.loops
    · rw [total _ (does _ (by simp))]
      exact old.registered
    · rw [total _ (does _ (by simp))]
      exact old.begun

/-- Others do not change what the threads are about to do. -/
theorem Sane.total_meanwhile {w : World} (h : s.Sane) (hm : Meanwhile s.world w) (a : Act) :
    total { s with world := w } (fun m => m.does a) = s.total fun m => m.does a := by
  refine congrArg List.sum (List.map_congr_left fun t ht => ?_)
  have same : (t.on w).act = (t.on s.world).act := Machine.act_mono hm.grows (h.fits t ht)
  simp only [Machine.does, same]

theorem Sane.meanwhile {w : World} (h : s.Sane) (hm : Meanwhile s.world w) :
    Sane { s with world := w } := by
  have answers := hm.answers
  have callOf := hm.callOf
  have callAt (c : Nat) : w.callAt c = s.world.callAt c := by simp only [World.callAt, hm.calls]
  have grows := hm.grows
  have valid : w.Valid := by
    refine ⟨?_, ?_, hm.inOrder⟩
    · rw [hm.attempts, hm.calls]
      intro a ha
      rw [callOf]
      exact h.valid.attempts a ha
    · intro k hk
      rw [hm.attempts]
      exact h.valid.tasks k (hm.queued.mem_iff.1 hk)
  have total (f : Machine → Nat) (hf : ∀ t ∈ s.threads, f (t.on w) = f (t.on s.world)) :
      Network.total { s with world := w } f = s.total f :=
    congrArg List.sum (List.map_congr_left hf)
  have does (a : Act) := h.total_meanwhile hm a
  refine ⟨valid, fun t ht => (h.fits t ht).mono grows (List.Subset.refl _), ?_⟩
  intro c
  have old := h.balanced c
  have attemptsOf : w.attemptsOf c = s.world.attemptsOf c := by
    simp only [World.attemptsOf, hm.attempts]
  have performed : w.performed c = s.world.performed c := by
    simp only [World.performed, hm.calls]
  have pendingOf : w.pendingOf c = s.world.pendingOf c := by simp only [World.pendingOf, callAt]
  have hand := total (fun m => m.inHand c) fun t ht => Machine.inHand_mono grows (h.fits t ht) c
  have loops := total (fun m => m.loops c) fun _ _ => rfl
  refine ⟨?_, ?_, ?_, ?_, ?_, ?_⟩
  · show w.unresolved c + w.queuedFor c + w.answers c + _ + _ = w.attemptsOf c + w.performed c
    rw [hm.unresolved, hm.queuedFor, answers, attemptsOf, performed, hand]
    exact old.tokens
  · show w.pendingOf c + _ + w.attemptsOf c = _
    rw [pendingOf, attemptsOf, does, loops]
    exact old.pending
  · show _ = if w.pendingOf c = 0 then 0 else 1
    rw [pendingOf, loops]
    exact old.loops
  · show _ = _ + w.performed c
    rw [performed, does]
    exact old.registered
  · show w.attemptsOf c = _
    rw [attemptsOf, does]
    exact old.begun
  · show w.answers c = w.completedOf c
    rw [answers, World.completedOf, callAt]
    exact old.completed

theorem Sane.start {w : World} (h : w.Fresh) : Sane { world := w } := by
  have call (c : Nat) : w.callAt c = default := w.callAt_of_le (by simp [h.calls])
  refine ⟨⟨by simp [h.attempts], by simp [h.queued], h.inOrder⟩, by simp, ?_⟩
  intro c
  refine ⟨?_, ?_, ?_, ?_, ?_, ?_⟩
  · simp [World.unresolved, World.queuedFor, World.answers, World.attemptsOf, World.performed, total,
      times, h.attempts, h.queued, h.trace, h.calls]
  · simp [World.pendingOf, World.attemptsOf, call, total, times, h.attempts]
    rfl
  · simp [World.pendingOf, call, total, times]
    rfl
  · simp [World.performed, total, times, h.calls]
  · simp [World.attemptsOf, total, times, missed, h.attempts]
  · simp [World.answers, World.completedOf, call, h.trace]

/-- The books balance in every reachable state. -/
theorem Reachable.sane (h : Reachable s) : s.Sane := by
  induction h with
  | start w h => exact .start h
  | step _ hs ih =>
    cases hs with
    | move w l t r past m hm => exact ih.move (ih.sound hm)
    | arrive _ t ht => exact ih.arrive ht
    | meanwhile _ w hm => exact ih.meanwhile hm

end Network

end RequestFlow
