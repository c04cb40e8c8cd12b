import RequestFlow.Proofs.Bodies
import RequestFlow.Proofs.Closing
import RequestFlow.Proofs.Latest

/-!
# Copies in a run

A copy is one block of the trace of a run.  It is made inside the executor, and what it leads to, be
it the answer of the call or its next attempt, comes behind the block.  The blocks do not depend on
rules that an executor or a transport keeps; `Possible` has all runs, with threads that begin with
anything but a copy.  That the call of a copy has no answer yet, and that its attempt is still the
latest, takes an executor in order.

    the copies of a run are blocks of its trace                                (Possible.blocks)
    a body that waits for its copy belongs to the latest attempt               (Reachable.current)
    copies settle on every way out, and are blocks of every run                (copies_settle)
-/

namespace RequestFlow

/-- The attempt of the task is the latest of its call. -/
def World.Awaited (w : World) (k : CopyTask) : Prop := w.IsLast (w.callOf k.attempt) k.attempt

namespace Network

/-- Every run, also with executors and transports that keep to no rule. -/
inductive Possible : Network → Prop
  | start (w : World) (h : w.trace = #[]) : Possible { world := w }
  | move {w : World} {l r : List Thread} {t : Thread} {past : List Machine} {m : Machine}
    (h : Possible ⟨w, l ++ t :: r, past⟩) (hm : (t.on w).Moves m) :
    Possible ⟨m.world, l ++ m.thread :: r, t.on w :: past⟩
  | arrive {s : Network} (h : Possible s) (t : Thread) (ht : t.control.Bare) :
    Possible { s with threads := t :: s.threads }
  | meanwhile {s : Network} (h : Possible s) (w : World) (hw : s.world.Tells w) :
    Possible { s with world := w }

/-- The copies so far are blocks of the trace, and executors are at work on them. -/
structure Blocks (s : Network) : Prop where
  trace : s.world.trace.toList.filter Event.isDealing =
    s.past.reverse.flatMap fun m => m.block.filter Event.isDealing
  kept : ∀ m ∈ s.past, m.world.trace.toList ++ m.block <+: s.world.trace.toList
  works : ∀ t ∈ s.threads, ∀ k, t.control = .run (.copy k) →
    ∃ f rest, t.stack = f :: rest ∧ f.Works k
  worked : ∀ m ∈ s.past, ∀ k, m.task? = some k → ∃ f rest, m.stack = f :: rest ∧ f.Works k

/-- Bodies that wait for their copies belong to the latest attempts of calls without an answer. -/
structure Current (s : Network) : Prop where
  queued : ∀ k ∈ s.world.queued, s.world.Awaited k
  inHand : ∀ t ∈ s.threads, ∀ k, t.control = .run (.schedule k) ∨ t.control = .run (.copy k) →
    s.world.Awaited k
  copied : ∀ m ∈ s.past, ∀ k, m.task? = some k →
    m.world.answers (m.world.callOf k.attempt) = 0 ∧ m.world.Awaited k

/-! ## Blocks -/

theorem filter_isDealing_eq_nil {events : List Event} (h : ∀ e ∈ events, e.isDealing = false) :
    events.filter Event.isDealing = [] := by
  rw [List.filter_eq_nil_iff]
  intro e he
  simp [h e he]

section

variable {w : World} {l r : List Thread} {t : Thread} {past : List Machine} {m : Machine}

theorem mem_move {u v : Thread} (h : u ∈ l ++ v :: r) : u = v ∨ u ∈ l ++ t :: r := by
  simp only [List.mem_append, List.mem_cons] at h ⊢
  tauto

theorem Blocks.move (h : Blocks ⟨w, l ++ t :: r, past⟩) (hp : (t.on w).Passes m) :
    Blocks ⟨m.world, l ++ m.thread :: r, t.on w :: past⟩ := by
  obtain ⟨events, trace, none⟩ := hp.trace
  have longer : w.trace.toList ++ (t.on w).block <+: m.world.trace.toList :=
    ⟨events, by rw [trace, List.append_assoc]; rfl⟩
  refine ⟨?_, ?_, ?_, ?_⟩
  · have quiet := filter_isDealing_eq_nil none
    have before : w.trace.toList.filter Event.isDealing =
      past.reverse.flatMap fun m => m.block.filter Event.isDealing := h.trace
    show m.world.trace.toList.filter _ = (t.on w :: past).reverse.flatMap _
    rw [trace, List.filter_append, List.filter_append, quiet, List.append_nil, List.reverse_cons,
      List.flatMap_append, Thread.on_world, before]
    simp
  · intro n hn
    rcases List.mem_cons.1 hn with rfl | hn
    · exact longer
    · exact (h.kept n hn).trans ((List.prefix_append _ _).trans longer)
  · intro u hu k hk
    rcases mem_move (t := t) hu with rfl | hu
    · exact (hp.copies k hk).1
    · exact h.works u hu k hk
  · intro n hn k hk
    rcases List.mem_cons.1 hn with rfl | hn
    · exact h.works t (by simp) k (Machine.task?_eq_some.1 hk)
    · exact h.worked n hn k hk

end

theorem Blocks.meanwhile {s : Network} {w : World} (h : s.Blocks) (hw : s.world.Tells w) :
    Blocks { s with world := w } := by
  obtain ⟨events, trace, none⟩ := hw
  refine ⟨?_, ?_, h.works, h.worked⟩
  · have quiet := filter_isDealing_eq_nil none
    show w.trace.toList.filter _ = _
    rw [trace, List.filter_append, quiet, List.append_nil]
    exact h.trace
  · intro m hm
    exact (h.kept m hm).trans ⟨events, trace.symm⟩

/-- The copies of a run are blocks of its trace. -/
theorem Possible.blocks {s : Network} (h : s.Possible) : s.Blocks := by
  induction h with
  | start w h => exact ⟨by simp [h], by simp, by simp, by simp⟩
  | move _ hm ih => exact ih.move hm.passes
  | arrive _ t ht ih =>
    refine ⟨ih.trace, ih.kept, ?_, ih.worked⟩
    intro u hu k hk
    rcases List.mem_cons.1 hu with rfl | hu
    · rw [hk] at ht
      exact ht.elim
    · exact ih.works u hu k hk
  | meanwhile _ w hw ih => exact ih.meanwhile hw

theorem Reachable.possible {s : Network} (h : s.Reachable) : s.Possible := by
  induction h with
  | start w h => exact .start w h.trace
  | step _ hs ih =>
    cases hs with
    | move w l t r past m hm => exact .move ih hm
    | arrive _ t ht => exact .arrive ih t (by cases ht <;> trivial)
    | meanwhile _ w hm =>
      obtain ⟨records, trace⟩ := hm.trace
      refine .meanwhile ih w ((World.Tells.addLogs _ records).trans (.of_eq ?_))
      exact trace

/-! ## Attempts -/

theorem Sane.none_at_begin {s : Network} (h : s.Sane) {t : Thread} (ht : t ∈ s.threads) {c : Nat}
    (hb : (t.on s.world).act = .begin c) :
    s.world.queuedFor c = 0 ∧ s.total (fun m => m.inHand c) = 0 := by
  have begins := le_total ht fun m => m.does (.begin c)
  rw [Machine.does_of_eq hb] at begins
  have one := h.one c
  have performed := s.world.performed_le_one c
  unfold waiting at one
  omega

theorem inHand_eq_one {w : World} {t : Thread} {k : CopyTask}
    (hk : t.control = .run (.schedule k) ∨ t.control = .run (.copy k)) :
    (t.on w).inHand (w.callOf k.attempt) = 1 := by
  rcases hk with hk | hk <;> simp [Machine.inHand, Thread.on, hk, Instr.hand?]

theorem queuedFor_pos {w : World} {k : CopyTask} (hk : k ∈ w.queued) :
    0 < w.queuedFor (w.callOf k.attempt) :=
  List.countP_pos_iff.2 ⟨k, hk, by simp⟩

/-- The call of a body that is being copied has no answer. -/
theorem Sane.unanswered {s : Network} (h : s.Sane) {t : Thread} (ht : t ∈ s.threads) {k : CopyTask}
    (hk : t.control = .run (.copy k)) : s.world.answers (s.world.callOf k.attempt) = 0 := by
  have one := h.one (s.world.callOf k.attempt)
  have := s.world.performed_le_one (s.world.callOf k.attempt)
  have := le_total ht fun m => m.inHand (s.world.callOf k.attempt)
  have hand : (t.on s.world).inHand (s.world.callOf k.attempt) = 1 := inHand_eq_one (Or.inr hk)
  omega

theorem Current.move {w : World} {l r : List Thread} {t : Thread} {past : List Machine}
    {m : Machine} (h : Current ⟨w, l ++ t :: r, past⟩) (sane : Sane ⟨w, l ++ t :: r, past⟩)
    (ordered : Ordered ⟨w, l ++ t :: r, past⟩) (hm : (t.on w).Moves m) :
    Current ⟨m.world, l ++ m.thread :: r, t.on w :: past⟩ := by
  have sound := sane.sound hm
  have passes := hm.passes
  have stays {k : CopyTask} (last : w.Awaited k)
      (hb : (t.on w).act ≠ .begin (w.callOf k.attempt)) : m.world.Awaited k := by
    have same : m.world.callOf k.attempt = w.callOf k.attempt := sound.grows.callOf _ last.1
    rw [World.Awaited, same]
    exact sound.isLast last hb
  -- while a body of the call waits, no attempt of it begins, so its attempt stays the latest
  have ofQueue {k : CopyTask} (hk : k ∈ w.queued) : m.world.Awaited k := by
    refine stays (h.queued k hk) fun hb => ?_
    have := (sane.none_at_begin (t := t) (by simp) hb).1
    exact absurd (queuedFor_pos hk) (by simpa using this)
  have ofHand {u : Thread} (hu : u ∈ l ++ t :: r) {k : CopyTask}
      (hk : u.control = .run (.schedule k) ∨ u.control = .run (.copy k)) : m.world.Awaited k := by
    refine stays (h.inHand u hu k hk) fun hb => ?_
    have none : total ⟨w, l ++ t :: r, past⟩ (fun m => m.inHand (w.callOf k.attempt)) = 0 :=
      (sane.none_at_begin (t := t) (by simp) hb).2
    have some := le_total (s := ⟨w, l ++ t :: r, past⟩) hu fun m => m.inHand (w.callOf k.attempt)
    rw [none, inHand_eq_one hk] at some
    cases some
  refine ⟨?_, ?_, ?_⟩
  · intro k hk
    rcases passes.queued k hk with hk | hk
    · exact ofQueue hk
    · exact ofHand (u := t) (by simp) (Or.inl hk)
  · intro u hu k hk
    rcases mem_move (t := t) hu with rfl | hu
    · rcases hk with hk | hk
      -- a body that is handed over came with the outcome of an unresolved attempt
      · obtain ⟨open', o, hc⟩ := passes.schedules k hk
        have inside : k.attempt < w.attempts.size := by
          have fits := sane.own.control
          rw [hc] at fits
          exact fits.1
        refine stays (ordered.unresolved _ inside open') ?_
        simp [Machine.act, hc]
      · rcases (passes.copies k hk).2 with hk | hk
        · exact ofQueue hk
        · exact ofHand (u := t) (by simp) (Or.inl hk)
    · exact ofHand hu hk
  · intro n hn k hk
    rcases List.mem_cons.1 hn with rfl | hn
    · have hk := Machine.task?_eq_some.1 hk
      exact ⟨sane.unanswered (t := t) (by simp) hk, h.inHand t (by simp) k (Or.inr hk)⟩
    · exact h.copied n hn k hk

theorem Current.meanwhile {s : Network} {w : World} (h : s.Current) (hm : Meanwhile s.world w) :
    Current { s with world := w } := by
  have stays {k : CopyTask} (last : s.world.Awaited k) : w.Awaited k := by
    rw [World.Awaited, hm.callOf]
    exact hm.isLast last
  refine ⟨?_, fun t ht k hk => stays (h.inHand t ht k hk), h.copied⟩
  intro k hk
  exact stays (h.queued k (hm.queued.subset hk))

/-- A body that waits for its copy belongs to the latest attempt of a call without an answer. -/
theorem Reachable.current {s : Network} (h : s.Reachable) : s.Current := by
  induction h with
  | start w h => exact ⟨by simp [h.queued], by simp, by simp⟩
  | step hr hs ih =>
    cases hs with
    | move w l t r past m hm => exact ih.move hr.sane hr.ordered hm
    | arrive _ t ht =>
      refine ⟨ih.queued, ?_, ih.copied⟩
      intro u hu k hk
      rcases List.mem_cons.1 hu with rfl | hu
      · cases ht <;> simp at hk
      · exact ih.inHand u hu k hk
    | meanwhile _ w hm => exact ih.meanwhile hm

/-! ## Sessions -/

end Network

namespace World

theorem tells_settleExecutor (w : World) : w.Tells w.settleExecutor := by
  have closed (l : List CopyTask) (v : World) :
      v.Tells (l.foldl (fun w t => w.closeStream t.stream) v) := by
    induction l generalizing v with
    | nil => exact .refl v
    | cons t l ih => exact (Tells.closeStream v t.stream).trans (ih _)
  unfold settleExecutor
  split
  · exact .refl w
  · split
    · exact .refl w
    · exact (closed _ w).trans (.of_eq rfl)

/-- An operation begins with no body in hand. -/
theorem begin_tells (w : World) (op : Operation) :
    w.Tells (w.begin op).world ∧ (w.begin op).control.Bare := by
  have same {v : World} (h : v.trace = w.trace) : w.Tells v := .of_eq h
  cases op with
  | resolve =>
    unfold begin
    dsimp only
    split
    · exact ⟨same rfl, trivial⟩
    · exact ⟨same rfl, trivial⟩
  | detachExecutor | dropNetwork | dropExecutor =>
    exact ⟨(same rfl).trans (tells_settleExecutor _), trivial⟩
  | perform _ | runTasks | refuseTasks _ | deferAttempts _ | advance _ | classifyWith _
  | submitMode _ => exact ⟨same rfl, trivial⟩

end World

namespace Network

theorem Possible.run {l r : List Thread} {past : List Machine} (n : Nat) (m : Machine)
    (h : Possible ⟨m.world, l ++ m.thread :: r, past⟩) :
    Possible ⟨(Machine.run n m).world, l ++ (Machine.run n m).thread :: r, trail n m ++ past⟩ :=
  run_induction (fun _ m h => .move (t := m.thread) h (.step m)) n m h

/-- Threads that work alone, one after the other, are a run. -/
theorem Possible.begin {s : Network} (h : s.Possible) (n : Nat) (m : Machine)
    (hw : s.world.Tells m.world) (hm : m.control.Bare) :
    ∃ s' : Network, s'.Possible ∧ s'.world = (Machine.run n m).world :=
  ⟨_, Possible.run (l := []) n m (.arrive (.meanwhile h m.world hw) m.thread hm), rfl⟩

/-- Every operation of a session is a run, with any mode of its executor. -/
theorem Possible.apply {s : Network} (h : s.Possible) (op : Operation) :
    ∃ s' : Network, s'.Possible ∧ s'.world = (s.world.apply op).2 := by
  obtain ⟨tells, bare⟩ := s.world.begin_tells op
  obtain ⟨s', possible, world⟩ := h.begin (s.world.budget op.performs) _ tells bare
  have rest : (s.world.apply op).2 = s'.world.serveAll := by rw [world]; rfl
  rw [rest]
  unfold World.serveAll
  split
  · exact ⟨s', possible, rfl⟩
  · split
    · exact possible.begin _ _ (.refl _) trivial
    · exact ⟨s', possible, rfl⟩

/-! ## Results -/

/-- The copy of the task was made by an executor, as one block of the trace, and before all that it
led to. -/
structure InBlock (s : Network) (m : Machine) (k : CopyTask) : Prop where
  worked : ∃ f rest, m.stack = f :: rest ∧ f.Works k
  block : m.block = (Machine.tracedEvents m.world (copyBody k.stream.id k.stream.source k.length
    m.world.pool m.world.config.bodyBuffer).trace).toList
  kept : m.world.trace.toList ++ m.block <+: s.world.trace.toList
  whole : m.step.world.trace.toList = m.world.trace.toList ++ m.block
  under : m.step.stack = m.stack
  next : (∃ body, m.step.control = .run (.receive k.attempt k.status k.headers body)) ∨
    ∃ context, m.step.control = .run (.fail (m.world.callOf k.attempt) context)
  before : s.Reachable → m.world.answers (m.world.callOf k.attempt) = 0 ∧ m.world.Awaited k

theorem Possible.inBlock {s : Network} (h : s.Possible) {m : Machine} (hm : m ∈ s.past)
    {k : CopyTask} (hk : m.task? = some k) : s.InBlock m k := by
  have blocks := h.blocks
  have worked := blocks.worked m hm k hk
  have kept := blocks.kept m hm
  have before (hr : s.Reachable) := hr.current.copied m hm k hk
  obtain ⟨w, control, stack⟩ := m
  obtain rfl : control = .run (.copy k) := Machine.task?_eq_some.1 hk
  obtain ⟨trace, -, under, next⟩ := Machine.copy_next w k stack
  exact ⟨worked, rfl, kept, trace, under, next, before⟩

/-- **Copies settle.** However a copy ends, every buffer that it was lent was given back once, the
stream was closed once and last, and what the close raises changes nothing else.  In every run the
copies are all the dealings with streams and pools, and each one is a block of the trace, made by an
executor before all that it leads to. -/
theorem copies_settle :
    (∀ (S P : Type) [ByteSource S] [BufferPool P] (stream : Nat) (source : S) (length : Int)
        (pool : P) (defaultSize : Nat),
      (∃ l last logs, Settled stream source pool
        (copyBody stream source length pool defaultSize) l last logs) ∧
      ∀ fault, SameButClose stream (copyBody stream source length pool defaultSize)
        (copyBody stream (⟨source, fault⟩ : Closing S) length pool defaultSize)) ∧
    ∀ s : Network, s.Possible →
      s.world.trace.toList.filter Event.isDealing =
        (s.past.reverse.flatMap fun m => m.block.filter Event.isDealing) ∧
      ∀ m ∈ s.past, ∀ k, m.task? = some k → s.InBlock m k := by
  constructor
  · intro S P _ _ stream source length pool defaultSize
    exact ⟨copyBody_settled .., fun fault => copyBody_closing ..⟩
  · intro s h
    exact ⟨h.blocks.trace, fun m hm k hk => h.inBlock hm hk⟩

/-- A first body that breaks off, and a second one whose stream fails to close. -/
def brokenOnce : World where
  requests := #[some { url := text "u", method := text "GET" }]
  config := { bodyBuffer := 4 }
  classifiers := #[.granting 1]
  transport := { script := [.deliver (.reply (.ofStream 200 [] (some (.failing (text "ab") 1)))),
    .deliver (.reply (.ofStream 200 [] (some (.chunked (text "ok") 1 true))))] }

/-- The request is performed, and then the executor runs its tasks. -/
def brokenOnceRun : Network :=
  let performed := alone 40 (Machine.doing brokenOnce (.perform ⟨0, .rest, .rest⟩) [])
  let tasks := Machine.doing performed.world (.runQueue 0) []
  ⟨(Machine.run 80 tasks).world, (Machine.run 80 tasks).thread :: performed.threads,
    trail 80 tasks ++ performed.past⟩

theorem brokenOnceRun_reachable : brokenOnceRun.Reachable := by
  have fresh : brokenOnce.Fresh := by
    refine ⟨rfl, rfl, rfl, rfl, ?_⟩
    intro e he
    cases he
    rfl
  have performed := Reachable.alone fresh ⟨0, .rest, .rest⟩ 40
  exact Reachable.run (l := []) 80 _ (performed.step (.arrive _ _ .runQueue))

theorem copies_settle_brokenOnce :
    brokenOnceRun.Reachable ∧ brokenOnceRun.Possible ∧
      (brokenOnceRun.past.reverse.filterMap Machine.task?).map CopyTask.attempt = [0, 1] ∧
      (∀ m ∈ brokenOnceRun.past, ∀ k, m.task? = some k → brokenOnceRun.InBlock m k) ∧
      (brokenOnceRun.past.reverse.flatMap fun m => m.block.filter Event.isDealing) =
        [.lease 4 1 4, .read 0 4 1, .read 0 3 1,
          .readFault 0 2 (text "connection reset by peer"), .release 1 4,
          .lease 4 1 4, .read 1 4 1, .read 1 3 1, .read 1 2 0, .release 1 4] := by
  have possible := brokenOnceRun_reachable.possible
  obtain ⟨trace, blocks⟩ := copies_settle.2 brokenOnceRun possible
  refine ⟨brokenOnceRun_reachable, possible, by decide +kernel, blocks, ?_⟩
  rw [← trace]
  decide +kernel

end Network

end RequestFlow
