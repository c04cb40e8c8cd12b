import RequestFlow.Proofs.CopyBlocks
import RequestFlow.Proofs.Refinement
import RequestFlow.Proofs.StreamPlaces

/-!
# What becomes of a stream

Threads carry the streams that transports deliver through resolutions, tasks and copies, while
executors take tasks, refuse them, break their rules or are destroyed with the tasks that wait.  In
every such run a stream is in one place until it is closed, once; only the copy of its own body reads
it, before the close; and it is not read if its outcome came too late, if nothing had changed, or if
no executor took its body.

    each stream is in one place, and keeps to its resolution                   (Streaming.kept)
    streams are closed once, and read by their own copies only                 (streams_closed_once)
-/

namespace RequestFlow

namespace World

/-- Scripts have replies with one body at most. -/
def Proper (w : World) : Prop := ∀ t ∈ w.transport.script, t.Proper

/-- What others may do between two steps: anything but to number streams, to lose or invent tasks,
and to write to the trace other than logs. -/
structure Spares (w w' : World) : Prop where
  streams : w'.streams = w.streams
  queued : w'.queued.Perm w.queued
  trace : ∃ records, w'.trace = w.trace.addLogs records
  proper : w'.Proper

end World

/-- A thread that begins has no stream. -/
structure Thread.EmptyHanded (t : Thread) : Prop where
  control : t.control.Empty
  stack : ∀ f ∈ t.stack, f.stream? = none
  proper : t.control.Proper ∧ ∀ f ∈ t.stack, f.Proper

/-- The thread is at work on something over the stack. -/
def Thread.Above (t : Thread) (base : List Frame) : Prop :=
  ∃ above, t.stack = above ++ base ∧ (above = [] → ∃ i, t.control = .run i)

namespace Network

/-- Runs in which streams are numbered when they come, and are nobody's but the threads' and the
executor's. -/
inductive Streaming : Network → Prop
  | start (w : World) (trace : w.trace = #[]) (queued : w.queued = []) (streams : w.streams = 0)
    (proper : w.Proper) : Streaming { world := w }
  | move {w : World} {l r : List Thread} {t : Thread} {past : List Machine} {m : Machine}
    (h : Streaming ⟨w, l ++ t :: r, past⟩) (hm : (t.on w).Moves m) :
    Streaming ⟨m.world, l ++ m.thread :: r, t.on w :: past⟩
  | arrive {s : Network} (h : Streaming s) (t : Thread) (ht : t.EmptyHanded) :
    Streaming { s with threads := t :: s.threads }
  | meanwhile {s : Network} (h : Streaming s) (w : World) (hw : s.world.Spares w) :
    Streaming { s with world := w }
  /-- An executor that is destroyed destroys the tasks that wait on it. -/
  | discard {s : Network} (h : Streaming s) : Streaming { s with world := s.world.settleExecutor }

/-- Copies of the stream that were begun. -/
def copied (s : Network) (i : Nat) : Nat := (s.past.map fun m => m.copies i).sum

def brought (s : Network) (i : Nat) : Nat := (s.past.map fun m => m.brings i).sum

/-- Somebody has the task, or carried it out. -/
def HasTask (s : Network) (k : CopyTask) : Prop :=
  k ∈ s.world.queued ∨
    (∃ t ∈ s.threads, t.control = .run (.schedule k) ∨ t.control = .run (.copy k)) ∨
    ∃ m ∈ s.past, m.task? = some k

/-- What holds of the streams in every run. -/
structure Kept (s : Network) : Prop where
  place : ∀ i, s.world.closed i + s.world.waits i + s.total (fun m => m.copies i) +
    s.total (fun m => m.resolves i) = s.world.numbered i
  once : ∀ i, s.brought i + s.total (fun m => m.brings i) = s.world.numbered i
  copied : ∀ i, s.copied i ≤ s.world.closed i
  down : ∀ m ∈ s.past, ∀ x, m.TurnsDown x → s.copied x.id = 0 ∧
    0 < s.world.closed x.id + s.total (fun m => holds x.id m.stack)
  within : ∀ m ∈ s.past, ∀ i, m.brings i ≠ 0 → ∀ t ∈ s.threads,
    (t.on s.world).ResolvesOver i m.stack
  origin : ∀ k, s.HasTask k → ∃ m ∈ s.past, ∃ r, m.control = .run (.deliver k.attempt (.reply r)) ∧
    k = ⟨k.attempt, r.status, r.headers, k.stream, r.length⟩ ∧ r.stream = some k.stream
  unread : Unread s.world.trace.toList

/-! ## Traces -/

theorem eq_of_reads {i j : Nat} {e : Event} (h : e.reads i = true) (h' : e.reads j = true) : i = j := by
  cases e <;> simp [Event.reads] at h h'
  · exact h.symm.trans h'
  · exact h.symm.trans h'

theorem unread_append {l l' : List Event} (h : Unread l) (h' : Unread l')
    (across : ∀ e ∈ l', ∀ i, e.reads i = true → .close i ∉ l) : Unread (l ++ l') := by
  refine List.pairwise_append.2 ⟨h, h', ?_⟩
  rintro e he e' he' i rfl
  by_contra reads
  exact across e' he' i (by simpa using reads) he

theorem unread_quiet {l : List Event} (h : ∀ e ∈ l, ∀ i, e.reads i = false) : Unread l :=
  List.pairwise_of_forall_mem_list fun _ _ _ he' i _ => h _ he' i

theorem not_reads {e : Event} (h : e.isOfStream = false) (i : Nat) : e.reads i = false := by
  cases e <;> first | rfl | cases h

section

variable {w w' : World}

theorem unread_aside (h : w.Aside w') (hu : Unread w.trace.toList) : Unread w'.trace.toList := by
  obtain ⟨events, trace, quiet⟩ := h
  rw [trace]
  refine unread_append hu (unread_quiet fun e he => not_reads (quiet e he)) fun e he i reads => ?_
  rw [not_reads (quiet e he)] at reads
  cases reads

/-- A stream that was not closed before is read and closed. -/
theorem unread_closes {i : Nat} {before : List Event} (h : w.Closes i before w')
    (hu : Unread w.trace.toList) (reads : ∀ e ∈ before, e.isOfStream = true → e.reads i = true)
    (first : before = [] ∨ (∀ e ∈ before, e.isOfStream = false) ∨ w.closed i = 0) :
    Unread w'.trace.toList := by
  obtain ⟨after, trace, quiet⟩ := h
  have ofStream {e : Event} {j : Nat} (he : e ∈ before ++ .close i :: after)
      (hj : e.reads j = true) : e ∈ before ∧ j = i := by
    rcases List.mem_append.1 he with he | he
    · refine ⟨he, eq_of_reads hj (reads e he ?_)⟩
      cases e <;> first | rfl | cases hj
    · rcases List.mem_cons.1 he with rfl | he
      · cases hj
      · rw [not_reads (quiet e he)] at hj
        cases hj
  have unclosed (j : Nat) : .close j ∉ before := by
    intro closes
    have := reads _ closes rfl
    simp [Event.reads] at this
  rw [trace]
  refine unread_append hu ?_ ?_
  · refine List.pairwise_append.2 ⟨?_, ?_, ?_⟩
    · refine List.pairwise_of_forall_mem_list fun e he e' _ j hj => ?_
      rw [hj] at he
      exact absurd he (unclosed j)
    · refine unread_quiet fun e he j => ?_
      rcases List.mem_cons.1 he with rfl | he
      · rfl
      · exact not_reads (quiet e he) j
    · intro e he e' _ j hj
      rw [hj] at he
      exact absurd he (unclosed j)
  · intro e he j hj closed
    obtain ⟨inside, rfl⟩ := ofStream he hj
    rcases first with rfl | none | none
    · cases inside
    · rw [not_reads (none e inside)] at hj
      cases hj
    · exact absurd closed (List.count_eq_zero.1 none)

end

end Network

theorem Machine.Carries.unread {m m' : Machine} (h : m.Carries m')
    (hu : Unread m.world.trace.toList) (first : ∀ i, m.copies i ≠ 0 → m.world.closed i = 0) :
    Unread m'.world.trace.toList := by
  cases h with
  | aside empty empty' held beside => exact Network.unread_aside beside.trace hu
  | bring empty control' stream fresh held queued streams trace => exact Network.unread_aside trace hu
  | drop passing down empty' stack queued streams quiet trace =>
    refine Network.unread_closes trace hu (fun e he some => ?_) (.inr (.inl quiet))
    rw [quiet e he] at some
    cases some
  | hold passing down empty' stack beside => exact Network.unread_aside beside.trace hu
  | handOver control stream taken control' stack beside => exact Network.unread_aside beside.trace hu
  | enqueue control taken empty' stack queued streams trace => exact Network.unread_aside trace hu
  | start control taken control' held beside => exact Network.unread_aside beside.trace hu
  | take empty control' held queued streams trace => exact Network.unread_aside trace hu
  | @copy k control empty' stack queued streams before reads trace =>
    refine Network.unread_closes trace hu reads (.inr (.inr (first k.stream.id ?_)))
    rw [(Machine.grip_of_copy control _).copying, tally_self]
    exact Nat.one_ne_zero
  | release empty empty' stack queued streams trace =>
    exact Network.unread_closes trace hu (by simp) (.inl rfl)

namespace Network

/-! ## Moves -/

section

variable {w : World} {l r : List Thread} {t : Thread} {past : List Machine} {m : Machine}

theorem numbered_le_one (w : World) (i : Nat) : w.numbered i ≤ 1 := by
  unfold World.numbered
  split <;> omega

/-- The sums over the threads after a step, against those before it. -/
theorem moved (w : World) (l r : List Thread) (t : Thread) (past : List Machine) (m : Machine)
    (f : Machine → Nat) (hf : ∀ u ∈ l ++ r, f (u.on m.world) = f (u.on w)) :
    total ⟨m.world, l ++ m.thread :: r, t.on w :: past⟩ f + f (t.on w) =
      total ⟨w, l ++ t :: r, past⟩ f + f m := total_move f hf

namespace Kept

section

variable (h : Kept ⟨w, l ++ t :: r, past⟩) (hc : (t.on w).Carries m)

include h

/-- What this thread has of a stream, nobody else has. -/
theorem alone (i : Nat) : w.closed i + w.waits i + (t.on w).copies i + (t.on w).resolves i ≤ 1 := by
  have place := h.place i
  have copies := le_total (s := ⟨w, l ++ t :: r, past⟩) (t := t) (by simp) fun m => m.copies i
  have resolves := le_total (s := ⟨w, l ++ t :: r, past⟩) (t := t) (by simp) fun m => m.resolves i
  have := numbered_le_one w i
  dsimp only at place
  dsimp only [Thread.on_world] at copies resolves
  omega

include hc

theorem place_move (i : Nat) : m.world.closed i + m.world.waits i +
    total ⟨m.world, l ++ m.thread :: r, t.on w :: past⟩ (fun m => m.copies i) +
    total ⟨m.world, l ++ m.thread :: r, t.on w :: past⟩ (fun m => m.resolves i) =
      m.world.numbered i := by
  have place := h.place i
  have effect := (hc.effect i).places
  have copies := moved w l r t past m (fun m => m.copies i) fun _ _ => rfl
  have resolves := moved w l r t past m (fun m => m.resolves i) fun _ _ => rfl
  dsimp only [Thread.on_world] at place effect
  omega

theorem once_move (i : Nat) : brought ⟨m.world, l ++ m.thread :: r, t.on w :: past⟩ i +
    total ⟨m.world, l ++ m.thread :: r, t.on w :: past⟩ (fun m => m.brings i) =
      m.world.numbered i := by
  have once := h.once i
  have effect := (hc.effect i).brings
  have brings := moved w l r t past m (fun m => m.brings i) fun _ _ => rfl
  have before : brought ⟨m.world, l ++ m.thread :: r, t.on w :: past⟩ i =
    (t.on w).brings i + brought ⟨w, l ++ t :: r, past⟩ i := rfl
  dsimp only [Thread.on_world] at once effect
  omega

theorem copied_move (i : Nat) :
    Network.copied ⟨m.world, l ++ m.thread :: r, t.on w :: past⟩ i ≤ m.world.closed i := by
  have copied := h.copied i
  have effect := (hc.effect i).copied
  have before : Network.copied ⟨m.world, l ++ m.thread :: r, t.on w :: past⟩ i =
    (t.on w).copies i + Network.copied ⟨w, l ++ t :: r, past⟩ i := rfl
  dsimp only [Thread.on_world] at copied effect
  omega

theorem down_move {n : Machine} (hn : n ∈ t.on w :: past) {x : Stream} (down : n.TurnsDown x) :
    Network.copied ⟨m.world, l ++ m.thread :: r, t.on w :: past⟩ x.id = 0 ∧
      0 < m.world.closed x.id + total ⟨m.world, l ++ m.thread :: r, t.on w :: past⟩
        (fun m => holds x.id m.stack) := by
  have before : Network.copied ⟨m.world, l ++ m.thread :: r, t.on w :: past⟩ x.id =
    (t.on w).copies x.id + Network.copied ⟨w, l ++ t :: r, past⟩ x.id := rfl
  have holding := moved w l r t past m (fun m => holds x.id m.stack) fun _ _ => rfl
  have copied := h.copied x.id
  have alone := h.alone x.id
  have grip (m : Machine) : m.resolves x.id = tally x.id m.control.passing? + holds x.id m.stack := rfl
  dsimp only [Thread.on_world] at copied
  rcases List.mem_cons.1 hn with rfl | hn
  · obtain ⟨passing, held⟩ := hc.down down
    have hand := grip (t.on w)
    have none := (Machine.grip_of_passing passing x.id).copying
    rw [passing, tally_self] at hand
    have mine := le_total (s := ⟨w, l ++ t :: r, past⟩) (t := t) (by simp)
      fun m => holds x.id m.stack
    dsimp only [Thread.on_world] at mine
    omega
  · obtain ⟨zero, held⟩ := h.down n hn x down
    have place := h.place x.id
    have one := numbered_le_one w x.id
    have effect := (hc.effect x.id).held
    have copies := le_total (s := ⟨w, l ++ t :: r, past⟩) (t := t) (by simp) fun m => m.copies x.id
    have part : total ⟨w, l ++ t :: r, past⟩ (fun m => holds x.id m.stack) ≤
        total ⟨w, l ++ t :: r, past⟩ (fun m => m.resolves x.id) :=
      total_mono fun u _ => Nat.le_add_left _ _
    dsimp only [Thread.on_world] at zero held place effect copies
    omega

theorem within_move {n : Machine} (hn : n ∈ t.on w :: past) {i : Nat} (hi : n.brings i ≠ 0)
    {u : Thread} (hu : u ∈ l ++ m.thread :: r) : (u.on m.world).ResolvesOver i n.stack := by
  have effect := (hc.effect i).brings
  have once := h.once i
  have one := numbered_le_one w i
  have one' := numbered_le_one m.world i
  dsimp only [Thread.on_world] at once effect
  rcases List.mem_cons.1 hn with rfl | hn
  -- the stream comes now, and only this thread has it
  · have mine := le_total (s := ⟨w, l ++ t :: r, past⟩) (t := t) (by simp) fun m => m.brings i
    have alone := h.alone i
    have place := h.place i
    have passing : tally i t.control.passing? ≠ 0 := by
      intro none
      refine hi ?_
      cases hb : t.control.brought? with
      | none => simp [Machine.brings, Thread.on, hb]
      | some x =>
        rw [Machine.brings, show (t.on w).control = t.control from rfl, hb,
          ← Control.passing_of_brought hb, none]
    have grip : (t.on w).resolves i = tally i t.control.passing? + holds i t.stack := rfl
    dsimp only [Thread.on_world] at mine place
    rcases mem_moved hu with rfl | hu
    · refine hc.resolvesOver ⟨fun _ => List.suffix_refl _, over_of_holds ?_⟩ (by omega)
      show holds i t.stack = 0
      omega
    · have all : total ⟨w, l ++ t :: r, past⟩ (fun m => m.resolves i) ≤ (t.on w).resolves i := by
        omega
      have nobody : (u.on w).resolves i = 0 := others_eq_zero all hu
      have both : tally i (u.on m.world).control.passing? + holds i (u.on m.world).stack = 0 := nobody
      exact ⟨fun some => absurd (by omega) some, over_of_holds (by omega)⟩
  · have brought : n.brings i ≤ Network.brought ⟨w, l ++ t :: r, past⟩ i :=
      List.single_le_sum (by simp) _ (List.mem_map_of_mem hn)
    rcases mem_moved hu with rfl | hu
    · exact hc.resolvesOver (h.within n hn i hi t (by simp)) (by omega)
    · exact h.within n hn i hi u (mem_others hu)

end

theorem move (h : Kept ⟨w, l ++ t :: r, past⟩) (hc : (t.on w).Carries m) (hp : (t.on w).Passes m) :
    Kept ⟨m.world, l ++ m.thread :: r, t.on w :: past⟩ := by
  refine ⟨h.place_move hc, h.once_move hc, h.copied_move hc, ?_, ?_, ?_, ?_⟩
  · exact fun n hn x down => h.down_move hc hn down
  · exact fun n hn i hi u hu => h.within_move hc hn hi hu
  · intro k hk
    have older (known : HasTask ⟨w, l ++ t :: r, past⟩ k) : ∃ n ∈ t.on w :: past, ∃ r,
        n.control = .run (.deliver k.attempt (.reply r)) ∧
          k = ⟨k.attempt, r.status, r.headers, k.stream, r.length⟩ ∧ r.stream = some k.stream := by
      obtain ⟨n, hn, reply⟩ := h.origin k known
      exact ⟨n, List.mem_cons_of_mem _ hn, reply⟩
    have mine (hk : t.control = .run (.schedule k) ∨ t.control = .run (.copy k)) :
        HasTask ⟨w, l ++ t :: r, past⟩ k := .inr (.inl ⟨t, by simp, hk⟩)
    have passed (hk : k ∈ w.queued ∨ t.control = .run (.schedule k)) :
        HasTask ⟨w, l ++ t :: r, past⟩ k := hk.elim .inl fun hk => mine (.inl hk)
    rcases hk with hk | ⟨u, hu, hk⟩ | ⟨n, hn, hk⟩
    · exact older (passed (hp.queued k hk))
    · rcases mem_moved hu with rfl | hu
      · rcases hk with hk | hk
        · obtain ⟨r, control, same, stream⟩ := hc.schedules hk
          exact ⟨t.on w, List.mem_cons_self, r, control, same, stream⟩
        · exact older (passed (hp.copies k hk).2)
      · exact older (.inr (.inl ⟨u, mem_others hu, hk⟩))
    · rcases List.mem_cons.1 hn with rfl | hn
      · exact older (mine (.inr (Machine.task?_eq_some.1 hk)))
      · exact older (.inr (.inr ⟨n, hn, hk⟩))
  · refine hc.unread h.unread fun i copies => ?_
    have := h.alone i
    show w.closed i = 0
    omega

end Kept

end

end Network

/-! ## Executors that are destroyed -/

namespace World

/-- The tasks that an executor takes along are closed. -/
theorem closed_foldl (l : List CopyTask) (w : World) (i : Nat) :
    (l.foldl (fun w k => w.closeStream k.stream) w).closed i =
      w.closed i + l.countP fun k => k.stream.id == i := by
  induction l generalizing w with
  | nil => rfl
  | cons k l ih =>
    rw [List.foldl_cons, ih, (Closes.closeStream w k.stream).closed (by simp) i, List.countP_cons, tally]
    simp only [beq_iff_eq]
    omega

theorem settleExecutor_eq (w : World) : w.settleExecutor = w ∨
    ∃ e, w.executor = some e ∧
      w.settleExecutor = (w.queued.foldl (fun w k => w.closeStream k.stream) w).setExecutor
        { e with queue := [] } := by
  unfold settleExecutor
  split
  · exact .inl rfl
  · next e he =>
    split
    · exact .inl rfl
    · refine .inr ⟨e, he, ?_⟩
      rw [queued, he]

theorem foldl_closeStream (l : List CopyTask) (w : World) :
    (l.foldl (fun w k => w.closeStream k.stream) w).streams = w.streams ∧
      (l.foldl (fun w k => w.closeStream k.stream) w).transport = w.transport ∧
        (Unread w.trace.toList →
          Unread (l.foldl (fun w k => w.closeStream k.stream) w).trace.toList) := by
  induction l generalizing w with
  | nil => exact ⟨rfl, rfl, id⟩
  | cons k l ih =>
    obtain ⟨streams, transport, unread⟩ := ih (w.closeStream k.stream)
    refine ⟨streams, transport, fun hu => unread ?_⟩
    exact Network.unread_closes (Closes.closeStream w k.stream) hu (by simp) (.inl rfl)

end World

namespace Network

/-! ## Runs -/

theorem Streaming.proper {s : Network} (h : s.Streaming) :
    s.world.Proper ∧ ∀ t ∈ s.threads, t.control.Proper ∧ ∀ f ∈ t.stack, f.Proper := by
  induction h with
  | start w trace queued streams proper => exact ⟨proper, by simp⟩
  | @move w l r t past m h hm ih =>
    obtain ⟨world, threads⟩ := ih
    obtain ⟨control, stack⟩ := threads t (by simp)
    have next := hm.proper ⟨world, control, stack⟩
    refine ⟨next.script, fun u hu => ?_⟩
    rcases mem_move (t := t) hu with rfl | hu
    · exact ⟨next.control, next.stack⟩
    · exact threads u hu
  | arrive h t ht ih =>
    refine ⟨ih.1, fun u hu => ?_⟩
    rcases List.mem_cons.1 hu with rfl | hu
    · exact ht.proper
    · exact ih.2 u hu
  | meanwhile h w hw ih => exact ⟨hw.proper, ih.2⟩
  | @discard s h ih =>
    refine ⟨?_, ih.2⟩
    rcases s.world.settleExecutor_eq with same | ⟨e, -, same⟩
    · dsimp only
      rw [same]
      exact ih.1
    · have script : s.world.settleExecutor.transport = s.world.transport := by
        rw [same]
        exact (World.foldl_closeStream s.world.queued s.world).2.1
      unfold World.Proper
      dsimp only
      rw [script]
      exact ih.1

theorem Kept.arrive {s : Network} (h : s.Kept) {t : Thread} (ht : t.EmptyHanded) :
    Kept { s with threads := t :: s.threads } := by
  have grip := Machine.grip_of_empty (m := t.on s.world) ht.control
  have nothing (i : Nat) : holds i (t.on s.world).stack = 0 := holds_eq_zero ht.stack
  have resolves (i : Nat) : (t.on s.world).resolves i = 0 := by
    rw [Machine.resolves, (grip i).passing, nothing]
  have total_cons (f : Machine → Nat) :
      total { s with threads := t :: s.threads } f = f (t.on s.world) + s.total f := rfl
  refine ⟨fun i => ?_, fun i => ?_, h.copied, fun m hm x down => ?_, fun m hm i hi u hu => ?_, ?_,
    h.unread⟩
  · rw [total_cons, total_cons, (grip i).copying, resolves, Nat.zero_add, Nat.zero_add]
    exact h.place i
  · rw [total_cons, (grip i).brought, Nat.zero_add]
    exact h.once i
  · rw [total_cons, nothing, Nat.zero_add]
    exact h.down m hm x down
  · rcases List.mem_cons.1 hu with rfl | hu
    · exact ⟨fun some => absurd (grip i).passing some, over_of_holds (nothing i)⟩
    · exact h.within m hm i hi u hu
  · intro k hk
    refine h.origin k ?_
    rcases hk with hk | ⟨u, hu, hk⟩ | hk
    · exact .inl hk
    · rcases List.mem_cons.1 hu with rfl | hu
      · obtain ⟨passing, copying⟩ := ht.control
        rcases hk with hk | hk
        · rw [hk] at passing
          cases passing
        · rw [hk] at copying
          cases copying
      · exact .inr (.inl ⟨u, hu, hk⟩)
    · exact .inr (.inr hk)

/-- The world alone changes, and streams pass from tasks to the closed ones at most. -/
theorem Kept.inWorld {s : Network} (h : s.Kept) {w : World} (streams : w.streams = s.world.streams)
    (places : ∀ i, w.closed i + w.waits i = s.world.closed i + s.world.waits i)
    (grows : ∀ i, s.world.closed i ≤ w.closed i) (queued : ∀ k ∈ w.queued, k ∈ s.world.queued)
    (unread : Unread w.trace.toList) : Kept { s with world := w } := by
  have numbered (i : Nat) : w.numbered i = s.world.numbered i := by
    rw [World.numbered, streams]
    rfl
  refine ⟨fun i => ?_, fun i => ?_, fun i => (h.copied i).trans (grows i), fun m hm x down => ?_,
    h.within, fun k hk => h.origin k ?_, unread⟩
  · have place := h.place i
    show w.closed i + w.waits i + s.total (fun m => m.copies i) +
      s.total (fun m => m.resolves i) = w.numbered i
    rw [places, place, numbered]
  · show s.brought i + s.total (fun m => m.brings i) = w.numbered i
    rw [h.once, numbered]
  · obtain ⟨zero, held⟩ := h.down m hm x down
    exact ⟨zero, held.trans_le (Nat.add_le_add_right (grows x.id) _)⟩
  · exact hk.imp (queued k) id

theorem Kept.meanwhile {s : Network} (h : s.Kept) {w : World} (hw : s.world.Spares w) :
    Kept { s with world := w } := by
  obtain ⟨records, trace⟩ := hw.trace
  have aside : s.world.Aside w := (World.Aside.addLogs s.world records).trans (.of_eq trace)
  have closed := aside.closed
  refine h.inWorld hw.streams (fun i => ?_) (fun i => Nat.le_of_eq (closed i).symm)
    (fun k hk => hw.queued.subset hk) (unread_aside aside h.unread)
  have waits : w.waits i = s.world.waits i := hw.queued.countP_eq _
  rw [closed, waits]

theorem Kept.discard {s : Network} (h : s.Kept) : Kept { s with world := s.world.settleExecutor } := by
  rcases s.world.settleExecutor_eq with same | ⟨e, -, same⟩
  · rw [same]
    exact h
  · obtain ⟨streams, -, unread⟩ := World.foldl_closeStream s.world.queued s.world
    have closed (i : Nat) : s.world.settleExecutor.closed i = s.world.closed i + s.world.waits i := by
      rw [same]
      exact World.closed_foldl s.world.queued s.world i
    have waits (i : Nat) : s.world.settleExecutor.waits i = 0 := by
      rw [same]
      rfl
    refine h.inWorld (by rw [same]; exact streams) (fun i => ?_) (fun i => ?_) (fun k hk => ?_) ?_
    · rw [closed, waits, Nat.add_zero]
    · rw [closed]
      exact Nat.le_add_right _ _
    · rw [same] at hk
      cases hk
    · rw [same]
      exact unread h.unread

/-- Each stream is in one place, and the threads, tasks and copies keep to its resolution. -/
theorem Streaming.kept {s : Network} (h : s.Streaming) : s.Kept := by
  induction h with
  | start w trace queued streams proper =>
    refine ⟨?_, ?_, ?_, by simp, by simp, ?_, by simp [Unread, trace]⟩
    · intro i
      simp [World.closed, World.waits, World.numbered, total, trace, queued, streams]
    · intro i
      simp [brought, World.numbered, total, streams]
    · intro i
      simp [copied]
    · intro k hk
      rcases hk with hk | ⟨t, ht, -⟩ | ⟨m, hm, -⟩
      · rw [queued] at hk
        cases hk
      · cases ht
      · cases hm
  | @move w l r t past m h hm ih =>
    obtain ⟨world, threads⟩ := h.proper
    obtain ⟨control, stack⟩ := threads t (by simp)
    exact ih.move (hm.carries ⟨world, control, stack⟩) hm.passes
  | arrive h t ht ih => exact ih.arrive ht
  | meanwhile h w hw ih => exact ih.meanwhile hw
  | discard h ih => exact ih.discard

theorem Streaming.possible {s : Network} (h : s.Streaming) : s.Possible := by
  induction h with
  | start w trace queued streams proper => exact .start w trace
  | move h hm ih => exact .move ih hm
  | arrive h t ht ih =>
    exact .arrive ih t ht.control.bare
  | meanwhile h w hw ih =>
    obtain ⟨records, trace⟩ := hw.trace
    exact .meanwhile ih w ((World.Tells.addLogs _ records).trans (.of_eq trace))
  | discard h ih => exact .meanwhile ih _ (World.tells_settleExecutor _)

/-! ## Sessions -/

theorem Streaming.run {l r : List Thread} {past : List Machine} (n : Nat) (m : Machine)
    (h : Streaming ⟨m.world, l ++ m.thread :: r, past⟩) :
    Streaming ⟨(Machine.run n m).world, l ++ (Machine.run n m).thread :: r, trail n m ++ past⟩ :=
  run_induction (fun _ m h => .move (t := m.thread) h (.step m)) n m h

end Network

theorem Thread.EmptyHanded.of_control {c : Control} (empty : c.Empty) (proper : c.Proper) :
    Thread.EmptyHanded ⟨c, []⟩ := ⟨empty, by simp, proper, by simp⟩

/-- A thread that has nothing to do. -/
theorem Thread.emptyHanded_done (a : Answer) : Thread.EmptyHanded ⟨.done a, []⟩ :=
  .of_control ⟨rfl, rfl⟩ trivial

namespace World

variable {w w' : World}

theorem Spares.of_same (proper : w'.Proper) (streams : w'.streams = w.streams)
    (queued : w'.queued = w.queued) (trace : w'.trace = w.trace) : w.Spares w' :=
  ⟨streams, .of_eq queued, ⟨[], trace⟩, proper⟩

/-- The executor may change, but for the tasks that wait on it. -/
theorem Proper.mapExecutor (h : w.Proper) {f : Executor → Executor}
    (hf : ∀ e, (f e).queue = e.queue) : w.Spares (w.mapExecutor f) := by
  refine .of_same h rfl ?_ rfl
  unfold queued World.mapExecutor
  cases w.executor with
  | none => rfl
  | some e => exact hf e

end World

namespace Network

/-- What a session does to the world before a machine runs. -/
theorem Streaming.begin {s : Network} (h : s.Streaming) (op : Operation) :
    Streaming { s with
      world := (s.world.begin op).world, threads := (s.world.begin op).thread :: s.threads } := by
  have proper := h.proper.1
  have rest := Thread.emptyHanded_done .nothing
  cases op with
  | perform p => exact h.arrive ⟨.run (.perform p), []⟩ (.of_control ⟨rfl, rfl⟩ trivial)
  | runTasks => exact h.arrive ⟨.run (.runQueue 0), []⟩ (.of_control ⟨rfl, rfl⟩ trivial)
  | refuseTasks on =>
    exact (h.meanwhile (s.world.mapExecutor fun e => { e with refusing := on })
      (proper.mapExecutor fun _ => rfl)).arrive _ rest
  | deferAttempts on =>
    exact (h.meanwhile { s.world with transport := { s.world.transport with deferred := on } }
      (.of_same proper rfl rfl rfl)).arrive _ rest
  | resolve =>
    cases waiting : s.world.transport.waiting with
    | nil =>
      simp only [World.begin, waiting]
      exact h.arrive _ (Thread.emptyHanded_done (.flag false))
    | cons a rest =>
      simp only [World.begin, waiting]
      obtain ⟨turn, script⟩ := Machine.proper_nextTurn
        (t := { s.world.transport with waiting := rest }) proper
      refine (h.meanwhile { s.world with
        transport := ({ s.world.transport with waiting := rest } : Transport).nextTurn.2 }
        (.of_same script rfl rfl rfl)).arrive ⟨.run (.turn a
          ({ s.world.transport with waiting := rest } : Transport).nextTurn.1),
          [.answering (.flag true)]⟩ ⟨⟨rfl, rfl⟩, ?_, turn, ?_⟩
      · simp [Frame.stream?]
      · simp [Frame.Proper]
  | advance ns =>
    exact (h.meanwhile (s.world.advance ns) (.of_same proper rfl rfl rfl)).arrive _ rest
  | classifyWith c =>
    exact (h.meanwhile (s.world.addClassifier c) (.of_same proper rfl rfl rfl)).arrive _ rest
  | detachExecutor =>
    exact (h.meanwhile (s.world.mapExecutor fun e => { e with attached := false })
      (proper.mapExecutor fun _ => rfl)).discard.arrive _ rest
  | dropNetwork =>
    have absent := h.meanwhile { s.world with present := false } (.of_same proper rfl rfl rfl)
    have detached := absent.proper.1.mapExecutor (f := fun e => { e with attached := false })
      fun _ => rfl
    exact (absent.meanwhile _ detached).discard.arrive _ rest
  | dropExecutor =>
    exact (h.meanwhile (s.world.mapExecutor fun e => { e with held := false })
      (proper.mapExecutor fun _ => rfl)).discard.arrive _ rest
  | submitMode mode =>
    exact (h.meanwhile (s.world.mapExecutor fun e => { e with mode := mode })
      (proper.mapExecutor fun _ => rfl)).arrive _ rest

theorem Streaming.serveAll {s : Network} (h : s.Streaming) :
    ∃ threads, Streaming ⟨s.world.serveAll, threads, s.world.serveTrail ++ s.past⟩ := by
  unfold World.serveAll World.serveTrail
  cases s.world.executor with
  | none => exact ⟨s.threads, h⟩
  | some e =>
    dsimp only
    split
    · have serves : Thread.EmptyHanded ⟨.run .serve, []⟩ := .of_control ⟨rfl, rfl⟩ trivial
      exact ⟨_, Streaming.run (l := []) _ (Machine.doing s.world .serve []) (h.arrive _ serves)⟩
    · exact ⟨s.threads, h⟩

/-- Every operation of a session is a run, whatever the mode of its executor. -/
theorem Streaming.apply {s : Network} (h : s.Streaming) (op : Operation) :
    ∃ threads, Streaming ⟨(s.world.apply op).2, threads, s.world.trailOf op ++ s.past⟩ := by
  have performed := Streaming.run (l := []) (s.world.budget op.performs) (s.world.begin op) (h.begin op)
  obtain ⟨threads, served⟩ := performed.serveAll
  refine ⟨threads, ?_⟩
  unfold World.trailOf
  rw [List.append_assoc]
  exact served

theorem Streaming.applyAll {s : Network} (h : s.Streaming) (ops : List Operation) :
    ∃ threads, Streaming ⟨s.world.applyAll ops, threads, s.world.trailAll ops ++ s.past⟩ := by
  induction ops generalizing s with
  | nil => exact ⟨s.threads, h⟩
  | cons op ops ih =>
    obtain ⟨threads, applied⟩ := h.apply op
    have := ih applied
    rwa [← List.append_assoc] at this

/-! ## Results -/

/-- What becomes of the stream that the machine delivers for the attempt. -/
structure Disposes (s : Network) (m : Machine) (a : Nat) (x : Stream) : Prop where
  place : s.world.closed x.id + s.world.waits x.id + s.total (fun m => m.copies x.id) +
    s.total (fun m => m.resolves x.id) = 1
  within : ∀ t ∈ s.threads, (t.on s.world).resolves x.id ≠ 0 → t.Above m.stack
  closed : (∀ t ∈ s.threads, ¬ t.Above m.stack) → (∀ k ∈ s.world.queued, k.stream ≠ x) →
    (∀ t ∈ s.threads, ∀ k, t.control = .run (.copy k) → k.stream ≠ x) → s.world.closed x.id = 1
  unread : ∀ before after, s.world.trace.toList = before ++ .close x.id :: after →
    ∀ e ∈ after, e.reads x.id = false
  own : ∀ e ∈ s.world.trace, e.reads x.id = true →
    ∃ n ∈ s.past, ∃ k, n.task? = some k ∧ k.attempt = a ∧ k.stream = x ∧ e ∈ n.block
  once : s.copied x.id ≤ 1
  down : ∀ n ∈ s.past, n.TurnsDown x → ∀ e ∈ s.world.trace, e.reads x.id = false

/-- A machine of the past that brings the stream is the only one. -/
theorem eq_of_sum_le_one {l : List Machine} {f : Machine → Nat} (h : (l.map f).sum ≤ 1) {m n : Machine}
    (hm : m ∈ l) (hn : n ∈ l) (some : f m ≠ 0) (some' : f n ≠ 0) : n = m := by
  induction l with
  | nil => cases hm
  | cons a l ih =>
    have sum : f a + (l.map f).sum ≤ 1 := h
    have member {b : Machine} (hb : b ∈ l) : f b ≤ (l.map f).sum :=
      List.single_le_sum (by simp) _ (List.mem_map_of_mem hb)
    rcases List.mem_cons.1 hm with rfl | inside <;> rcases List.mem_cons.1 hn with rfl | inside'
    · rfl
    · have := member inside'
      omega
    · have := member inside
      omega
    · exact ih (by omega) inside inside'

/-- A frame that closes the stream is above the stack that its resolution began on. -/
theorem above_of_over {i : Nat} {base stack : List Frame} (h : Over i base stack)
    (held : holds i stack ≠ 0) : ∃ above, stack = above ++ base ∧ above ≠ [] := by
  induction stack with
  | nil => exact absurd rfl held
  | cons f stack ih =>
    obtain ⟨first, others⟩ := h
    by_cases some : tally i f.stream? = 0
    · have rest : holds i stack ≠ 0 := by
        intro none
        refine held ?_
        show tally i f.stream? + holds i stack = 0
        omega
      obtain ⟨above, same, -⟩ := ih others rest
      exact ⟨f :: above, by rw [same]; rfl, by simp⟩
    · obtain ⟨above, same⟩ := first some
      exact ⟨f :: above, by rw [← same]; rfl, by simp⟩

theorem Kept.within_above {s : Network} (h : s.Kept) {m : Machine} (hm : m ∈ s.past) {i : Nat}
    (hi : m.brings i ≠ 0) {t : Thread} (ht : t ∈ s.threads) (some : (t.on s.world).resolves i ≠ 0) :
    t.Above m.stack := by
  obtain ⟨hand, stack⟩ := h.within m hm i hi t ht
  have both : (t.on s.world).resolves i = tally i t.control.passing? + holds i t.stack := rfl
  by_cases held : holds i t.stack = 0
  · have passing : tally i t.control.passing? ≠ 0 := by omega
    obtain ⟨above, same⟩ := hand passing
    refine ⟨above, same.symm, fun _ => ?_⟩
    cases hc : t.control with
    | run j => exact ⟨j, rfl⟩
    | done a | raised f =>
      rw [hc] at passing
      exact absurd rfl passing
  · obtain ⟨above, same, busy⟩ := above_of_over stack held
    exact ⟨above, same, fun none => absurd none busy⟩

/-- The machine that brought the stream of a task delivers the reply that the task is for. -/
theorem Kept.of_task {s : Network} (h : s.Kept) {m : Machine} (hm : m ∈ s.past) {a : Nat}
    {o : Outcome Stream} {x : Stream} (hc : m.control = .run (.deliver a o)) (hx : o.stream? = some x)
    {k : CopyTask} (hk : s.HasTask k) (same : k.stream.id = x.id) : k.attempt = a ∧ k.stream = x := by
  obtain ⟨n, hn, r, control, -, stream⟩ := h.origin k hk
  have brings : m.brings x.id ≠ 0 := by
    rw [(Machine.grip_of_deliver hc x.id).brought, hx, tally_self]
    exact Nat.one_ne_zero
  have brings' : n.brings x.id ≠ 0 := by
    rw [(Machine.grip_of_deliver control x.id).brought, show (Outcome.reply r).stream? = _ from stream,
      ← same, tally_self]
    exact Nat.one_ne_zero
  have once : s.brought x.id ≤ 1 :=
    (Nat.le_add_right _ _).trans ((h.once x.id).le.trans (numbered_le_one _ _))
  obtain rfl := eq_of_sum_le_one (f := fun m => m.brings x.id) once hm hn brings brings'
  rw [hc] at control
  cases control
  exact ⟨rfl, Option.some.inj (stream.symm.trans hx)⟩

/-- Reads are what copies of the stream did. -/
theorem Streaming.read_by_copy {s : Network} (h : s.Streaming) {e : Event} (he : e ∈ s.world.trace)
    {i : Nat} (reads : e.reads i = true) :
    ∃ n ∈ s.past, ∃ k, n.task? = some k ∧ k.stream.id = i ∧ e ∈ n.block := by
  have dealing : e.isDealing = true := by cases e <;> first | rfl | cases reads
  have inside : e ∈ s.world.trace.toList.filter Event.isDealing :=
    List.mem_filter.2 ⟨Array.mem_toList_iff.2 he, dealing⟩
  rw [h.possible.blocks.trace] at inside
  obtain ⟨n, hn, he⟩ := List.mem_flatMap.1 inside
  have he := (List.mem_filter.1 he).1
  cases hk : n.task? with
  | none => simp [Machine.block, hk] at he
  | some k =>
    obtain ⟨w, control, stack⟩ := n
    obtain rfl : control = .run (.copy k) := Machine.task?_eq_some.1 hk
    obtain ⟨before, after, block, own, quiet⟩ := Machine.block_closes w stack k
    refine ⟨_, List.mem_reverse.1 hn, k, hk, ?_, he⟩
    have ofStream : e.isOfStream = true := by cases e <;> first | rfl | cases reads
    rw [block] at he
    rcases List.mem_append.1 he with he | he
    · exact eq_of_reads (own e he ofStream) reads
    · rcases List.mem_cons.1 he with rfl | he
      · cases reads
      · rw [quiet e he] at ofStream
        cases ofStream

/-- **Streams are closed once, and read by their own copies only.**  From the moment that it is
delivered a stream is in one place: in the hands of the resolution, which are free when the resolution
returns, with a task that waits or is carried out, or closed, once.  Reads of it are those of the one
copy of its own body, and come before the close.  There are none if the stream came too late, with
word that nothing has changed, or to an executor that did not take its body. -/
theorem streams_closed_once {s : Network} (h : s.Streaming) {m : Machine} (hm : m ∈ s.past) {a : Nat}
    {o : Outcome Stream} {x : Stream} (hc : m.control = .run (.deliver a o))
    (hx : o.stream? = some x) : s.Disposes m a x := by
  have kept := h.kept
  have brings : m.brings x.id ≠ 0 := by
    rw [(Machine.grip_of_deliver hc x.id).brought, hx, tally_self]
    exact Nat.one_ne_zero
  have brought : m.brings x.id ≤ s.brought x.id :=
    List.single_le_sum (by simp) _ (List.mem_map_of_mem hm)
  have numbered : s.world.numbered x.id = 1 := by
    have := kept.once x.id
    have := numbered_le_one s.world x.id
    omega
  have place := kept.place x.id
  rw [numbered] at place
  have within (t : Thread) (ht : t ∈ s.threads) := kept.within_above hm brings ht
  have task {k : CopyTask} := kept.of_task hm hc hx (k := k)
  refine ⟨place, within, ?_, ?_, ?_, ?_, ?_⟩
  · intro returned waiting copying
    have resolves : s.total (fun m => m.resolves x.id) = 0 :=
      total_eq_zero fun t ht => by
        by_contra some
        exact returned t ht (within t ht some)
    have waits : s.world.waits x.id = 0 := by
      refine List.countP_eq_zero.2 fun k hk => ?_
      intro same
      exact waiting k hk (task (.inl hk) (by simpa using same)).2
    have copies : s.total (fun m => m.copies x.id) = 0 := by
      refine total_eq_zero fun t ht => ?_
      by_contra some
      obtain ⟨k, hk, same⟩ := Machine.task_of_copies some
      exact copying t ht k hk (task (.inr (.inl ⟨t, ht, .inr hk⟩)) same).2
    omega
  · intro before after trace e he
    have unread := kept.unread
    rw [trace] at unread
    obtain ⟨-, later, -⟩ := List.pairwise_append.1 unread
    exact List.rel_of_pairwise_cons later he x.id rfl
  · intro e he reads
    obtain ⟨n, hn, k, hk, same, inside⟩ := h.read_by_copy he reads
    obtain ⟨attempt, stream⟩ := task (.inr (.inr ⟨n, hn, hk⟩)) same
    exact ⟨n, hn, k, hk, attempt, stream, inside⟩
  · have := kept.copied x.id
    omega
  · intro n hn down e he
    by_contra reads
    obtain ⟨c, hcopy, k, hk, same, -⟩ := h.read_by_copy he (by simpa using reads)
    have copies : c.copies x.id ≠ 0 := by
      rw [(Machine.grip_of_copy (Machine.task?_eq_some.1 hk) x.id).copying, ← same, tally_self]
      exact Nat.one_ne_zero
    have none := (kept.down n hn x down).1
    exact copies (List.sum_eq_zero_iff.1 none _ (List.mem_map_of_mem hcopy))

/-- A body that breaks off, with a late one behind it; then a body that no executor takes, and word
that nothing has changed, with a body, to a caller who raises a fault. -/
def fourBodies : World where
  requests := #[some { url := text "u", method := text "GET" }]
  config := { bodyBuffer := 4 }
  classifiers := #[.granting 2]
  transport := { script := [
    { deliveries := [{ outcome := .reply (.ofStream 200 [] (some (.failing (text "ab") 1))) },
      { outcome := .reply (.ofStream 200 [] (some (.chunked (text "late") 1 false))) }] },
    .deliver (.reply (.ofStream 200 [] (some (.chunked (text "none") 1 true)))),
    .deliver (.reply (.ofStream 304 [] (some (.chunked (text "same") 1 false))))] }

def fourBodiesOps : List Operation :=
  [.perform ⟨0, .raise (text "boom"), .rest⟩, .refuseTasks true, .runTasks]

theorem streams_closed_once_fourBodies :
    ∃ s : Network, s.Streaming ∧ s.world = fourBodies.applyAll fourBodiesOps ∧
      (∀ m ∈ s.past, ∀ a o x, m.control = .run (.deliver a o) → o.stream? = some x →
        s.Disposes m a x) ∧
      (s.past.reverse.filterMap fun m => m.control.brought?).map Stream.id = [0, 1, 2, 3] ∧
      s.world.trace.toList.filter Event.isOfStream =
        [.close 1, .read 0 4 1, .read 0 3 1, .readFault 0 2 (text "connection reset by peer"),
          .close 0, .close 2, .close 3] := by
  have proper : fourBodies.Proper := by
    intro t ht
    simp only [fourBodies, List.mem_cons, List.not_mem_nil, or_false] at ht
    rcases ht with rfl | rfl | rfl <;> simp [Turn.Proper, Outcome.Proper, Reply.ofStream, Turn.deliver]
  obtain ⟨threads, run⟩ := (Streaming.start fourBodies rfl rfl rfl proper).applyAll fourBodiesOps
  have brought : ((fourBodies.trailAll fourBodiesOps ++ []).reverse.filterMap fun m : Machine =>
      m.control.brought?).map Stream.id = [0, 1, 2, 3] := by decide +kernel
  have trace : (fourBodies.applyAll fourBodiesOps).trace.toList.filter Event.isOfStream =
      [.close 1, .read 0 4 1, .read 0 3 1, .readFault 0 2 (text "connection reset by peer"),
        .close 0, .close 2, .close 3] := by decide +kernel
  exact ⟨_, run, rfl, fun m hm a o x hc hx => streams_closed_once run hm hc hx, brought, trace⟩

end Network

end RequestFlow
