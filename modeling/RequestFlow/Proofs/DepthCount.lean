import RequestFlow.Proofs.DrivenRuns
import RequestFlow.Proofs.Nesting

/-!
# How deep a transport counts

A transport counts one up when it is entered with an attempt and one down when it returns; the
greatest count is what a test looks at.  A fault that leaves the transport passes the place where it
counts down.  So the count is the number of attempts at the transport and of the faults that have left
it so far, and the greatest count is the greatest nesting only if no such fault counts for more.

    the frames of an attempt and of its count stand in pairs             (Paired.nesting)
    the count is the nesting and the faults that have left               (Gauged.move)
    when the greatest count is the greatest nesting                      (Lone.maxDepth_eq_deepest_iff)
-/

namespace RequestFlow

/-! ## Counts -/

/-- Whether the frame is one that the transport counts down at. -/
def Frame.isNested : Frame → Bool
  | .nested => true
  | _ => false

namespace Machine

/-- What the transport will count down when the stack returns. -/
def counted (m : Machine) : Nat := m.stack.countP Frame.isNested

/-- The next step enters the transport. -/
def enters (m : Machine) : Bool :=
  match m.control with
  | .run (.send ..) => true
  | _ => false

/-- The next step is a fault that leaves the transport. -/
def breaksOut (m : Machine) : Bool :=
  match m.control, m.stack with
  | .raised _, .nested :: _ => true
  | _, _ => false

end Machine

/-- The most attempts that were at the transport, one inside the other. -/
def deepest (past : List Machine) : Nat := (past.map Machine.nesting).foldr max 0

/-- The faults that have left the transport. -/
def broken (past : List Machine) : Nat := past.countP Machine.breaksOut

/-- The most attempts at the transport together with the faults that had left it before. -/
def highest : List Machine → Nat
  | [] => 0
  | m :: past => if m.enters then max (m.nesting + broken past) (highest past) else highest past

/-- An attempt at the transport is on top of the stack. -/
def tops : List Frame → Bool
  | .sending _ :: _ => true
  | _ => false

/-- An attempt at the transport has the place of its count directly above it, or is on top. -/
def Paired : List Frame → Prop
  | [] => True
  | f :: stack => f.isNested = tops stack ∧ Paired stack

namespace Machine

/-- The stack is in pairs, and an attempt is on top only when it enters or has returned. -/
structure InPairs (m : Machine) : Prop where
  stack : Paired m.stack
  control : ∀ i, m.control = .run i → m.enters = tops m.stack

/-- What a step does to the counts. -/
structure Counts (m m' : Machine) : Prop where
  pairs : m'.InPairs
  prompt : m'.world.transport.deferred = false
  depth : m'.world.transport.depth + m.counted = m.world.transport.depth + m'.counted +
    if m.breaksOut then 1 else 0
  maxDepth : m'.world.transport.maxDepth =
    if m.enters then max m.world.transport.maxDepth (m.world.transport.depth + 1)
    else m.world.transport.maxDepth
  nesting : m'.enters = false → m'.nesting ≤ m.nesting

/-- What holds of the counts in every run. -/
structure Gauged (past : List Machine) (m : Machine) : Prop where
  pairs : m.InPairs
  prompt : m.world.transport.deferred = false
  depth : m.world.transport.depth = m.counted + broken past
  maxDepth : m.world.transport.maxDepth = highest past
  entered : m.enters = false → m.nesting ≤ highest past
  entries : ∀ e ∈ past, e.enters = true → 0 < e.nesting
  deepest : deepest past ≤ highest past

end Machine

/-! ## Lists of machines -/

theorem nesting_le_deepest {past : List Machine} {m : Machine} (h : m ∈ past) :
    m.nesting ≤ deepest past := by
  induction past with
  | nil => cases h
  | cons n past ih =>
    show m.nesting ≤ max n.nesting (deepest past)
    rcases List.mem_cons.1 h with rfl | h
    · exact Nat.le_max_left _ _
    · exact Nat.le_trans (ih h) (Nat.le_max_right _ _)

theorem deepest_le {past : List Machine} {n : Nat} (h : ∀ m ∈ past, m.nesting ≤ n) :
    deepest past ≤ n := by
  induction past with
  | nil => exact Nat.zero_le _
  | cons m past ih =>
    exact Nat.max_le.2 ⟨h m List.mem_cons_self, ih fun k hk => h k (List.mem_cons_of_mem _ hk)⟩

theorem highest_cons (m : Machine) (past : List Machine) : highest (m :: past) =
    if m.enters then max (m.nesting + broken past) (highest past) else highest past := rfl

theorem broken_cons (m : Machine) (past : List Machine) :
    broken (m :: past) = broken past + if m.breaksOut then 1 else 0 := List.countP_cons

/-- A bound on what was counted is a bound on what each entry counted. -/
theorem highest_le_iff {past : List Machine} {n : Nat} :
    highest past ≤ n ↔ ∀ e before, e :: before <:+ past → e.enters = true →
      e.nesting + broken before ≤ n := by
  induction past with
  | nil => simp [highest]
  | cons m past ih =>
    have split (e : Machine) (before : List Machine) :
        e :: before <:+ m :: past ↔ (e = m ∧ before = past) ∨ e :: before <:+ past := by
      rw [List.suffix_cons_iff, List.cons.injEq]
    simp only [split, or_imp, forall_and, ← ih, and_imp, highest_cons]
    cases entering : m.enters with
    | true => simp [entering]
    | false => simp [entering]

theorem highest_le (past : List Machine) : highest past ≤ deepest past + broken past := by
  refine highest_le_iff.2 fun e before h _ => ?_
  have nesting := nesting_le_deepest (h.subset List.mem_cons_self)
  have faults : broken before ≤ broken past :=
    ((List.suffix_cons e before).trans h).sublist.countP_le
  omega

/-! ## Steps -/

theorem Paired.nesting {stack : List Frame} (h : Paired stack) :
    stack.countP Frame.isSending = stack.countP Frame.isNested + (tops stack).toNat := by
  induction stack with
  | nil => rfl
  | cons f stack ih =>
    have top := h.1
    rw [List.countP_cons, List.countP_cons, ih h.2, ← top]
    cases f <;> simp [Frame.isSending, Frame.isNested, tops]

namespace Machine

theorem InPairs.nesting {m : Machine} (h : m.InPairs) :
    m.nesting = m.counted + (tops m.stack).toNat := h.stack.nesting

theorem InPairs.nesting_enters {m : Machine} (h : m.InPairs) (he : m.enters = true) :
    m.nesting = m.counted + 1 := by
  obtain ⟨w, control, stack⟩ := m
  cases control with
  | run i => rw [h.nesting, ← h.control i rfl, he, Bool.toNat_true]
  | done a => cases he
  | raised f => cases he

/-- What an instruction leaves on the stack, apart from entering the transport. -/
inductive Pushes (stack : List Frame) (m' : Machine) : Prop
  | nothing (same : m'.stack = stack) (he : m'.enters = false)
  | frame (f : Frame) (pushed : m'.stack = f :: stack) (other : f.isNested = false)
    (he : m'.enters = f.isSending)

section

variable {w : World} {stack : List Frame}

theorem exec_pushes {i : Instr} (hs : ∀ a headers, i ≠ .send a headers) :
    Pushes stack (exec w i stack) := by
  cases i with
  | send a headers => exact absurd rfl (hs a headers)
  | deliver a o =>
    simp only [exec, deliver]
    split
    · exact .nothing rfl rfl
    · cases o with
      | authFailure message => exact .nothing rfl rfl
      | failure f => exact .nothing rfl rfl
      | reply r =>
        simp only [openReply]
        split
        · cases r.stream with
          | none => exact .nothing rfl rfl
          | some s => exact .frame (.holding s) rfl rfl rfl
        · split <;> exact .nothing rfl rfl
  | schedule k =>
    simp only [exec, schedule]
    split
    · exact .frame (.holding k.stream) rfl rfl rfl
    · split
      · exact .frame (.holding k.stream) rfl rfl rfl
      · split
        · exact .frame (.submitting k false) rfl rfl rfl
        · exact .frame (.submitting k true) rfl rfl rfl
        · split
          · exact .frame (.holding k.stream) rfl rfl rfl
          · exact .nothing rfl rfl
        · split
          · exact .frame (.holding k.stream) rfl rfl rfl
          · exact .nothing rfl rfl
  | dispatch c =>
    simp only [exec, dispatch]
    split
    · exact .frame (.attempts c) rfl rfl rfl
    · exact .nothing rfl rfl
  | begin c =>
    simp only [exec, begin]
    split
    · exact .nothing rfl rfl
    · exact .frame (.sending (w.openAttempt c).1) rfl rfl rfl
  | turn a t =>
    simp only [exec, takeTurn]
    split
    · split <;> exact .nothing rfl rfl
    · next d rest _ => exact .frame (.turn a { t with deliveries := rest }) rfl rfl rfl
  | react r =>
    cases r with
    | rest => exact .nothing rfl rfl
    | raise message => exact .nothing rfl rfl
    | perform request onSuccess onError fault => exact .frame (.reacting fault) rfl rfl rfl
  | runQueue n =>
    simp only [exec, runQueue]
    split
    · exact .nothing rfl rfl
    · exact .frame (.queue n) rfl rfl rfl
  | serve =>
    simp only [exec, serve]
    split
    · exact .nothing rfl rfl
    · exact .frame .worker rfl rfl rfl
  | perform _ | unscheduled _ _ | copy _ | receive _ _ _ _ | fail _ _ | settle _ _ _ | complete _ _ =>
    simp only [exec, perform, unscheduled, copy, receive, fail, settle, complete]
    repeat' split
    all_goals exact .nothing rfl rfl

/-- An instruction that does not enter the transport leaves its counts alone. -/
theorem Pushes.counts {m m' : Machine} (h : Pushes m.stack m') (hp : m.InPairs)
    (prompt : m.world.transport.deferred = false) {i : Instr} (hi : m.control = .run i)
    (aside : m.enters = false) (same : m'.world.transport = m.world.transport) : m.Counts m' := by
  have top : tops m.stack = false := (hp.control i hi).symm.trans aside
  have stays : m.breaksOut = false := by
    rw [breaksOut, hi]
  have counted {n : Nat} (h : m'.counted = m.counted) : m'.world.transport.depth + m.counted =
      m.world.transport.depth + m'.counted + if m.breaksOut then 1 else 0 := by
    rw [same, h, stays]
    rfl
  have still : m'.world.transport.maxDepth =
      if m.enters then max m.world.transport.maxDepth (m.world.transport.depth + 1)
      else m.world.transport.maxDepth := by
    rw [same, aside]
    rfl
  have prompt' : m'.world.transport.deferred = false := by
    rw [same]
    exact prompt
  cases h with
  | nothing unchanged he =>
    refine ⟨⟨?_, fun j _ => ?_⟩, prompt', counted (n := 0) ?_, still, fun _ => ?_⟩
    · rw [unchanged]
      exact hp.stack
    · rw [unchanged, he, top]
    · rw [Machine.counted, unchanged]
      rfl
    · rw [Machine.nesting, unchanged]
      exact Nat.le_refl _
  | frame f pushed other he =>
    refine ⟨⟨?_, fun j _ => ?_⟩, prompt', counted (n := 0) ?_, still, fun none => ?_⟩
    · rw [pushed]
      exact ⟨other.trans top.symm, hp.stack⟩
    · rw [pushed, he]
      cases f <;> rfl
    · rw [Machine.counted, pushed, List.countP_cons, other]
      rfl
    · rw [Machine.nesting, pushed, List.countP_cons, ← he, none]
      exact Nat.le_refl _

theorem send_counts {a : Nat} {headers : List Header}
    (hp : InPairs ⟨w, .run (.send a headers), stack⟩) (prompt : w.transport.deferred = false) :
    Counts ⟨w, .run (.send a headers), stack⟩ (send w a headers stack) := by
  have top : true = tops stack := hp.control _ rfl
  have next (t : Transport) : t.nextTurn.2.deferred = t.deferred ∧ t.nextTurn.2.depth = t.depth ∧
      t.nextTurn.2.maxDepth = t.maxDepth := by
    unfold Transport.nextTurn
    split <;> exact ⟨rfl, rfl, rfl⟩
  have later : (w.transport.noteSent headers (w.requestOf (w.callOf a)).timeout).deferred = false :=
    prompt
  unfold send
  simp only [World.note, later, Bool.false_eq_true, if_false]
  obtain ⟨deferred, depth, maxDepth⟩ :=
    next (w.transport.noteSent headers (w.requestOf (w.callOf a)).timeout).enter
  refine ⟨⟨⟨top, hp.stack⟩, fun j _ => rfl⟩, deferred.trans prompt, ?_, maxDepth, fun _ => ?_⟩
  · have depth : Transport.depth (Transport.nextTurn _).2 = w.transport.depth + 1 := depth
    show Transport.depth (Transport.nextTurn _).2 + stack.countP Frame.isNested =
      w.transport.depth + (Frame.nested :: stack).countP Frame.isNested + 0
    rw [depth, List.countP_cons, Nat.add_zero, Nat.add_assoc, Nat.add_comm 1]
    rfl
  · exact Nat.le_refl _

/-- A frame that the transport does not count at is taken off, or gone on with. -/
theorem counts_pop {control : Control} {f : Frame} {m' : Machine}
    (hp : InPairs ⟨w, control, f :: stack⟩) (prompt : w.transport.deferred = false)
    (hc : ∀ i, control ≠ .run i) (other : f.isNested = false)
    (popped : m'.stack = stack ∨ m'.stack = f :: stack ∧ f.isSending = false)
    (he : m'.enters = false) (same : m'.world.transport = w.transport) :
    Counts ⟨w, control, f :: stack⟩ m' := by
  have top : tops stack = false := hp.stack.1.symm.trans other
  have aside : enters ⟨w, control, f :: stack⟩ = false := by
    cases control with
    | run i => exact absurd rfl (hc i)
    | done a => rfl
    | raised fault => rfl
  have stays : breaksOut ⟨w, control, f :: stack⟩ = false := by
    cases control with
    | run i => exact absurd rfl (hc i)
    | done a => rfl
    | raised fault => cases f <;> first | rfl | cases other
  have counted : counted ⟨w, control, f :: stack⟩ = stack.countP Frame.isNested := by
    rw [Machine.counted, List.countP_cons, other]
    rfl
  refine ⟨⟨?_, fun j _ => ?_⟩, by rw [same]; exact prompt, ?_, by rw [same, aside]; rfl, fun _ => ?_⟩
  · rcases popped with popped | ⟨popped, -⟩
    · rw [popped]
      exact hp.stack.2
    · rw [popped]
      exact hp.stack
  · rcases popped with popped | ⟨popped, sending⟩
    · rw [popped, he, top]
    · rw [popped, he]
      cases f <;> first | rfl | cases sending
  · rw [same, stays, counted]
    rcases popped with popped | ⟨popped, -⟩
    · rw [Machine.counted, popped]
      rfl
    · rw [Machine.counted, popped, List.countP_cons, other]
      rfl
  · rcases popped with popped | ⟨popped, -⟩
    · rw [Machine.nesting, Machine.nesting, popped, List.countP_cons]
      exact Nat.le_add_right _ _
    · rw [Machine.nesting, popped]
      exact Nat.le_refl _

/-- The transport returns, or a fault leaves it. -/
theorem counts_leave {control : Control} {t : Transport} (hp : InPairs ⟨w, control, .nested :: stack⟩)
    (prompt : t.deferred = false) (hc : ∀ i, control ≠ .run i)
    (depth : t.depth + 1 = w.transport.depth +
      if breaksOut ⟨w, control, .nested :: stack⟩ then 1 else 0)
    (maxDepth : t.maxDepth = w.transport.maxDepth) {x : Control} (hc' : ∀ i, x ≠ .run i) :
    Counts ⟨w, control, .nested :: stack⟩ ⟨{ w with transport := t }, x, stack⟩ := by
  have aside : enters ⟨w, control, .nested :: stack⟩ = false := by
    cases control with
    | run i => exact absurd rfl (hc i)
    | done a => rfl
    | raised fault => rfl
  have counted : counted ⟨w, control, .nested :: stack⟩ = stack.countP Frame.isNested + 1 :=
    List.countP_cons_of_pos rfl
  refine ⟨⟨hp.stack.2, fun j hj => absurd hj (hc' j)⟩, prompt, ?_, by rw [aside]; exact maxDepth,
    fun _ => ?_⟩
  · show t.depth + _ = w.transport.depth + stack.countP Frame.isNested + _
    rw [counted]
    omega
  · exact List.Sublist.countP_le (List.sublist_cons_self _ _)

theorem resume_counts {a : Answer} {f : Frame} (hp : InPairs ⟨w, .done a, f :: stack⟩)
    (prompt : w.transport.deferred = false)
    (below : counted ⟨w, .done a, f :: stack⟩ ≤ w.transport.depth) :
    Counts ⟨w, .done a, f :: stack⟩ (resume w f stack) := by
  have run (i : Instr) : Control.done a ≠ .run i := by simp
  cases f with
  | nested =>
    refine counts_leave (t := w.transport.leave) (x := .done .nothing) hp prompt run ?_ rfl
      (by simp)
    have : 1 ≤ w.transport.depth := Nat.le_trans (by simp [counted, Frame.isNested]) below
    show w.transport.depth - 1 + 1 = w.transport.depth
    omega
  | attempts c =>
    simp only [resume, nextAttempt]
    split
    · exact counts_pop hp prompt run rfl (.inr ⟨rfl, rfl⟩) rfl rfl
    · exact counts_pop hp prompt run rfl (.inl rfl) rfl rfl
  | submitting k fails => cases fails <;> exact counts_pop hp prompt run rfl (.inl rfl) rfl rfl
  | reacting fault => cases fault <;> exact counts_pop hp prompt run rfl (.inl rfl) rfl rfl
  | sending _ | turn _ _ | holding _ | answering _ | queue _ | worker =>
    exact counts_pop hp prompt run rfl (.inl rfl) rfl rfl

theorem unwind_counts {fault : Fault} {f : Frame} (hp : InPairs ⟨w, .raised fault, f :: stack⟩)
    (prompt : w.transport.deferred = false) :
    Counts ⟨w, .raised fault, f :: stack⟩ (unwind w fault f stack) := by
  have run (i : Instr) : Control.raised fault ≠ .run i := by simp
  cases f with
  | nested => exact counts_leave (t := w.transport) hp prompt run rfl rfl (by simp)
  | sending a =>
    simp only [unwind]
    split <;> exact counts_pop hp prompt run rfl (.inl rfl) rfl rfl
  | attempts _ | turn _ _ | holding _ | submitting _ _ | reacting _ | answering _ | queue _
  | worker => exact counts_pop hp prompt run rfl (.inl rfl) rfl rfl

end

variable {past : List Machine} {m m' : Machine}

theorem Counts.refl (hp : m.InPairs) (prompt : m.world.transport.deferred = false)
    (aside : m.enters = false) (stays : m.breaksOut = false) : m.Counts m := by
  refine ⟨hp, prompt, ?_, ?_, fun _ => Nat.le_refl _⟩
  · rw [stays]
    rfl
  · rw [aside]
    rfl

theorem Moves.counts (h : m.Moves m') (hp : m.InPairs) (prompt : m.world.transport.deferred = false)
    (below : m.counted ≤ m.world.transport.depth) : m.Counts m' := by
  cases h with
  | judge w c context answer stack =>
    have stays : Pushes stack ⟨w, .run (.settle c context.networkTime answer), stack⟩ :=
      .nothing rfl rfl
    exact stays.counts hp prompt rfl rfl rfl
  | step =>
    obtain ⟨w, control, stack⟩ := m
    cases control with
    | run i =>
      by_cases sends : ∃ a headers, i = .send a headers
      · obtain ⟨a, headers, rfl⟩ := sends
        exact send_counts hp prompt
      · have other (a : Nat) (headers : List Header) : i ≠ .send a headers :=
          fun hi => sends ⟨a, headers, hi⟩
        have aside : enters ⟨w, .run i, stack⟩ = false := by
          cases i <;> first | rfl | exact absurd rfl (other _ _)
        exact (exec_pushes other).counts hp prompt rfl aside (exec_transport other)
    | done a =>
      cases stack with
      | nil => exact .refl hp prompt rfl rfl
      | cons f stack => exact resume_counts hp prompt below
    | raised fault =>
      cases stack with
      | nil => exact .refl hp prompt rfl rfl
      | cons f stack => exact unwind_counts hp prompt

/-- The count is the nesting and the faults that have left, before a step and after it. -/
theorem Gauged.move (h : Gauged past m) (hm : m.Moves m') : Gauged (m :: past) m' := by
  have depth := h.depth
  have counts := hm.counts h.pairs h.prompt (by omega)
  have broken := broken_cons m past
  have depth' := counts.depth
  have reached : m.nesting ≤ highest (m :: past) := by
    rw [highest_cons]
    split
    · omega
    · next aside => exact h.entered (by simpa using aside)
  have grown : highest past ≤ highest (m :: past) := by
    rw [highest_cons]
    split <;> omega
  refine ⟨counts.pairs, counts.prompt, by omega, ?_, ?_, ?_, ?_⟩
  · rw [counts.maxDepth, highest_cons, h.maxDepth]
    split
    · next entering =>
      rw [h.pairs.nesting_enters entering, depth, Nat.max_comm, Nat.add_right_comm]
    · rfl
  · exact fun aside => Nat.le_trans (counts.nesting aside) reached
  · intro e he entering
    rcases List.mem_cons.1 he with rfl | he
    · rw [h.pairs.nesting_enters entering]
      exact Nat.succ_pos _
    · exact h.entries e he entering
  · exact Nat.max_le.2 ⟨reached, Nat.le_trans h.deepest grown⟩

end Machine

/-! ## Runs -/

theorem Lone.gauged {past : List Machine} {m : Machine} (h : Lone past m) : Machine.Gauged past m := by
  induction h with
  | start w h =>
    refine ⟨⟨trivial, by simp [Machine.finished]⟩, h.prompt, ?_, ?_, fun _ => Nat.zero_le _,
      by simp, Nat.zero_le _⟩
    · exact h.depth
    · exact h.maxDepth
  | move h hm ih => exact ih.move hm
  | meanwhile h w hw ih =>
    have pairs := ih.pairs
    exact ⟨⟨pairs.stack, pairs.control⟩, hw.prompt.trans ih.prompt, hw.depth.trans ih.depth,
      hw.maxDepth.trans ih.maxDepth, ih.entered, ih.entries, ih.deepest⟩
  | @next past m h idle t ht ih =>
    have quiet : m.counted = 0 := by
      unfold Machine.isIdle at idle
      split at idle
      · cases idle
      · next _ stack _ => rw [Machine.counted, stack]; rfl
      · cases idle
    have depth := ih.depth
    have bottom : (t.on m.world).InPairs ∧ (t.on m.world).counted = 0 ∧
        (t.on m.world).nesting = 0 := by
      cases ht <;> exact ⟨⟨by simp [Thread.on, Paired, Frame.isNested, tops], fun _ _ => rfl⟩, rfl, rfl⟩
    obtain ⟨pairs, counted, nesting⟩ := bottom
    refine ⟨pairs, ih.prompt, ?_, ih.maxDepth, fun _ => ?_, ih.entries, ih.deepest⟩
    · rw [counted, ← quiet]
      exact depth
    · rw [nesting]
      exact Nat.zero_le _

theorem Lone.run {past : List Machine} (n : Nat) (m : Machine) (h : Lone past m) :
    Lone (Network.trail n m ++ past) (Machine.run n m) := by
  induction n generalizing m past with
  | zero => exact h
  | succ n ih =>
    unfold Machine.run Network.trail
    split
    · exact h
    · have := ih m.step (h.move (.step m))
      rwa [List.append_assoc, List.singleton_append]

/-! ## Results -/

/-- **What a transport's count tells of its nesting.**  The greatest count is at least the greatest
number of attempts that were at the transport, one inside the other, and exceeds it by the faults that
have left the transport at most.  The two are the same exactly if no entry, together with the faults
that had left before it, counts for more.  Without requests that are performed inside a callback the
nesting is at most one, and the count is so exactly if no fault left the transport before an entry. -/
theorem Lone.maxDepth_eq_deepest_iff {past : List Machine} {m : Machine} (h : Lone past m) :
    (m.world.transport.maxDepth = deepest past ↔ ∀ e before, e :: before <:+ past →
      e.enters = true → e.nesting + broken before ≤ deepest past) ∧
    deepest past ≤ m.world.transport.maxDepth ∧
    m.world.transport.maxDepth ≤ deepest past + broken past ∧
    ((∀ n ∈ past, n.performsInside = false) → deepest past ≤ 1 ∧
      (m.world.transport.maxDepth ≤ 1 ↔ ∀ e before, e :: before <:+ past → e.enters = true →
        broken before = 0)) := by
  have gauged := h.gauged
  have below := gauged.deepest
  rw [gauged.maxDepth]
  refine ⟨?_, below, highest_le past, fun calm => ⟨deepest_le (h.nesting_le_one calm), ?_⟩⟩
  · rw [← highest_le_iff]
    omega
  · rw [highest_le_iff]
    refine forall_congr' fun e => forall_congr' fun before => forall_congr' fun inside =>
      forall_congr' fun entering => ?_
    have member : e ∈ past := inside.subset List.mem_cons_self
    have one := h.nesting_le_one calm e member
    have some := gauged.entries e member entering
    omega

/-- A transport that raises a fault for its first attempt and answers the second one. -/
def faultFirst : World where
  requests := #[some { url := text "u", method := text "GET" }]
  transport := { script := [.raise (.runtime (text "boom")),
    .deliver (.reply (.ofBytes 200 [] (text "ok")))] }

/-- The machine that performs a request after the one before has come to rest. -/
def performing (w : World) : Machine := Machine.doing w (.perform ⟨0, .rest, .rest⟩) []

/-- The request is performed, and then it is performed once more. -/
def faultFirstEnd : Machine :=
  Machine.run 40 (performing (Machine.run 40 (performing faultFirst)).world)

def faultFirstPast : List Machine :=
  Network.trail 40 (performing (Machine.run 40 (performing faultFirst)).world) ++
    Network.trail 40 (performing faultFirst)

theorem faultFirst_lone : Lone faultFirstPast faultFirstEnd := by
  have untried : faultFirst.Untried := ⟨rfl, rfl, rfl, rfl, rfl, rfl⟩
  have first : Lone [] (performing faultFirst) :=
    (Lone.start faultFirst untried).next rfl _ (.perform ⟨0, .rest, .rest⟩)
  have rested := first.run 40
  rw [List.append_nil] at rested
  have second : Lone (Network.trail 40 (performing faultFirst))
      (performing (Machine.run 40 (performing faultFirst)).world) :=
    rested.next (by decide +kernel) _ (.perform ⟨0, .rest, .rest⟩)
  exact second.run 40

theorem maxDepth_eq_deepest_iff_faultFirst :
    Lone faultFirstPast faultFirstEnd ∧ (∀ n ∈ faultFirstPast, n.performsInside = false) ∧
      faultFirstPast.countP Machine.enters = 2 ∧ broken faultFirstPast = 1 ∧
      ¬ ∀ e before, e :: before <:+ faultFirstPast → e.enters = true → broken before = 0 := by
  have calm : ∀ n ∈ faultFirstPast, n.performsInside = false := by decide +kernel
  have counted : faultFirstEnd.world.transport.maxDepth = 2 := by decide +kernel
  obtain ⟨-, -, -, flat⟩ := faultFirst_lone.maxDepth_eq_deepest_iff
  refine ⟨faultFirst_lone, calm, by decide +kernel, by decide +kernel, fun none => ?_⟩
  have := (flat calm).2.2 none
  omega

/-- Nothing is performed inside a callback and one attempt at a time is at the transport, which counts
two. -/
theorem faultFirst_counts_two :
    ∃ past m, Lone past m ∧ (∀ n ∈ past, n.performsInside = false) ∧ m.isIdle = true ∧
      deepest past = 1 ∧ m.world.transport.maxDepth = 2 := by
  refine ⟨faultFirstPast, faultFirstEnd, faultFirst_lone, ?_⟩
  decide +kernel

end RequestFlow
