import RequestFlow.Proofs.Refinement
import RequestFlow.Proofs.Stores
import RequestFlow.Proofs.Views

/-!
# Settings and pools do not change results

Settings and pools decide how large the buffers are, how a stream is read and what is logged.  They
decide nothing else: under any of them a session makes the same attempts with the same headers and
timeouts, tells the same results with the same times, and leaves the requests with the same markers
and policies, unless a lease fails.  What is logged as information is all that the settings of the
log change.

    copies that are refused no lease keep worlds alike but for their dealings   (step_results)
    sessions under any settings and pools show the same results                 (results_agree)
-/

namespace RequestFlow

/-! ## Leases -/

/-- If the machine copies a body now, the copy is refused no lease. -/
def Machine.Granted (m : Machine) : Prop :=
  ∀ k, m.task? = some k → RequestFlow.Granted k.stream.id k.stream.source k.length m.world.pool
    m.world.config.bodyBuffer

/-! ## Copies -/

namespace Machine.Agrees

variable {v : View} {w w' : World} {stack : List Frame}

/-- Copies keep worlds alike that come to the same and leave the same to be seen. -/
theorem copy (h : w.Agrees v w') {k : CopyTask} {copied copied' : Copied Pool}
    (hc : copied = copyBody k.stream.id k.stream.source k.length w.pool w.config.bodyBuffer)
    (hc' : copied' = copyBody k.stream.id k.stream.source k.length w'.pool w'.config.bodyBuffer)
    (body : copied.body = copied'.body) (elapsed : copied.elapsed = copied'.elapsed)
    (pool : v.pool copied.pool = v.pool copied'.pool)
    (trace : (tracedEvents w copied.trace).filter v.event =
      (tracedEvents w' copied'.trace).filter v.event) :
    Agrees v (copy w k stack) (Machine.copy w' k stack) := by
  have after (x : World) (t : Int) (p : Pool) (l : Trace) :
      World.seen v { x.advance t with pool := p, trace := x.trace ++ l } =
        { (x.seen v).advance t with
          pool := v.pool p, trace := (x.seen v).trace ++ l.filter v.event } := by
    simp [World.seen, World.advance]
  have worlds : World.Agrees v
      { w.advance copied.elapsed with
        pool := copied.pool, trace := w.trace ++ tracedEvents w copied.trace }
      { w'.advance copied'.elapsed with
        pool := copied'.pool, trace := w'.trace ++ tracedEvents w' copied'.trace } := by
    rw [World.Agrees, after, after, h, elapsed, pool, trace]
  unfold Machine.copy bodyContext
  dsimp only
  rw [← hc, ← hc', body, worlds.callOf, worlds.elapsed]
  split <;> exact .doing worlds _

theorem step_of_task {m m' : Machine} (h : m.Agrees v m')
    (hc : ∀ (w w' : World) (k : CopyTask) (stack : List Frame), w.Agrees v w' →
      m = ⟨w, .run (.copy k), stack⟩ → m' = ⟨w', .run (.copy k), stack⟩ →
      Agrees v (Machine.copy w k stack) (Machine.copy w' k stack)) : m.step.Agrees v m'.step := by
  cases hk : m.task? with
  | none => exact h.step hk
  | some k =>
    obtain ⟨w, control, stack⟩ := m
    obtain ⟨w', control', stack'⟩ := m'
    obtain ⟨hw, rfl, rfl⟩ := h
    obtain rfl : control = .run (.copy k) := task?_eq_some.1 hk
    exact hc w w' k stack hw rfl rfl

end Machine.Agrees

/-- What copies do with pools and streams is not among the results. -/
theorem Dealing.event?_unseen {stream : Nat} {d : Dealing} {e : Event}
    (h : d.event? stream = some e) : View.results.event e = false := by
  rcases d with ⟨room, f | b⟩ | ⟨size, f | b⟩ | b <;> cases h <;> rfl

theorem filter_tracedEvents (w : World) (t : Trace) :
    (Machine.tracedEvents w t).filter View.results.event = t.filter View.results.event := by
  unfold Machine.tracedEvents
  split
  · rfl
  · rw [Array.filter_filter]
    congr 1
    funext e
    cases e <;> simp [View.results, Event.isPoolEvent, Event.isDealing]

namespace Machine

/-- A copy that is refused no lease shows what its source has in store, and its close. -/
theorem Granted.shows {w : World} {k : CopyTask} {stack : List Frame}
    (h : Granted ⟨w, .run (.copy k), stack⟩) {copied : Copied Pool}
    (hc : copied = copyBody k.stream.id k.stream.source k.length w.pool w.config.bodyBuffer) :
    copied.body = k.stream.source.store.ending.map (fun _ => k.stream.source.store.content) ∧
      copied.elapsed = k.stream.source.store.time ∧
      ((tracedEvents w copied.trace).filter View.results.event).toList =
        (closeEvents k.stream.id k.stream.source).filter View.results.event := by
  obtain ⟨l, last, r, dealt, granted⟩ := h k rfl
  rw [← hc] at dealt
  obtain ⟨body, time, close⟩ := dealt.stored granted
  refine ⟨body, time, ?_⟩
  have unseen : (l.filterMap (Dealing.event? k.stream.id)).filter View.results.event = [] := by
    rw [List.filter_eq_nil_iff]
    intro e he
    obtain ⟨d, -, hd⟩ := List.mem_filterMap.1 he
    simp [Dealing.event?_unseen hd]
  rw [filter_tracedEvents, Array.toList_filter, dealt.trace, List.filter_append, unseen,
    List.nil_append, close]

/-- If the machine copies a body now, the copy does not run out of memory. -/
def hasMemory (m : Machine) : Bool :=
  match m.task? with
  | none => true
  | some k =>
    match (copyBody k.stream.id k.stream.source k.length m.world.pool
      m.world.config.bodyBuffer).body with
    | .ok _ => true
    | .error f => decide (f ≠ .outOfMemory)

variable {m m' : Machine}

theorem granted_of_hasMemory (h : m.hasMemory = true) : m.Granted := by
  intro k hk
  refine granted_of_ne fun memory => ?_
  simp [hasMemory, hk, memory] at h

/-- Machines that show the same results go on so, if no lease is refused. -/
theorem Agrees.step_results (h : m.Agrees .results m') (hm : m.Granted) (hm' : m'.Granted) :
    m.step.Agrees .results m'.step := by
  refine h.step_of_task ?_
  rintro w w' k stack hw rfl rfl
  obtain ⟨body, elapsed, trace⟩ := hm.shows rfl
  obtain ⟨body', elapsed', trace'⟩ := hm'.shows rfl
  refine .copy hw rfl rfl (body.trans body'.symm) (elapsed.trans elapsed'.symm) rfl ?_
  exact Array.ext' (trace.trans trace'.symm)

/-- Machines that differ in the settings of the log only copy bodies in the same way. -/
theorem Agrees.step_quiet (h : m.Agrees .quiet m') : m.step.Agrees .quiet m'.step := by
  refine h.step_of_task ?_
  rintro w w' k stack hw rfl rfl
  have pool : w.pool = w'.pool := hw.same World.pool fun _ => rfl
  have buffer : w.config.bodyBuffer = w'.config.bodyBuffer :=
    hw.same (·.config.bodyBuffer) fun _ => rfl
  have traced (t : Trace) : tracedEvents w t = tracedEvents w' t :=
    hw.same (tracedEvents · t) fun _ => rfl
  refine .copy hw rfl (by rw [pool, buffer]) rfl rfl rfl ?_
  rw [traced]

end Machine

/-! ## Sessions -/

section

variable {v : View} {P : Machine → Prop}
  (hP : ∀ m m', P m → P m' → Machine.Agrees v m m' → m.step.Agrees v m'.step)

include hP

/-- What every step keeps is kept while machines run. -/
theorem Machine.Agrees.run (n : Nat) {m m' : Machine} (h : m.Agrees v m')
    (hm : ∀ x ∈ Network.trail n m, P x) (hm' : ∀ x ∈ Network.trail n m', P x) :
    (Machine.run n m).Agrees v (Machine.run n m') := by
  induction n generalizing m m' with
  | zero => exact h
  | succ n ih =>
    have idle : m.isIdle = m'.isIdle := by
      unfold isIdle
      rw [h.control, h.stack]
    unfold Machine.run
    rw [idle]
    refine .ite (fun _ => h) fun busy => ?_
    rw [Network.trail, if_neg (by rwa [idle])] at hm
    rw [Network.trail, if_neg busy] at hm'
    exact ih (hP m m' (hm m (by simp)) (hm' m' (by simp)) h)
      (fun x hx => hm x (List.mem_append_left _ hx)) fun x hx => hm' x (List.mem_append_left _ hx)

namespace World.Agrees

variable {w w' : World} (h : w.Agrees v w')

omit hP

include h

theorem settleExecutor : w.settleExecutor.Agrees v w'.settleExecutor := by
  have closed (l : List CopyTask) {x x' : World} (hx : x.Agrees v x') :
      World.Agrees v (l.foldl (fun w t => w.closeStream t.stream) x)
        (l.foldl (fun w t => w.closeStream t.stream) x') := by
    induction l generalizing x x' with
    | nil => exact hx
    | cons t l ih => exact ih (hx.closeStream t.stream)
  unfold World.settleExecutor
  rw [h.executor]
  split
  · exact h
  · split
    · exact h
    · exact (closed _ h).setExecutor _

theorem mapExecutor (f : Executor → Executor) :
    (w.mapExecutor f).Agrees v (w'.mapExecutor f) := h.change (·.mapExecutor f) fun _ => rfl

theorem begin (op : Operation) : (w.begin op).Agrees v (w'.begin op) := by
  cases op with
  | resolve =>
    unfold World.begin
    dsimp only
    rw [h.transport]
    split
    · exact ⟨h, rfl, rfl⟩
    · exact .doing (h.setTransport _) _
  | deferAttempts on =>
    unfold World.begin
    dsimp only
    rw [h.transport]
    exact .finished (h.setTransport _)
  | perform p => exact .doing h _
  | runTasks => exact .doing h _
  | refuseTasks on => exact .finished (h.mapExecutor _)
  | advance ns => exact .finished (h.advance ns)
  | classifyWith c => exact .finished (h.change (·.addClassifier c) fun _ => rfl)
  | detachExecutor => exact .finished (h.mapExecutor _).settleExecutor
  | dropNetwork =>
    exact .finished ((h.change (fun x => { x with present := false })
      fun _ => rfl).mapExecutor _).settleExecutor
  | dropExecutor => exact .finished (h.mapExecutor _).settleExecutor
  | submitMode mode => exact .finished (h.mapExecutor _)

include hP

theorem serveAll (hw : ∀ x ∈ w.serveTrail, P x) (hw' : ∀ x ∈ w'.serveTrail, P x) :
    w.serveAll.Agrees v w'.serveAll := by
  unfold World.serveAll
  unfold World.serveTrail at hw hw'
  rw [h.executor, h.budget] at *
  split
  · exact h
  · next e he =>
    rw [he] at hw hw'
    dsimp only at hw hw'
    split
    · next works =>
      rw [if_pos works] at hw hw'
      exact (Machine.Agrees.run hP _ (.doing h _) hw hw').world
    · exact h

theorem apply (op : Operation) (hw : ∀ x ∈ w.trailOf op, P x) (hw' : ∀ x ∈ w'.trailOf op, P x) :
    (w.apply op).2.Agrees v (w'.apply op).2 := by
  unfold World.trailOf at hw hw'
  rw [← h.budget] at hw'
  have ran := Machine.Agrees.run hP (w.budget op.performs) (h.begin op)
    (fun x hx => hw x (List.mem_append_right _ hx)) fun x hx => hw' x (List.mem_append_right _ hx)
  unfold World.apply
  rw [← h.budget]
  exact ran.world.serveAll hP (fun x hx => hw x (List.mem_append_left _ hx))
    fun x hx => hw' x (List.mem_append_left _ hx)

theorem applyAll {ops : List Operation} (hw : ∀ x ∈ w.trailAll ops, P x)
    (hw' : ∀ x ∈ w'.trailAll ops, P x) : (w.applyAll ops).Agrees v (w'.applyAll ops) := by
  induction ops generalizing w w' with
  | nil => exact h
  | cons op ops ih =>
    have applied := h.apply hP op (fun x hx => hw x (List.mem_append_right _ hx))
      fun x hx => hw' x (List.mem_append_right _ hx)
    exact ih applied (fun x hx => hw x (List.mem_append_left _ hx))
      fun x hx => hw' x (List.mem_append_left _ hx)

end World.Agrees

end

/-! ## Results -/

/-- Sessions that are built alike begin alike, if nothing of the difference is seen. -/
theorem Setup.build_agrees {v : View} {s : Setup} {c c' : Config} {p p' : Option Pool} {w w' : World}
    (h : { s with config := c, pool := p }.build = .ok w)
    (h' : { s with config := c', pool := p' }.build = .ok w') (config : v.config c = v.config c')
    (pool : v.pool (p.getD (.bestFit { limit := c.poolLimit })) =
      v.pool (p'.getD (.bestFit { limit := c'.poolLimit })))
    (traced : v.traced p.isSome = v.traced p'.isSome) : w.Agrees v w' := by
  unfold Setup.build at h h'
  dsimp only at h h'
  cases valid : c.validate with
  | error f => simp [valid] at h
  | ok u =>
    cases valid' : c'.validate with
    | error f => simp [valid'] at h'
    | ok u' =>
      cases script : s.script with
      | none => simp [valid, script] at h
      | some turns =>
        simp only [valid, script, Except.ok.injEq] at h
        simp only [valid', script, Except.ok.injEq] at h'
        subst h h'
        cases s.classifier <;>
          simp [World.Agrees, World.seen, World.addClassifier, config, pool, traced]

/-- **Settings and pools do not change results.**  A session that is built with any valid settings
and any pool tells the same results, with their network times, sends the same attempts, and leaves
the requests with the same markers and policies, provided that no copy is refused a lease.  If only
the settings of the log differ, the traces are equal once information is taken out of them. -/
theorem Setup.results_agree (s : Setup) {c c' : Config} {p p' : Option Pool} {w w' : World}
    (h : { s with config := c, pool := p }.build = .ok w)
    (h' : { s with config := c', pool := p' }.build = .ok w') (ops : List Operation) :
    ((∀ m ∈ w.trailAll ops, m.Granted) → (∀ m ∈ w'.trailAll ops, m.Granted) →
      (∀ call, (w.applyAll ops).told call = (w'.applyAll ops).told call) ∧
        (w.applyAll ops).transport.sent = (w'.applyAll ops).transport.sent ∧
        (w.applyAll ops).requests = (w'.applyAll ops).requests) ∧
    (c'.poolLimit = c.poolLimit → c'.bodyBuffer = c.bodyBuffer → p' = p →
      (w.applyAll ops).trace.filter (fun e => !e.isInfo) =
        (w'.applyAll ops).trace.filter fun e => !e.isInfo) := by
  constructor
  · intro granted granted'
    have first : w.Agrees .results w' := Setup.build_agrees h h' rfl rfl rfl
    have last := first.applyAll (fun m m' hm hm' same => same.step_results hm hm') granted granted'
    refine ⟨fun call => ?_, congrArg _ last.transport, last.requests⟩
    -- an answer is no dealing and no information
    have shown (x : World) : (x.seen .results).told call = x.told call := by
      unfold World.told World.seen
      rw [Array.toList_filter, List.filter_filter]
      congr 1
      funext e
      cases e <;> simp [Event.answers, View.results, Event.isInfo, Event.isDealing]
    rw [← shown, ← shown (w'.applyAll ops)]
    exact congrArg (World.told · call) last
  · intro limit buffer pool
    have settings : View.quiet.config c = View.quiet.config c' := by
      simp [View.quiet, limit, buffer]
    have first : w.Agrees .quiet w' :=
      Setup.build_agrees h h' settings (by rw [pool, limit]) (by rw [pool])
    have last : (w.applyAll ops).Agrees .quiet (w'.applyAll ops) :=
      first.applyAll (P := fun _ => True) (fun m m' _ _ same => same.step_quiet)
        (fun _ _ => trivial) fun _ _ => trivial
    exact congrArg World.trace last

/-- A first body that breaks off, and a second one with a pause whose stream fails to close. -/
def pausing : Setup where
  requests := [some { url := text "u", method := text "GET" }]
  script := some [.deliver (.reply (.ofStream 200 [] (some (.failing (text "ab") 1)))),
    .deliver (.reply (.ofStream 200 []
      (some (.scripted [.bytes (text "hel"), .pause 7000000, .bytes (text "lo")] true))))]

/-- The world that the session begins in. -/
def pausingWorld (c : Config) (p : Option Pool) : World where
  config := c
  pool := p.getD (.bestFit { limit := c.poolLimit })
  poolTraced := p.isSome
  requests := pausing.requests.toArray
  transport := { script := (pausing.script.getD []) }

def usedPool : Pool := .bestFit usedBefore

theorem results_agree_pausing :
    { pausing with config := { bodyBuffer := 2 }, pool := some usedPool }.build =
        .ok (pausingWorld { bodyBuffer := 2 } (some usedPool)) ∧
      { pausing with config := { logAll := true }, pool := none }.build =
        .ok (pausingWorld { logAll := true } none) ∧
      (∀ call, ((pausingWorld { bodyBuffer := 2 } (some usedPool)).applyAll
          [.perform ⟨0, .rest, .rest⟩, .runTasks]).told call =
        ((pausingWorld { logAll := true } none).applyAll
          [.perform ⟨0, .rest, .rest⟩, .runTasks]).told call) ∧
      ((pausingWorld { logAll := true } none).applyAll
          [.perform ⟨0, .rest, .rest⟩, .runTasks]).told 0 =
        [.success 0 0 ⟨200, [], text "hello", false, 7⟩] ∧
      ((pausingWorld { bodyBuffer := 2 } none).applyAll
          [.perform ⟨0, .rest, .rest⟩, .runTasks]).trace.filter (fun e => !e.isInfo) =
        ((pausingWorld { slowThreshold := 0, logAll := true, bodyBuffer := 2 } none).applyAll
          [.perform ⟨0, .rest, .rest⟩, .runTasks]).trace.filter fun e => !e.isInfo := by
  have granted (w : World) (ops : List Operation)
      (h : (w.trailAll ops).all Machine.hasMemory = true) : ∀ m ∈ w.trailAll ops, m.Granted :=
    fun m hm => Machine.granted_of_hasMemory (List.all_eq_true.1 h m hm)
  have narrow (p : Option Pool) :
      { pausing with config := { bodyBuffer := 2 }, pool := p }.build =
        .ok (pausingWorld { bodyBuffer := 2 } p) := rfl
  have wide : { pausing with config := { logAll := true }, pool := none }.build =
      .ok (pausingWorld { logAll := true } none) := rfl
  have logged :
      { pausing with
        config := { slowThreshold := 0, logAll := true, bodyBuffer := 2 }, pool := none }.build =
        .ok (pausingWorld { slowThreshold := 0, logAll := true, bodyBuffer := 2 } none) := rfl
  obtain ⟨told, -, -⟩ :=
    (Setup.results_agree pausing (narrow (some usedPool)) wide
      [.perform ⟨0, .rest, .rest⟩, .runTasks]).1 (granted _ _ (by decide +kernel))
      (granted _ _ (by decide +kernel))
  refine ⟨narrow _, wide, told, by decide +kernel, ?_⟩
  exact (Setup.results_agree pausing (narrow none) logged
    [.perform ⟨0, .rest, .rest⟩, .runTasks]).2 rfl rfl rfl

end RequestFlow
