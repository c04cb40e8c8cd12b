import Mathlib.Logic.Function.Iterate
import RequestFlow.Proofs.Following

/-!
# The network refines the plain loop

A request that is performed and drained comes to the end of the plain loop, be its attempts resolved
where they are sent or later, and in whatever order attempts are resolved and tasks are run.  Draining
takes finitely many rounds, since every round that finds something to do takes steps off the bound.

    w.Prepared i → the ends of all ways to drain are the end of (w.plain i).run   (refines_plain)
-/

namespace RequestFlow

open Machine (Follows doing finished takeTask)

/-! ## Draining -/

/-- The operation resolves attempts or runs tasks, or changes when attempts are resolved. -/
def Operation.Drains : Operation → Prop
  | .resolve | .runTasks | .deferAttempts _ => True
  | _ => False

namespace World

/-- The world after some operations. -/
def applyAll (w : World) (ops : List Operation) : World := ops.foldl (fun w op => (w.apply op).2) w

/-- Resolves an attempt that waits, and runs the tasks. -/
def drainRound (w : World) : World := w.applyAll [.resolve, .runTasks]

def IsDrained (w : World) : Prop := w.transport.waiting = [] ∧ w.queued = []

/-- The request may be performed: it is there, the network works as its parts promise, and nothing
else is under way. -/
structure Prepared (w : World) (i : Nat) : Prop where
  present : w.present = true
  request : ∃ r, w.requests[i]? = some (some r) ∧ r.policy.Bounded
  classifier : w.classifiers.getD w.classifier .standard = .standard
  executor : ∃ e, w.executor = some e ∧ e.attached = true ∧ e.mode = .queue
  script : ∀ t ∈ w.transport.script, ∃ d, t = { deliveries := [d] }
  waiting : w.transport.waiting = []
  queued : w.queued = []
  told : w.told w.calls.size = []

/-- No machine is at work, and the call is kept by the world. -/
structure AtRest (w : World) (c i : Nat) (e : Option Ending) (t : Nat) : Prop where
  stands : w.Stands c i [] 0
  awaits : w.Awaits c i e 0 t

/-! ## Steps that an operation may take -/

theorem le_foldl_add {α : Type} (f : α → Nat) (l : List α) (n : Nat) :
    n ≤ l.foldl (fun n x => n + f x) n := by
  induction l generalizing n with
  | nil => exact Nat.le_refl n
  | cons x l ih => exact Nat.le_trans (Nat.le_add_right n (f x)) (ih (n + f x))

theorem le_foldl_add_of_mem {α : Type} (f : α → Nat) {l : List α} {x : α} (h : x ∈ l) (n : Nat) :
    f x ≤ l.foldl (fun n x => n + f x) n := by
  induction l generalizing n with
  | nil => cases h
  | cons y l ih =>
    rcases List.mem_cons.1 h with rfl | h
    · exact Nat.le_trans (Nat.le_add_left (f x) n) (le_foldl_add f l (n + f x))
    · exact ih h (n + f y)

theorem left_le_retriesLeft {w : World} {i : Nat} {r : Request}
    (known : w.requests[i]? = some (some r)) : r.policy.left ≤ w.retriesLeft := by
  have mem : some r ∈ w.requests.toList :=
    List.mem_of_getElem? (by rw [Array.getElem?_toList]; exact known)
  have one := le_foldl_add_of_mem (fun r : Option Request => (r.map fun r => r.policy.left).getD 0)
    mem 0
  rw [retriesLeft, ← Array.foldl_toList]
  exact Nat.le_trans one (Nat.le_add_right _ _)

theorem spare_lt_budget {w : World} {i : Nat} (known : ∃ r, w.requests[i]? = some (some r))
    (n : Nat) : w.spare i + 30 < w.budget n := by
  obtain ⟨r, known⟩ := known
  have request : (w.plain i).request = r := by simp [plain, requestAt?, known]
  have left := left_le_retriesLeft known
  unfold spare budget stepsEach
  rw [request]
  omega

theorem AtRest.le_spare {w : World} {c i t : Nat} {e : Option Ending} (h : w.AtRest c i e t) :
    t ≤ w.spare i + 18 := by
  cases h.awaits <;> omega

/-! ## Runs -/

variable {w : World} {c i t : Nat} {e : Option Ending}

theorem run_of_isIdle {m : Machine} (h : m.isIdle = true) (b : Nat) : Machine.run b m = m := by
  cases b with
  | zero => rfl
  | succ b =>
    unfold Machine.run
    rw [if_pos h]

/-- A machine that rests leaves the call at rest. -/
theorem atRest_of_isIdle {m : Machine} {n : Nat} (h : Follows c i m e n) (hi : m.isIdle = true) :
    ∃ t ≤ n, m.world.AtRest c i e t := by
  cases h with
  | early => cases hi
  | ending => cases hi
  | @aside w x stack e r t u n hs hw hx hn =>
    cases stack with
    | nil =>
      -- an attempt is only registered beside a loop
      obtain rfl : r = 0 := Nat.le_zero.1 hs.joined
      exact ⟨t, by omega, hs, hw⟩
    | cons f stack => cases x <;> cases hi

theorem atRest_of_follows {m : Machine} {n b : Nat} (h : Follows c i m e n) (hb : n ≤ b) :
    ∃ t ≤ n, (Machine.run b m).world.AtRest c i e t := by
  obtain ⟨follows, idle⟩ := h.run hb
  exact atRest_of_isIdle follows idle

/-- Running the tasks, for whoever runs them, leaves the world alone or takes steps off the bound. -/
theorem AtRest.run_tasks (h : w.AtRest c i e t) {x : Instr} {f : Frame} {a : Answer} (n : Nat)
    (hf : f.Calm c) (hl : f.isLoopOf c = false) (cost : f.cost ≤ 3)
    (hx : (doing w x []).step = match takeTask w with
      | none => ⟨w, .done a, []⟩
      | some (k, w') => doing w' (.copy k) [f]) :
    (w.queued = [] ∧ (Machine.run (w.budget n) (doing w x [])).world = w) ∨
      ∃ t' < t, (Machine.run (w.budget n) (doing w x [])).world.AtRest c i e t' := by
  have budget := spare_lt_budget h.stands.hosts.known n
  have bound := h.le_spare
  obtain ⟨b, steps⟩ : ∃ b, w.budget n = b + 1 := ⟨w.budget n - 1, by omega⟩
  have first : Machine.run (b + 1) (doing w x []) = Machine.run b (doing w x []).step := rfl
  rw [steps, first, hx]
  rcases Machine.takeTask_follows hf hl cost h.stands h.awaits with
    ⟨queued, none⟩ | ⟨k, w', u, some, fewer, follows⟩
  · rw [none]
    left
    exact ⟨queued, by rw [run_of_isIdle rfl]⟩
  · rw [some]
    right
    obtain ⟨t', le, rest⟩ := atRest_of_follows follows (b := b) (by show u + 0 ≤ b; omega)
    exact ⟨t', Nat.lt_of_le_of_lt le fewer, rest⟩

/-! ## Operations -/

/-- The worker leaves the world alone, or takes steps off the bound. -/
theorem AtRest.serveAll (h : w.AtRest c i e t) :
    w.serveAll = w ∨ ∃ t' < t, w.serveAll.AtRest c i e t' := by
  unfold World.serveAll
  cases executor : w.executor with
  | none => exact .inl rfl
  | some x =>
    simp only
    split
    · rcases h.run_tasks (x := .serve) (a := .nothing) 0 (f := .worker) trivial rfl
          (Nat.le_refl 3) rfl with ⟨-, same⟩ | fewer
      · exact .inl same
      · exact .inr fewer
    · exact .inl rfl

theorem AtRest.le_serveAll (h : w.AtRest c i e t) : ∃ t' ≤ t, w.serveAll.AtRest c i e t' := by
  rcases h.serveAll with alone | ⟨t', fewer, rest⟩
  · rw [alone]
    exact ⟨t, Nat.le_refl t, h⟩
  · exact ⟨t', Nat.le_of_lt fewer, rest⟩

theorem AtRest.runTasks (h : w.AtRest c i e t) :
    w.queued = [] ∧ (w.apply .runTasks).2 = w ∨
      ∃ t' < t, (w.apply .runTasks).2.AtRest c i e t' := by
  have ran := h.run_tasks (x := .runQueue 0) 0 (f := .queue 0) (a := .count 0) trivial rfl
    (Nat.le_refl 3) rfl
  show w.queued = [] ∧ (Machine.run (w.budget 0) (doing w (.runQueue 0) [])).world.serveAll = w ∨
    ∃ t' < t, (Machine.run (w.budget 0) (doing w (.runQueue 0) [])).world.serveAll.AtRest c i e t'
  rcases ran with ⟨queued, same⟩ | ⟨t', fewer, rest⟩
  · rw [same]
    exact h.serveAll.imp (fun alone => ⟨queued, alone⟩) id
  · right
    obtain ⟨u, le, rests⟩ := rest.le_serveAll
    exact ⟨u, Nat.lt_of_le_of_lt le fewer, rests⟩

theorem AtRest.resolve (h : w.AtRest c i e t) :
    w.transport.waiting = [] ∧ (w.apply .resolve).2 = w ∨
      ∃ t' < t, (w.apply .resolve).2.AtRest c i e t' := by
  show w.transport.waiting = [] ∧ (Machine.run (w.budget 0) (w.begin .resolve)).world.serveAll = w ∨
    ∃ t' < t, (Machine.run (w.budget 0) (w.begin .resolve)).world.serveAll.AtRest c i e t'
  have idle (waiting : w.transport.waiting = []) : w.transport.waiting = [] ∧
      (Machine.run (w.budget 0) (w.begin .resolve)).world.serveAll = w ∨
        ∃ t' < t, (Machine.run (w.budget 0) (w.begin .resolve)).world.serveAll.AtRest c i e t' := by
    have same : Machine.run (w.budget 0) (w.begin .resolve) = ⟨w, .done (.flag false), []⟩ := by
      unfold World.begin
      simp only [waiting]
      exact run_of_isIdle rfl _
    rw [same]
    exact h.serveAll.imp (fun alone => ⟨waiting, alone⟩) id
  cases h.awaits with
  | answered result waiting => exact idle waiting
  | queued hu => exact idle hu.waiting
  | @waiting a hu hb ha =>
    right
    have budget := spare_lt_budget h.stands.hosts.known 0
    have begins : w.begin .resolve = doing
        { w with transport := ({ w.transport with waiting := [] } : Transport).nextTurn.2 }
        (.turn a ({ w.transport with waiting := [] } : Transport).nextTurn.1)
        [.answering (.flag true)] := by
      unfold World.begin
      simp only [hu.waiting]
    have hosts : World.Hosts { w with transport := { w.transport with waiting := [] } } c i :=
      h.stands.hosts.of_eq rfl rfl rfl rfl rfl
    have follows := Machine.nextTurn_follows (w := w) (c := c) (i := i) (a := a)
      { w.transport with waiting := [] } [.answering (.flag true)]
      ((h.stands.of_hosts hosts rfl).push trivial rfl) ⟨rfl, hu.queued, hu.completed, hu.told⟩ hb ha
      (n := w.spare i + 17) (Nat.le_refl _)
    rw [begins]
    obtain ⟨t', le, rest⟩ := atRest_of_follows follows (b := w.budget 0) (by omega)
    obtain ⟨u, less, rests⟩ := rest.le_serveAll
    exact ⟨u, by omega, rests⟩

theorem AtRest.deferAttempts (h : w.AtRest c i e t) (on : Bool) :
    ∃ t' ≤ t, (w.apply (.deferAttempts on)).2.AtRest c i e t' := by
  have set : AtRest { w with transport := { w.transport with deferred := on } } c i e t :=
    ⟨h.stands.of_hosts (h.stands.hosts.of_eq rfl rfl rfl rfl rfl) rfl,
      Machine.awaits_of_eq h.awaits rfl rfl rfl rfl rfl rfl⟩
  have same : Machine.run (w.budget 0) (w.begin (.deferAttempts on)) =
      finished { w with transport := { w.transport with deferred := on } } [] := run_of_isIdle rfl _
  show ∃ t' ≤ t, (Machine.run (w.budget 0) (w.begin (.deferAttempts on))).world.serveAll.AtRest
    c i e t'
  rw [same]
  exact set.le_serveAll

theorem AtRest.apply (h : w.AtRest c i e t) {op : Operation} (hop : op.Drains) :
    ∃ t' ≤ t, (w.apply op).2.AtRest c i e t' := by
  have reached {w' : World} (hw : w' = w ∨ ∃ t' < t, w'.AtRest c i e t') :
      ∃ t' ≤ t, w'.AtRest c i e t' := by
    rcases hw with rfl | ⟨t', fewer, rest⟩
    · exact ⟨t, Nat.le_refl t, h⟩
    · exact ⟨t', Nat.le_of_lt fewer, rest⟩
  cases op with
  | resolve => exact reached (h.resolve.imp And.right id)
  | runTasks => exact reached (h.runTasks.imp And.right id)
  | deferAttempts on => exact h.deferAttempts on
  | _ => exact hop.elim

theorem AtRest.applyAll (h : w.AtRest c i e t) {ops : List Operation}
    (hops : ∀ op ∈ ops, op.Drains) : ∃ t', (w.applyAll ops).AtRest c i e t' := by
  induction ops generalizing w t with
  | nil => exact ⟨t, h⟩
  | cons op ops ih =>
    obtain ⟨t', -, rest⟩ := h.apply (hops op List.mem_cons_self)
    exact ih rest fun op hop => hops op (List.mem_cons_of_mem _ hop)

/-- A round finds nothing to do, or takes steps off the bound. -/
theorem AtRest.drainRound (h : w.AtRest c i e t) :
    w.IsDrained ∧ w.drainRound = w ∨ ∃ t' < t, w.drainRound.AtRest c i e t' := by
  show w.IsDrained ∧ ((w.apply .resolve).2.apply .runTasks).2 = w ∨
    ∃ t' < t, ((w.apply .resolve).2.apply .runTasks).2.AtRest c i e t'
  rcases h.resolve with ⟨waiting, same⟩ | ⟨t', fewer, rest⟩
  · rw [same]
    exact h.runTasks.imp (fun ⟨queued, alone⟩ => ⟨⟨waiting, queued⟩, alone⟩) id
  · right
    obtain ⟨u, le, rests⟩ := rest.apply (show Operation.runTasks.Drains from trivial)
    exact ⟨u, Nat.lt_of_le_of_lt le fewer, rests⟩

/-- As many rounds as the bound has steps drain everything. -/
theorem AtRest.drained (h : w.AtRest c i e t) {n : Nat} (hn : t ≤ n) :
    (World.drainRound^[n] w).IsDrained ∧ ∃ t', (World.drainRound^[n] w).AtRest c i e t' := by
  induction n generalizing w t with
  | zero =>
    rcases h.drainRound with ⟨drained, -⟩ | ⟨t', fewer, -⟩
    · exact ⟨drained, t, h⟩
    · omega
  | succ n ih =>
    rcases h.drainRound with ⟨drained, same⟩ | ⟨t', fewer, rest⟩
    · rw [Function.iterate_fixed same]
      exact ⟨drained, t, h⟩
    · exact ih rest (by omega)

/-- Once everything is drained the call has come to its end. -/
theorem AtRest.ended (h : w.AtRest c i e t) (hd : w.IsDrained) :
    ∃ result, e = some (result, w.plain i) ∧ w.told c = [Event.answer c i result] := by
  cases h.awaits with
  | answered result _ _ told => exact ⟨result, rfl, told⟩
  | waiting hu =>
    have := hu.waiting
    rw [hd.1] at this
    cases this
  | queued hu =>
    have := hu.queued
    rw [hd.2] at this
    cases this

/-! ## Performing -/

theorem serveAll_of_queued (h : w.queued = []) : w.serveAll = w := by
  have served (b : Nat) : (Machine.run (b + 1) (doing w .serve [])).world = w := by
    have first : Machine.run (b + 1) (doing w .serve []) = Machine.run b (Machine.serve w []) := rfl
    rw [first, Machine.serve, Machine.takeTask_eq_none h]
    simp only
    rw [run_of_isIdle rfl]
    rfl
  unfold World.serveAll
  cases w.executor with
  | none => rfl
  | some x =>
    simp only
    split
    · have budget : w.budget 0 = w.budget 0 - 1 + 1 := by
        unfold World.budget stepsEach
        omega
      rw [budget]
      exact served _
    · rfl

theorem Prepared.deferAttempts {i : Nat} (h : w.Prepared i) (on : Bool) :
    (w.apply (.deferAttempts on)).2 =
      { w with transport := { w.transport with deferred := on } } := by
  have same : Machine.run (w.budget 0) (w.begin (.deferAttempts on)) =
      finished { w with transport := { w.transport with deferred := on } } [] := run_of_isIdle rfl _
  show (Machine.run (w.budget 0) (w.begin (.deferAttempts on))).world.serveAll = _
  rw [same]
  exact serveAll_of_queued h.queued

theorem Prepared.perform {i : Nat} (h : w.Prepared i) :
    ∃ t, (w.apply (.perform ⟨i, .rest, .rest⟩)).2.AtRest w.calls.size i (w.plain i).run t := by
  obtain ⟨r, known, bounded⟩ := h.request
  obtain ⟨x, executor, attached, mode⟩ := h.executor
  have requested : (w.plain i).request = r := by simp [plain, requestAt?, known]
  have call := w.callAt_openCall ⟨i, .rest, .rest⟩ w.calls.size
  rw [if_pos rfl] at call
  have hosts : (w.openCall ⟨i, .rest, .rest⟩).2.Hosts w.calls.size i := by
    refine ⟨by simp [openCall], by rw [call], by rw [call], by rw [call], ?_, ⟨r, known⟩,
      ⟨x, executor, by simp [Executor.isAlive, attached], mode⟩, h.script⟩
    rw [classifierOf, call]
    exact h.classifier
  have stands : (w.openCall ⟨i, .rest, .rest⟩).2.Stands w.calls.size i [] 0 := by
    refine ⟨hosts, fun f hf => absurd hf List.not_mem_nil, Nat.zero_le _, Nat.le_refl _, ?_⟩
    rw [pendingOf, call]
    rfl
  have unanswered : (w.openCall ⟨i, .rest, .rest⟩).2.Unanswered w.calls.size [] [] :=
    ⟨h.waiting, h.queued, by rw [call], h.told⟩
  have bounded : w.Bounded i := by rwa [Bounded, requested]
  have follows : Follows w.calls.size i
      (doing (w.openCall ⟨i, .rest, .rest⟩).2 (.dispatch w.calls.size) []) (w.plain i).run
      (w.spare i + 23) :=
    .early stands unanswered bounded .dispatch (Nat.le_refl _)
  -- the first step opens the call
  have first : (doing w (.perform ⟨i, .rest, .rest⟩) []).step =
      doing (w.openCall ⟨i, .rest, .rest⟩).2 (.dispatch w.calls.size) [] := by
    show Machine.perform w ⟨i, .rest, .rest⟩ [] = _
    simp [Machine.perform, h.present, hasExecutor, executor, attached, requestAt?, known, openCall]
  have budget := spare_lt_budget (i := i) ⟨r, known⟩ 1
  obtain ⟨b, steps⟩ : ∃ b, w.budget 1 = b + 1 := ⟨w.budget 1 - 1, by omega⟩
  obtain ⟨t, -, rest⟩ := atRest_of_follows follows (b := b) (by omega)
  obtain ⟨t', -, rests⟩ := rest.le_serveAll
  refine ⟨t', ?_⟩
  show (Machine.run (w.budget 1) (doing w (.perform ⟨i, .rest, .rest⟩) [])).world.serveAll.AtRest
    _ _ _ _
  have ran : Machine.run (b + 1) (doing w (.perform ⟨i, .rest, .rest⟩) []) =
      Machine.run b (doing w (.perform ⟨i, .rest, .rest⟩) []).step := rfl
  rw [steps, ran, first]
  exact rests

/-! ## Refinement -/

/-- However a request is performed and drained, its result, the attempts that were sent and what
became of the request are those of the plain loop, and draining ends. -/
theorem Prepared.refines_plain {i : Nat} (h : w.Prepared i) :
    ∃ result l, (w.plain i).run = some (result, l) ∧
      ∀ (deferred : Bool) (ops : List Operation), (∀ op ∈ ops, op.Drains) →
        ∀ v, v = w.applyAll (.deferAttempts deferred :: .perform ⟨i, .rest, .rest⟩ :: ops) →
          (v.IsDrained →
            v.told w.calls.size = [Event.answer w.calls.size i result] ∧
            v.transport.sent = l.sent ∧
            v.requestAt? i = some l.request) ∧
          ∃ rounds, ∀ n, rounds ≤ n → (World.drainRound^[n] v).IsDrained := by
  have performed (on : Bool) : ∃ t, (w.applyAll [.deferAttempts on,
      .perform ⟨i, .rest, .rest⟩]).AtRest w.calls.size i (w.plain i).run t := by
    have prepared : World.Prepared { w with transport := { w.transport with deferred := on } } i :=
      ⟨h.present, h.request, h.classifier, h.executor, h.script, h.waiting, h.queued, h.told⟩
    show ∃ t, ((w.apply (.deferAttempts on)).2.apply (.perform ⟨i, .rest, .rest⟩)).2.AtRest _ _ _ t
    rw [h.deferAttempts on]
    exact prepared.perform
  have kept (on : Bool) {ops : List Operation} (hops : ∀ op ∈ ops, op.Drains) :
      ∃ t, (w.applyAll (.deferAttempts on :: .perform ⟨i, .rest, .rest⟩ :: ops)).AtRest
        w.calls.size i (w.plain i).run t := by
    obtain ⟨t, rest⟩ := performed on
    exact rest.applyAll hops
  -- one way to drain tells what the end of the plain loop is
  obtain ⟨t, rest⟩ := performed false
  obtain ⟨drained, t', rests⟩ := rest.drained (Nat.le_refl t)
  obtain ⟨result, ending, -⟩ := rests.ended drained
  refine ⟨result, _, ending, ?_⟩
  rintro deferred ops hops v rfl
  obtain ⟨u, rest⟩ := kept deferred hops
  constructor
  · intro drained
    obtain ⟨result', ending', told⟩ := rest.ended drained
    rw [ending, Option.some.injEq, Prod.mk.injEq] at ending'
    obtain ⟨same, plain⟩ := ending'
    refine ⟨by rw [same]; exact told, ?_, ?_⟩
    · rw [plain]
      rfl
    · rw [plain]
      exact rest.stands.hosts.requestAt?
  · exact ⟨u, fun n hn => (rest.drained hn).1⟩

/-- A request whose first attempt times out, and whose second brings a body in a stream. -/
def droppedOnce : World where
  requests := #[some { url := text "u", method := text "GET" }]
  transport := { script := [.deliver (.failure ⟨.timeout, []⟩),
    .deliver (.reply (.ofStream 200 [] (some (.chunked (text "ok") 1 false))))] }

theorem droppedOnce_prepared : droppedOnce.Prepared 0 := by
  refine ⟨rfl, ⟨_, rfl, by decide⟩, rfl, ⟨_, rfl, rfl, rfl⟩, ?_, rfl, rfl, rfl⟩
  intro t ht
  simp only [droppedOnce, List.mem_cons, List.not_mem_nil, or_false] at ht
  rcases ht with rfl | rfl <;> exact ⟨_, rfl⟩

theorem refines_plain_droppedOnce :
    droppedOnce.Prepared 0 ∧
      (∃ l, (droppedOnce.plain 0).run = some (.ok ⟨200, [], text "ok", false, 0⟩, l) ∧
        l.sent = #[([], 2500), ([], 5000)]) ∧
      ∀ v, v = droppedOnce.applyAll [.deferAttempts false, .perform ⟨0, .rest, .rest⟩, .runTasks] →
        v.IsDrained → v.told 0 = [.success 0 0 ⟨200, [], text "ok", false, 0⟩] := by
  obtain ⟨result, l, run, ends⟩ := droppedOnce_prepared.refines_plain
  have late := ends true [.resolve, .resolve, .runTasks] (by simp [Operation.Drains]) _ rfl
  obtain ⟨told, sent, -⟩ := late.1 ⟨by decide +kernel, by decide +kernel⟩
  have success : [Event.success 0 0 ⟨200, [], text "ok", false, 0⟩] =
      [Event.answer 0 0 result] := by
    refine Eq.trans ?_ told
    decide +kernel
  have same : result = .ok ⟨200, [], text "ok", false, 0⟩ := by
    cases result with
    | ok response =>
      cases success
      rfl
    | error error => cases success
  subst same
  refine ⟨droppedOnce_prepared, ⟨l, run, ?_⟩, ?_⟩
  · rw [← sent]
    decide +kernel
  · intro v hv drained
    exact ((ends false [.runTasks] (by simp [Operation.Drains]) v hv).1 drained).1

end World

end RequestFlow
