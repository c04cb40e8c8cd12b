import Mathlib.Data.List.Nodup
import Mathlib.Logic.Function.Basic
import RequestFlow.WorkerPool.Jobs

/-!
# Runs of a pool of workers

Any number of submitters and workers act on one pool in any order.  Each act is one event, a run is the
list of its events in the order in which they took place, and what a pool has done is read off its run:
which tasks it accepted, which it started, which it finished, and what each worker has in hand.

The account of a run (`Account`) says that the accepted tasks are the started ones, in their order,
followed by the queue; that the started tasks are the finished ones and those in hand; and that a
worker is gone only from a pool that is stopping and has nothing queued.  Every step keeps it.
-/

namespace RequestFlow

namespace Worker

variable {τ : Type}

def task? : Worker τ → Option τ
  | busy task => some task
  | _ => none

@[simp] theorem task?_idle : (idle : Worker τ).task? = none := rfl

@[simp] theorem task?_busy (t : τ) : (busy t).task? = some t := rfl

@[simp] theorem task?_gone : (gone : Worker τ).task? = none := rfl

end Worker

namespace WorkerPool

variable {τ : Type}

/-! ## Events -/

inductive Event (τ : Type)
  | accepted (task : τ)
  | refused (task : τ)
  | started (worker : Nat) (task : τ)
  /-- The worker is done with the task, which returned or let out a fault. -/
  | finished (worker : Nat) (task : τ) (fault : Option Fault)
  | stopped
  | left (worker : Nat)

namespace Event

def accepted? : Event τ → Option τ
  | accepted task => some task
  | _ => none

def started? : Event τ → Option τ
  | started _ task => some task
  | _ => none

def finished? : Event τ → Option τ
  | finished _ task _ => some task
  | _ => none

/-- What each worker has in hand after an event, from what it had before. -/
def hands (held : Nat → Option τ) : Event τ → Nat → Option τ
  | started i task => Function.update held i (some task)
  | finished i _ _ => Function.update held i none
  | _ => held

theorem hands_eq_self {held : Nat → Option τ} {e : Event τ} (hs : e.started? = none)
    (hf : e.finished? = none) : e.hands held = held := by
  cases e with
  | started => cases hs
  | finished => cases hf
  | accepted | refused | stopped | left => rfl

end Event

def accepted (es : List (Event τ)) : List τ := es.filterMap Event.accepted?

def started (es : List (Event τ)) : List τ := es.filterMap Event.started?

def finished (es : List (Event τ)) : List τ := es.filterMap Event.finished?

/-- What each worker has taken and not finished. -/
def inHand (es : List (Event τ)) : Nat → Option τ := es.foldl Event.hands fun _ => none

/-- What the first `n` workers have in hand. -/
def running (n : Nat) (es : List (Event τ)) : List τ := (List.range n).filterMap (inHand es)

/-! ## Steps and runs -/

/-- One event, with the pools before and after it. -/
inductive Step : WorkerPool τ → Event τ → WorkerPool τ → Prop
  | accepted {p q : WorkerPool τ} {t : τ} (h : p.submit t = .ok q) : Step p (.accepted t) q
  | refused {p : WorkerPool τ} {t : τ} {f : Fault} (h : p.submit t = .error f) :
      Step p (.refused t) p
  | started {p q : WorkerPool τ} {i : Nat} {t : τ} (h : p.take i = some (t, q)) :
      Step p (.started i t) q
  | finished {p q : WorkerPool τ} {i : Nat} {t : τ} {fault : Option Fault}
      (busy : p.workers[i]? = some (.busy t)) (h : p.finish i = some q) :
      Step p (.finished i t fault) q
  | stopped {p : WorkerPool τ} : Step p .stopped p.stop
  | left {p q : WorkerPool τ} {i : Nat} (h : p.leave i = some q) : Step p (.left i) q

inductive Run (p₀ : WorkerPool τ) : List (Event τ) → WorkerPool τ → Prop
  | start : Run p₀ [] p₀
  | next {p q : WorkerPool τ} {es : List (Event τ)} {e : Event τ} (run : Run p₀ es p)
      (step : Step p e q) : Run p₀ (es ++ [e]) q

variable {p q p₀ : WorkerPool τ} {es fs : List (Event τ)} {e : Event τ} {t : τ} {i n : Nat}

theorem Step.run (h : Step p e q) : Run p [e] q := .next .start h

theorem Run.trans (first : Run p₀ es p) (second : Run p fs q) : Run p₀ (es ++ fs) q := by
  induction second with
  | start => simpa using first
  | next _ step ih => simpa using Run.next ih step

theorem Run.cons (step : Step p₀ e p) (rest : Run p fs q) : Run p₀ (e :: fs) q :=
  step.run.trans rest

/-! ## What each function does -/

theorem make_eq_ok_iff : (make n : Except Fault (WorkerPool τ)) = .ok p ↔
    n ≠ 0 ∧ p = { workers := List.replicate n .idle } := by
  unfold make
  split <;> simp_all [@eq_comm _ p]

theorem submit_eq_ok_iff : p.submit t = .ok q ↔
    p.stopping = false ∧ q = { p with queue := p.queue ++ [t] } := by
  unfold submit
  split <;> simp_all [@eq_comm _ q]

theorem take_eq_some_iff : p.take i = some (t, q) ↔
    ∃ rest, p.workers[i]? = some .idle ∧ p.queue = t :: rest ∧
      q = { p with
        workers := p.workers.set i (.busy t), queue := rest, active := p.active + 1 } := by
  unfold take
  split
  · rename_i hw hq
    simp only [hw, hq, Option.some.injEq, Prod.mk.injEq, List.cons.injEq, true_and]
    constructor
    · rintro ⟨rfl, rfl⟩
      exact ⟨_, ⟨rfl, rfl⟩, rfl⟩
    · rintro ⟨_, ⟨rfl, rfl⟩, rfl⟩
      exact ⟨rfl, rfl⟩
  · rename_i hno
    simp only [reduceCtorEq, false_iff]
    rintro ⟨rest, hw, hq, -⟩
    exact hno t rest hw hq

theorem finish_of_busy (h : p.workers[i]? = some (.busy t)) : p.finish i =
    some { p with workers := p.workers.set i .idle, active := p.active - 1 } := by
  simp [finish, h]

theorem leave_eq_some_iff : p.leave i = some q ↔
    p.workers[i]? = some .idle ∧ p.queue = [] ∧ p.stopping = true ∧
      q = { p with workers := p.workers.set i .gone } := by
  unfold leave
  split
  · rename_i hw hq
    simp [hw, hq, @eq_comm _ q]
  · rename_i hno
    simp only [reduceCtorEq, false_iff]
    rintro ⟨hw, hq, -⟩
    exact hno hw hq

/-! ## The account of a run -/

@[simp] theorem accepted_snoc (es : List (Event τ)) (e : Event τ) :
    accepted (es ++ [e]) = accepted es ++ e.accepted?.toList := by
  cases h : e.accepted? <;> simp [accepted, h]

@[simp] theorem started_snoc (es : List (Event τ)) (e : Event τ) :
    started (es ++ [e]) = started es ++ e.started?.toList := by
  cases h : e.started? <;> simp [started, h]

@[simp] theorem finished_snoc (es : List (Event τ)) (e : Event τ) :
    finished (es ++ [e]) = finished es ++ e.finished?.toList := by
  cases h : e.finished? <;> simp [finished, h]

@[simp] theorem inHand_snoc (es : List (Event τ)) (e : Event τ) :
    inHand (es ++ [e]) = e.hands (inHand es) := by
  simp [inHand]

/-- A task that one more of the indices has comes to those that the others have. -/
theorem filterMap_update_perm {l : List Nat} (hl : l.Nodup) (hi : i ∈ l) {f : Nat → Option τ}
    (hf : f i = none) :
    (l.filterMap (Function.update f i (some t))).Perm (t :: l.filterMap f) := by
  obtain ⟨l₁, l₂, rfl⟩ := List.append_of_mem hi
  have hother : ∀ m : List Nat, i ∉ m →
      m.filterMap (Function.update f i (some t)) = m.filterMap f := fun m hm =>
    List.filterMap_congr fun j hj => Function.update_of_ne (ne_of_mem_of_not_mem hj hm) _ _
  have hnot : i ∉ l₁ ∧ i ∉ l₂ := by
    have := List.nodup_middle.mp hl
    simpa using (List.nodup_cons.mp this).1
  simp only [List.filterMap_append, List.filterMap_cons, Function.update_self, hf,
    hother l₁ hnot.1, hother l₂ hnot.2]
  exact List.perm_middle

/-- A run's events against the pool that they led to. -/
structure Account (n : Nat) (es : List (Event τ)) (p : WorkerPool τ) : Prop where
  held : p.workers.map Worker.task? = (List.range n).map (inHand es)
  order : accepted es = started es ++ p.queue
  once : (started es).Perm (finished es ++ running n es)
  active : p.active = (running n es).length
  stopping : p.stopping = true ↔ Event.stopped ∈ es
  drained : .gone ∈ p.workers → p.stopping = true ∧ p.queue = []

namespace Account

theorem make (h : WorkerPool.make n = .ok p) : Account n [] p := by
  obtain ⟨-, rfl⟩ := make_eq_ok_iff.mp h
  have hnone : running n ([] : List (Event τ)) = [] := by simp [running, inHand]
  refine ⟨?_, rfl, ?_, ?_, ?_, ?_⟩
  · simp [inHand, List.map_const', List.map_replicate]
  · simp [started, finished, hnone]
  · simp [hnone]
  · simp
  · simp [List.mem_replicate]

theorem length (h : Account n es p) : p.workers.length = n := by
  simpa using congrArg List.length h.held

/-- A worker of the pool is one of the `n` and has in hand what the run says. -/
theorem worker (h : Account n es p) {w : Worker τ} (hw : p.workers[i]? = some w) :
    i < n ∧ inHand es i = w.task? := by
  have hi : i < n := h.length ▸ (List.getElem?_eq_some_iff.mp hw).1
  have := congrArg (·[i]?) h.held
  simp only [List.getElem?_map, hw, List.getElem?_range hi, Option.map_some,
    Option.some.injEq] at this
  exact ⟨hi, this.symm⟩

/-- Putting a worker in place of another puts what it has in hand in place of what the other had. -/
theorem held_set (h : Account n es p) (w : Worker τ) :
    (p.workers.set i w).map Worker.task? =
      (List.range n).map (Function.update (inHand es) i w.task?) := by
  apply List.ext_getElem (by simp [h.length])
  intro j hj _
  have inside : j < p.workers.length := by simpa using hj
  have hheld : p.workers[j].task? = inHand es j :=
    (h.worker (List.getElem?_eq_getElem inside)).2.symm
  by_cases hij : i = j
  · subst hij; simp
  · simp [List.getElem_set_ne hij, Function.update_of_ne (Ne.symm hij), hheld]

/-- An event that hands out nothing and takes nothing back leaves all but the queue and the mark. -/
theorem quiet (h : Account n es p) (hs : e.started? = none) (hf : e.finished? = none)
    (hheld : q.workers.map Worker.task? = p.workers.map Worker.task?) (hactive : q.active = p.active)
    (hqueue : q.queue = p.queue ++ e.accepted?.toList)
    (hstop : q.stopping = true ↔ p.stopping = true ∨ e = .stopped)
    (hdrained : .gone ∈ q.workers → q.stopping = true ∧ q.queue = []) :
    Account n (es ++ [e]) q := by
  have hhands : inHand (es ++ [e]) = inHand es := by
    rw [inHand_snoc, Event.hands_eq_self hs hf]
  have hrunning : running n (es ++ [e]) = running n es := by rw [running, hhands, running]
  refine ⟨by rw [hheld, hhands, h.held], ?_, ?_, by rw [hactive, h.active, hrunning], ?_, hdrained⟩
  · simp [hs, h.order, hqueue]
  · simpa [hs, hf, hrunning] using h.once
  · rw [hstop, h.stopping]
    simp [eq_comm]

/-- A worker that takes a task has it in hand, and nothing else changes hands. -/
theorem running_started (h : Account n es p) (hw : p.workers[i]? = some .idle) (t : τ) :
    (running n (es ++ [.started i t])).Perm (t :: running n es) := by
  obtain ⟨hi, hfree⟩ := h.worker hw
  rw [running, inHand_snoc]
  exact filterMap_update_perm List.nodup_range (List.mem_range.mpr hi) hfree

/-- A worker that finishes its task had it in hand. -/
theorem running_finished (h : Account n es p) (hw : p.workers[i]? = some (.busy t))
    (fault : Option Fault) :
    (running n es).Perm (t :: running n (es ++ [.finished i t fault])) := by
  obtain ⟨hi, hheld⟩ := h.worker hw
  have hback := filterMap_update_perm (t := t) List.nodup_range (List.mem_range.mpr hi)
    (Function.update_self i none (inHand es))
  rw [Function.update_idem, ← hheld.trans (Worker.task?_busy t), Function.update_eq_self] at hback
  rwa [running, running, inHand_snoc]

theorem step (h : Account n es p) (step : Step p e q) : Account n (es ++ [e]) q := by
  cases step with
  | accepted hs =>
    obtain ⟨hgo, rfl⟩ := submit_eq_ok_iff.mp hs
    exact h.quiet rfl rfl rfl rfl rfl (by simp) fun hg => by simp [(h.drained hg).1] at hgo
  | refused hs => exact h.quiet rfl rfl rfl rfl (by simp [Event.accepted?]) (by simp) h.drained
  | stopped =>
    exact h.quiet rfl rfl rfl rfl (by simp [Event.accepted?, stop]) (by simp [stop])
      fun hg => ⟨rfl, (h.drained hg).2⟩
  | left hl =>
    obtain ⟨hw, hq, hs, rfl⟩ := leave_eq_some_iff.mp hl
    refine h.quiet rfl rfl ?_ rfl (by simp [Event.accepted?]) (by simp) fun _ => ⟨hs, hq⟩
    rw [h.held_set .gone, Worker.task?_gone, ← Worker.task?_idle, ← (h.worker hw).2,
      Function.update_eq_self, h.held]
  | started ht =>
    rename_i i t
    obtain ⟨rest, hw, hq, rfl⟩ := take_eq_some_iff.mp ht
    have hmore := h.running_started hw t
    refine ⟨?_, ?_, ?_, ?_, by simpa using h.stopping, fun hg => ?_⟩
    · rw [h.held_set, inHand_snoc]; rfl
    · simp [Event.accepted?, Event.started?, h.order, hq]
    · simp only [started_snoc, finished_snoc, Event.started?, Event.finished?, Option.toList_some,
        Option.toList_none, List.append_nil]
      calc (started es ++ [t]).Perm (finished es ++ running n es ++ [t]) := h.once.append_right _
        _ = finished es ++ (running n es ++ [t]) := List.append_assoc ..
        List.Perm _ _ := (List.perm_append_comm.trans hmore.symm).append_left _
    · simp [hmore.length_eq, h.active]
    · obtain hg | hg := List.mem_or_eq_of_mem_set hg
      · simp [(h.drained hg).2] at hq
      · cases hg
  | finished hw hf =>
    rename_i i t fault
    rw [finish_of_busy hw] at hf
    obtain rfl := Option.some.inj hf
    have hless := h.running_finished hw fault
    refine ⟨?_, ?_, ?_, ?_, by simpa using h.stopping, fun hg => ?_⟩
    · rw [h.held_set, inHand_snoc]; rfl
    · simp [Event.accepted?, Event.started?, h.order]
    · simp only [started_snoc, finished_snoc, Event.started?, Event.finished?, Option.toList_some,
        Option.toList_none, List.append_nil, List.append_assoc, List.singleton_append]
      exact h.once.trans (hless.append_left _)
    · simp [h.active, hless.length_eq]
    · obtain hg | hg := List.mem_or_eq_of_mem_set hg
      · exact h.drained hg
      · cases hg

theorem run (hp : WorkerPool.make n = .ok p₀) (h : Run p₀ es p) : Account n es p := by
  induction h with
  | start => exact make hp
  | next _ step ih => exact ih.step step

/-- What a caller waits for is that all accepted tasks are finished. -/
theorem isSettled_iff (h : Account n es p) :
    p.isSettled = true ↔ (finished es).Perm (accepted es) := by
  have hlen := h.once.length_eq
  simp only [List.length_append] at hlen
  constructor
  · intro hs
    simp only [isSettled, Bool.and_eq_true, List.isEmpty_iff, beq_iff_eq] at hs
    have hnone : running n es = [] := List.eq_nil_of_length_eq_zero (h.active ▸ hs.2)
    rw [h.order, hs.1, List.append_nil]
    simpa [hnone] using h.once.symm
  · intro hall
    have hall := hall.length_eq
    rw [h.order, List.length_append, hlen] at hall
    have hqueue : p.queue = [] := List.eq_nil_of_length_eq_zero (by omega)
    have hactive : p.active = 0 := by rw [h.active]; omega
    simp [isSettled, hqueue, hactive]

/-- Something is finished or started next as long as an accepted task is not finished. -/
theorem moves (h : Account n es p) (hn : n ≠ 0) (hs : p.isSettled = false) :
    ∃ i, (p.take i).isSome ∨ (p.finish i).isSome := by
  have hworker : ∀ i < n, ∃ w, p.workers[i]? = some w := fun i hi =>
    ⟨_, List.getElem?_eq_getElem (h.length ▸ hi)⟩
  cases hq : p.queue with
  | nil =>
    have hactive : running n es ≠ [] := by
      intro hnone
      simp [isSettled, hq, h.active, hnone] at hs
    obtain ⟨t, ht⟩ := List.exists_mem_of_ne_nil _ hactive
    obtain ⟨i, hi, hheld⟩ := List.mem_filterMap.mp ht
    obtain ⟨w, hw⟩ := hworker i (List.mem_range.mp hi)
    have htask : w.task? = some t := (h.worker hw).2.symm.trans hheld
    cases w with
    | busy => exact ⟨i, .inr (by rw [finish_of_busy hw]; rfl)⟩
    | idle | gone => cases htask
  | cons t rest =>
    obtain ⟨w, hw⟩ := hworker 0 (Nat.pos_of_ne_zero hn)
    cases w with
    | idle => exact ⟨0, .inl (by rw [take_eq_some_iff.mpr ⟨rest, hw, hq, rfl⟩]; rfl)⟩
    | busy => exact ⟨0, .inr (by rw [finish_of_busy hw]; rfl)⟩
    | gone => simp [(h.drained (List.mem_of_getElem? hw)).2] at hq

/-- A pool whose workers have all left is stopping and has finished all it accepted. -/
theorem exhausted (h : Account n es p) (hn : n ≠ 0) (hgone : ∀ w ∈ p.workers, w = .gone) :
    p.stopping = true ∧ p.isSettled = true := by
  obtain ⟨w, hw⟩ := List.exists_mem_of_ne_nil p.workers (by
    intro hnil
    exact hn (by simpa [hnil] using h.length.symm))
  obtain ⟨hstop, hqueue⟩ := h.drained (hgone w hw ▸ hw)
  have hidle : p.workers.map Worker.task? = p.workers.map fun _ => none :=
    List.map_congr_left fun w hw => by rw [hgone w hw, Worker.task?_gone]
  have hnone : running n es = [] := by
    refine List.filterMap_eq_nil_iff.mpr fun i hi => ?_
    have hi := List.mem_range.mp hi
    have hw := List.getElem?_eq_getElem (h.length.symm ▸ hi)
    rw [(h.worker hw).2, hgone _ (List.getElem_mem _), Worker.task?_gone]
  exact ⟨hstop, by simp [isSettled, hqueue, h.active, hnone]⟩

end Account

/-- The tasks that a pool accepts are started in the order in which they were accepted, each of them
once, and the started ones are those that are finished and those in a worker's hand, of which the pool
counts the number.  A caller that waits is let go exactly when all accepted tasks are finished, and as
long as one is not, some worker can move.  A task is refused exactly after the pool was stopped, a worker
leaves only a stopped pool with an empty queue, and once all have left, all accepted tasks are
finished. -/
theorem accepted_tasks_run_once (hp : make n = .ok p₀) (h : Run p₀ es p) :
    accepted es = started es ++ p.queue ∧
    (started es).Perm (finished es ++ running n es) ∧
    p.active = (running n es).length ∧
    (p.isSettled = true ↔ (finished es).Perm (accepted es)) ∧
    (p.isSettled = false → ∃ i, (p.take i).isSome ∨ (p.finish i).isSome) ∧
    (p.stopping = true ↔ Event.stopped ∈ es) ∧
    (∀ t, p.submit t = .error .poolStopping ↔ p.stopping = true) ∧
    (∀ t, p.stopping = false → p.submit t = .ok { p with queue := p.queue ++ [t] }) ∧
    (∀ i q, p.leave i = some q → p.stopping = true ∧ p.queue = []) ∧
    ((∀ w ∈ p.workers, w = .gone) → p.stopping = true ∧ (finished es).Perm (accepted es)) := by
  have ha := Account.run hp h
  have hn : n ≠ 0 := (make_eq_ok_iff.mp hp).1
  refine ⟨ha.order, ha.once, ha.active, ha.isSettled_iff, ha.moves hn, ha.stopping,
    submit_eq_error_iff p, fun t hs => submit_eq_ok_iff.mpr ⟨hs, rfl⟩, fun i q hl => ?_,
    fun hgone => ?_⟩
  · obtain ⟨-, hq, hs, -⟩ := leave_eq_some_iff.mp hl
    exact ⟨hs, hq⟩
  · obtain ⟨hs, hall⟩ := ha.exhausted hn hgone
    exact ⟨hs, ha.isSettled_iff.mp hall⟩

/-- Two workers: the first task is finished after the second, which fails, and the third is taken
after the stop, at which a fourth one is refused. -/
def failingRun : List (Event Nat) :=
  [.accepted 10, .accepted 11, .started 1 10, .accepted 12, .started 0 11,
    .finished 0 11 (some (.runtime [])), .stopped, .refused 13, .started 0 12, .finished 1 10 none,
    .left 1, .finished 0 12 none, .left 0]

theorem failingRun_once :
    ∃ p₀ p : WorkerPool Nat, make 2 = .ok p₀ ∧ Run p₀ failingRun p ∧
      accepted failingRun = [10, 11, 12] ∧ started failingRun = [10, 11, 12] ∧
      finished failingRun = [11, 10, 12] ∧ (finished failingRun).Perm (accepted failingRun) ∧
      p.submit 14 = .error .poolStopping := by
  have hmake : make 2 = .ok ({ workers := [.idle, .idle] } : WorkerPool Nat) := rfl
  have hrun : Run ({ workers := [.idle, .idle] } : WorkerPool Nat) failingRun
      { workers := [.gone, .gone], stopping := true } :=
    .cons (.accepted rfl) <| .cons (.accepted rfl) <| .cons (.started rfl) <| .cons (.accepted rfl) <|
    .cons (.started rfl) <| .cons (.finished rfl rfl) <| .cons .stopped <| .cons (.refused rfl) <|
    .cons (.started rfl) <| .cons (.finished rfl rfl) <| .cons (.left rfl) <|
    .cons (.finished rfl rfl) <| .cons (.left rfl) .start
  obtain ⟨-, -, -, -, -, -, hrefused, -, -, hgone⟩ := accepted_tasks_run_once hmake hrun
  obtain ⟨hstop, hall⟩ := hgone (by decide)
  exact ⟨_, _, hmake, hrun, rfl, rfl, rfl, hall, (hrefused 14).mpr hstop⟩

end WorkerPool

/-! ## Jobs

The schedule of `JobRun` is one of the runs: what it does to its pool is a list of events.
-/

namespace JobRun

open WorkerPool

variable {r : JobRun} {j : Job}

theorem submitAll_run (p : WorkerPool Job) (js : List Job) :
    ∃ es, Run p es (submitAll p js).2 ∧ (submitAll p js).2.workers = p.workers := by
  induction js generalizing p with
  | nil => exact ⟨[], .start, rfl⟩
  | cons j js ih =>
    cases hs : p.submit j with
    | error f => exact ⟨[], by simpa [submitAll, hs] using Run.start, by simp [submitAll, hs]⟩
    | ok q =>
      obtain ⟨es, hrun, hworkers⟩ := ih q
      obtain ⟨-, rfl⟩ := submit_eq_ok_iff.mp hs
      refine ⟨.accepted j :: es, ?_, by simpa [submitAll, hs] using hworkers⟩
      simpa [submitAll, hs] using Run.cons (.accepted hs) hrun

@[simp] theorem runJob_snd (p : WorkerPool Job) (j : Job) :
    (runJob p j).2 = (submitAll p j.nested).2 := by
  unfold runJob
  split <;> simp_all

theorem weights_append (js ks : List Job) :
    Job.weights (js ++ ks) = Job.weights js + Job.weights ks := by
  induction js with
  | nil => simp [Job.weights]
  | cons j js ih => simp [Job.weights, ih, Nat.add_assoc]

theorem submitAll_weights (p : WorkerPool Job) (js : List Job) :
    Job.weights (submitAll p js).2.queue ≤ Job.weights p.queue + Job.weights js := by
  induction js generalizing p with
  | nil => simp [submitAll]
  | cons j js ih =>
    cases hs : p.submit j with
    | error f => simp [submitAll, hs]
    | ok q =>
      obtain ⟨-, rfl⟩ := submit_eq_ok_iff.mp hs
      have := ih { p with queue := p.queue ++ [j] }
      simp only [weights_append, Job.weights] at this
      simp only [submitAll, hs, Job.weights]
      omega

theorem runNext_of_take {q : WorkerPool Job} (h : r.pool.take 0 = some (j, q)) :
    ∃ r', r.runNext = some r' ∧ (runJob q j).2.workers[0]? = some (.busy j) ∧
      r'.pool = { (runJob q j).2 with
        workers := r.pool.workers, active := (runJob q j).2.active - 1 } := by
  obtain ⟨rest, hw, -, hq⟩ := take_eq_some_iff.mp h
  obtain ⟨hlt, hidle⟩ := List.getElem?_eq_some_iff.mp hw
  have hworkers : (runJob q j).2.workers = r.pool.workers.set 0 (.busy j) := by
    obtain ⟨-, -, hsame⟩ := submitAll_run q j.nested
    rw [runJob_snd, hsame, hq]
  have hbusy : (runJob q j).2.workers[0]? = some (.busy j) := by
    rw [hworkers, List.getElem?_set_self hlt]
  refine ⟨_, by simp only [runNext, h, finish_of_busy hbusy, Option.map_some]; rfl, hbusy, ?_⟩
  simp only [hworkers, List.set_set, ← hidle, List.set_getElem_self]

/-- One job is its start, what it submits, and its finish with the fault that it let out. -/
theorem runNext_run {r' : JobRun} (h : r.runNext = some r') :
    ∃ j q es, r.pool.take 0 = some (j, q) ∧
      Run r.pool (.started 0 j :: es ++ [.finished 0 j (runJob q j).1]) r'.pool := by
  cases ht : r.pool.take 0 with
  | none => simp [runNext, ht] at h
  | some taken =>
    obtain ⟨j, q⟩ := taken
    obtain ⟨r'', hr, hbusy, -⟩ := runNext_of_take ht
    obtain ⟨es, hrun, -⟩ := submitAll_run q j.nested
    rw [← runJob_snd] at hrun
    simp only [runNext, ht, finish_of_busy hbusy, Option.map_some, Option.some.injEq] at h
    subst h
    exact ⟨j, q, es, rfl, (Run.cons (.started ht) hrun).next (.finished hbusy (finish_of_busy hbusy))⟩

theorem runSome_run (n : Nat) (r : JobRun) : ∃ es, Run r.pool es (runSome n r).pool := by
  induction n generalizing r with
  | zero => exact ⟨[], .start⟩
  | succ n ih =>
    cases h : r.runNext with
    | none => exact ⟨[], by simpa [runSome, h] using Run.start⟩
    | some r' =>
      obtain ⟨j, q, es, -, hfirst⟩ := runNext_run h
      obtain ⟨fs, hrest⟩ := ih r'
      exact ⟨_, by simpa [runSome, h] using hfirst.trans hrest⟩

/-- Every job that is queued, and every one that comes of it, is run: the bound of `runAll` is never
what ends it. -/
theorem runSome_queue {n : Nat} (hidle : r.pool.workers[0]? = some .idle)
    (hn : Job.weights r.pool.queue ≤ n) : (runSome n r).pool.queue = [] := by
  induction n generalizing r with
  | zero =>
    cases hq : r.pool.queue with
    | nil => simpa [runSome] using hq
    | cons j rest =>
      cases j
      simp [hq, Job.weights, Job.weight] at hn
  | succ n ih =>
    cases hq : r.pool.queue with
    | nil => simp [runSome, runNext, take, hq]
    | cons j rest =>
      obtain ⟨r', hr, -, hpool⟩ := runNext_of_take (take_eq_some_iff.mpr ⟨rest, hidle, hq, rfl⟩)
      have hless := submitAll_weights { r.pool with
        workers := r.pool.workers.set 0 (.busy j), queue := rest, active := r.pool.active + 1 }
        j.nested
      have hj : j.weight = 1 + Job.weights j.nested := by cases j; rfl
      simp only [runSome, hr]
      refine ih (by simpa [hpool] using hidle) ?_
      rw [hq, Job.weights] at hn
      rw [hpool, runJob_snd]
      dsimp only at hless ⊢
      omega

/-- Destroying a pool is a stop and a run of all that it had accepted. -/
theorem destroy_run (hd : r.destroyed = false) (hidle : r.pool.workers[0]? = some .idle) :
    ∃ es, Run r.pool (.stopped :: es) r.destroy.pool ∧ r.destroy.pool.queue = [] := by
  obtain ⟨es, h⟩ := runSome_run (Job.weights r.pool.stop.queue) { r with pool := r.pool.stop }
  have hdestroy : r.destroy.pool = ({ r with pool := r.pool.stop }.runAll).pool := by
    simp [destroy, hd]
  rw [hdestroy]
  exact ⟨es, .cons .stopped h, runSome_queue hidle (Nat.le_refl _)⟩

end JobRun

end RequestFlow
