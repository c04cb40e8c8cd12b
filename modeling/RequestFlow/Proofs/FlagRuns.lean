import RequestFlow.Proofs.DrivenRuns
import RequestFlow.Proofs.RetryFlags
import RequestFlow.Proofs.SingleCall

/-!
# Runs under other retry flags

Two runs of one request, of which the second has all flags of the first one on, take the same steps
until a failure is a candidate for a retry in the second run only.  The first run is decided then: the
transport sees no more of it, while the second one goes on.  Where no retry is allowed at all, both
runs are decided there, with the same error.

    the runs take the same steps until they part                 (Machine.Together.step)
    a failure that is not tried again parts them                 (parted_of_refused)
    once parted they stay so, whatever each of them does         (Parted.left, Parted.right)
    so the first run sends no more than the second one           (retry_flags_decide)
-/

namespace RequestFlow

open Network (Driven Decided)

/-- The policy never grants a retry: it allows none, and was not asked yet. -/
def Request.AllowsNone (r : Request) : Prop :=
  ∃ b : Backoff, r.policy = .backoff b ∧ b.count = 0 ∧ b.limit = 0

namespace World

/-- The world with these flags in one of its requests. -/
def withFlags (w : World) (i : Nat) (server connection : Bool) : World :=
  { w with requests := w.requests.modify i (Option.map (·.withFlags server connection)) }

/-- The call is judged as it should, with at least the flags that it has here in the other world.  If
no failure is to be tried again, then its policy allows no retry. -/
structure Matched (final : Prop) (w w' : World) (c : Nat) : Prop where
  classifier : w.classifierOf c = .standard
  loosens : (w.requestOf c).Loosens (w'.requestOf c)
  strict : final → (w.requestOf c).AllowsNone

/-- The worlds differ in the flags of one call at most, and this call was not answered. -/
structure Together (final : Prop) (w w' : World) : Prop where
  blind : w.blind = w'.blind
  size : w.calls.size ≤ 1
  matched : ∀ c < w.calls.size, w.Matched final w' c
  unanswered : w.answers 0 = 0

end World

/-- The machines do the same in such worlds, and perform nothing. -/
structure Machine.Together (final : Prop) (m m' : Machine) : Prop where
  world : m.world.Together final m'.world
  control : m'.control = m.control
  stack : m'.stack = m.stack
  performs : m.control.performs = 0

namespace Network

/-- The first run is decided and the second one saw as many attempts at least.  If no failure is to
be tried again, then the second run is decided as the first one is. -/
structure Parted (final : Prop) (s s' : Network) : Prop where
  decided : s.Decided 0
  timeouts : s.world.timeouts 0 <+: s'.world.timeouts 0
  told : final → s'.Decided 0 ∧ s.world.told 0 = s'.world.told 0

/-- The runs have taken the same steps, or have parted. -/
structure Abreast (final : Prop) (s s' : Network) : Prop where
  driven : s.Driven
  driven' : s'.Driven
  related : s.world.Together final s'.world ∨ Parted final s s'

end Network

/-! ## Worlds -/

namespace World

variable {w w' v v' : World} {final : Prop} {c : Nat}

theorem trace_of_blind (h : w.blind = w'.blind) : w.trace = w'.trace :=
  (congrArg World.trace h :)

theorem calls_of_blind (h : w.blind = w'.blind) : w.calls = w'.calls :=
  (congrArg World.calls h :)

theorem told_of_blind (h : w.blind = w'.blind) (c : Nat) : w.told c = w'.told c := by
  rw [told, told, trace_of_blind h]

theorem timeouts_of_blind (h : w.blind = w'.blind) (c : Nat) : w.timeouts c = w'.timeouts c := by
  rw [timeouts, timeouts, trace_of_blind h]

theorem callAt_of_blind (h : w.blind = w'.blind) (c : Nat) : w.callAt c = w'.callAt c :=
  (congrArg (World.callAt · c) h :)

theorem classifierOf_of_blind (h : w.blind = w'.blind) (c : Nat) :
    w.classifierOf c = w'.classifierOf c :=
  (congrArg (World.classifierOf · c) h :)

theorem budget_of_blind (h : w.blind = w'.blind) (n : Nat) : w.budget n = w'.budget n := by
  rw [← w.budget_blind, ← w'.budget_blind, h]

theorem requestOf_of_blind (h : w.blind = w'.blind) (c : Nat) :
    (w.requestOf c).blind = (w'.requestOf c).blind := by
  rw [← w.requestOf_blind, ← w'.requestOf_blind, h]

/-- Worlds stay together where calls, requests, classifiers and trace are left alone. -/
theorem Together.of_eq (h : w.Together final w') (blind : v.blind = v'.blind)
    (calls : v.calls = w.calls) (requests : v.requests = w.requests)
    (requests' : v'.requests = w'.requests) (classifiers : v.classifiers = w.classifiers)
    (trace : v.trace = w.trace) : v.Together final v' := by
  have calls' : v'.calls = w'.calls := by
    rw [← calls_of_blind blind, calls, calls_of_blind h.blind]
  refine ⟨blind, calls ▸ h.size, fun c hc => ?_, ?_⟩
  · obtain ⟨classifier, loosens, strict⟩ := h.matched c (calls ▸ hc)
    have request : v.requestOf c = w.requestOf c := by
      simp only [requestOf, requestAt?, callAt, calls, requests]
    have request' : v'.requestOf c = w'.requestOf c := by
      simp only [requestOf, requestAt?, callAt, calls', requests']
    refine ⟨?_, request ▸ request' ▸ loosens, request ▸ strict⟩
    simp only [classifierOf, callAt, calls, classifiers]
    exact classifier
  · simp only [answers, trace]
    exact h.unanswered

/-- The only call is the first one. -/
theorem Together.eq_zero (h : w.Together final w') (hc : c < w.calls.size) : c = 0 := by
  have := h.size
  omega

end World

/-! ## Steps -/

namespace Machine

variable {w w' : World} {m m' : Machine} {stack : List Frame} {final : Prop} {past : List Machine}
  {c : Nat} {x : FailureContext}

theorem Together.blind (h : m.Together final m') : m.blind = m'.blind := by
  rw [Machine.blind, Machine.blind, h.world.blind, h.control, h.stack]

theorem Together.of_blind (blind : m.blind = m'.blind) (size : m.world.calls.size ≤ 1)
    (matched : ∀ c < m.world.calls.size, m.world.Matched final m'.world c)
    (unanswered : m.world.answers 0 = 0) (performs : m.control.performs = 0) :
    m.Together final m' :=
  ⟨⟨congrArg Machine.world blind, size, matched, unanswered⟩,
    (congrArg Machine.control blind :).symm, (congrArg Machine.stack blind :).symm, performs⟩

/-- The request of a call changes with its failures only. -/
theorem requestOf_step (hf : ∀ c x, m.control ≠ .run (.fail c x)) (hc : c < m.world.calls.size) :
    m.step.world.requestOf c = m.world.requestOf c := by
  have index := (Call.eq_of_plan ((Moves.step m).leaves.plan c hc)).1
  have request := Network.requestAt?_of_other (i := (m.world.callAt c).request) (t := m.thread)
    (.step m) fun d x hd => absurd hd (hf d x)
  rw [World.requestOf, World.requestOf, index, request]

/-- A step performs nothing, unless it tells the first call a result. -/
theorem step_performs (fits : m.Fits past) (ready : m.Ready) (size : m.world.calls.size ≤ 1)
    (calm : m.control.performs = 0) :
    (m.step.world.calls.size = m.world.calls.size ∧ m.step.control.performs = 0) ∨
      0 < m.step.world.answers 0 := by
  obtain ⟨w, control, stack⟩ := m
  cases control with
  | run i =>
    by_cases tells : ∃ c result, i = .complete c result
    · obtain ⟨c, result, rfl⟩ := tells
      have inside : c < w.calls.size := fits.control.1
      obtain rfl : c = 0 := by
        dsimp only at size
        omega
      have undone := w.completedOf_eq_zero_iff.1 (ready.undone 0 (by simp [inHand, Instr.hand?]))
      have told := (complete_tells result stack undone).2
      right
      rw [World.answers_eq_length]
      show 0 < ((complete w 0 result stack).world.told 0).length
      rw [told, List.length_append]
      exact Nat.succ_pos _
    · obtain ⟨size, performs, -⟩ : Continues w stack (step ⟨w, .run i, stack⟩) :=
        exec_continues calm fun c result hi => absurd ⟨c, result, hi⟩ tells
      exact .inl ⟨size, performs⟩
  | done a =>
    cases stack with
    | nil => exact .inl ⟨rfl, rfl⟩
    | cons f rest =>
      obtain ⟨size, performs, -⟩ : Continues w rest (step ⟨w, .done a, f :: rest⟩) :=
        resume_continues f
      exact .inl ⟨size, performs⟩
  | raised fault =>
    cases stack with
    | nil => exact .inl ⟨rfl, rfl⟩
    | cons f rest =>
      obtain ⟨size, performs, -⟩ : Continues w rest (step ⟨w, .raised fault, f :: rest⟩) :=
        unwind_continues fault f
      exact .inl ⟨size, performs⟩

theorem Together.idle (h : m.Together final m') : m'.isIdle = m.isIdle := by
  unfold isIdle
  rw [h.control, h.stack]

/-- A step that has no failure classified keeps machines together, or tells both the same. -/
theorem Together.step (h : m.Together final m') (fits : m.Fits past) (ready : m.Ready)
    (hf : ∀ c x, m.control ≠ .run (.fail c x)) :
    m.step.Together final m'.step ∨
      0 < m.step.world.answers 0 ∧ m.step.world.blind = m'.step.world.blind := by
  have hf' : ∀ c x, m'.control ≠ .run (.fail c x) := by
    rw [h.control]
    exact hf
  have blind : m.step.blind = m'.step.blind := by
    rw [← step_blind hf, ← step_blind hf', h.blind]
  by_cases answered : 0 < m.step.world.answers 0
  · exact .inr ⟨answered, congrArg Machine.world blind⟩
  · obtain ⟨size, performs⟩ : _ ∧ _ :=
      (step_performs fits ready h.world.size h.performs).resolve_right answered
    have calls := World.calls_of_blind h.world.blind
    refine .inl (.of_blind blind (size ▸ h.world.size) (fun c hc => ?_)
      (Nat.eq_zero_of_not_pos answered) performs)
    rw [size] at hc
    obtain ⟨classifier, loosens, strict⟩ := h.world.matched c hc
    obtain rfl := h.world.eq_zero hc
    refine ⟨classifierOf_step ?_ classifier fits, ?_, ?_⟩
    · have := h.world.size
      omega
    · rw [requestOf_step hf hc, requestOf_step hf' (calls ▸ hc)]
      exact loosens
    · rw [requestOf_step hf hc]
      exact strict

/-! ## Failures -/

/-- The step that has a failure judged by the standard classifier. -/
theorem fail_standard (standard : w.classifierOf c = .standard) :
    fail w c x stack =
      let verdict := classify (w.requestOf c) x
      let logged := w.logFor c .debug (text "Attempt failed (" ++ x.failure.kind.label ++
        text "): " ++ x.failure.message)
      doing (((logged.setRequest c verdict.request).setClassifier c .standard).addLogs
        verdict.records) (.settle c x.networkTime verdict.answer) stack := by
  have judge (level : Level) (message : Bytes) :
      (w.logFor c level message).classifierOf c = .standard := standard
  unfold fail
  dsimp only
  rw [judge]
  rfl

/-- It is seen without the flags as the verdict is. -/
theorem fail_blind (standard : w.classifierOf c = .standard) :
    (fail w c x stack).blind =
      let verdict := (classify (w.requestOf c) x).blind
      let logged := w.blind.logFor c .debug (text "Attempt failed (" ++ x.failure.kind.label ++
        text "): " ++ x.failure.message)
      doing (((logged.setRequest c verdict.request).setClassifier c .standard).addLogs
        verdict.records) (.settle c x.networkTime verdict.answer) stack := by
  have stored (w : World) (r : Request) :
      w.blind.setRequest c r.blind = (w.setRequest c r).blind := by
    simp only [World.setRequest, World.blind, Array.map_setIfInBounds]
    rfl
  rw [fail_standard standard]
  dsimp only
  rw [World.logFor_blind, Verdict.blind, stored]
  rfl

/-- A failure changes no flag. -/
theorem fail_flags (standard : w.classifierOf c = .standard) (x : FailureContext)
    (stack : List Frame) :
    ((fail w c x stack).world.requestOf c).retryServerErrors = (w.requestOf c).retryServerErrors ∧
      ((fail w c x stack).world.requestOf c).retryConnectionErrors =
        (w.requestOf c).retryConnectionErrors := by
  obtain ⟨requests, -, calls, -⟩ := fail_world w c x stack
  have index : (fail w c x stack).world.callAt c = w.callAt c := by
    rw [World.callAt, calls, World.callAt]
  have stored := World.requestAt?_setIfInBounds requests (w.callAt c).request
  rw [standard] at stored
  rw [World.requestOf, index, stored]
  split
  · exact classify_flags (w.requestOf c) x
  · exact ⟨rfl, rfl⟩

/-- Where no retry is allowed, a failure is final in both worlds, and with the same error. -/
theorem final_together (h : w.Together final w') (inside : 0 < w.calls.size) (none : final)
    (x : FailureContext) :
    ∃ e, (classify (w.requestOf 0) x).answer = .ok (.final e) ∧
      (classify (w'.requestOf 0) x).answer = .ok (.final e) := by
  obtain ⟨b, policy, count, limit⟩ := (h.matched 0 inside).strict none
  have same := World.requestOf_of_blind h.blind 0
  have policy' : (w'.requestOf 0).policy = .backoff b := by
    rw [← policy]
    exact (congrArg Request.policy same :).symm
  refine ⟨_, classify_answer_of_limit_zero policy count limit x, ?_⟩
  rw [classify_answer_of_limit_zero policy' count limit x, error_categorize_of_blind same]

/-- A retry that is granted in the first world is granted in the second one. -/
theorem together_fail (h : w.Together final w') (inside : 0 < w.calls.size) {reason : RetryReason}
    (granted : (classify (w.requestOf 0) x).answer = .ok (.retry reason)) :
    Machine.Together final (fail w 0 x stack) (Machine.fail w' 0 x stack) := by
  obtain ⟨classifier, loosens, strict⟩ := h.matched 0 inside
  have classifier' := (World.classifierOf_of_blind h.blind 0).symm.trans classifier
  have verdict : (classify (w.requestOf 0) x).blind = (classify (w'.requestOf 0) x).blind :=
    classify_blind_of_granted (World.requestOf_of_blind h.blind 0) loosens granted
  have blind : (Machine.fail w 0 x stack).blind = (Machine.fail w' 0 x stack).blind := by
    rw [fail_blind classifier, fail_blind classifier', verdict, h.blind]
  obtain ⟨server, connection⟩ := fail_flags classifier x stack
  obtain ⟨server', connection'⟩ := fail_flags classifier' x stack
  have unanswered : (Machine.fail w 0 x stack).world.answers 0 = 0 := by
    rw [World.answers_eq_length, told_fail, ← World.answers_eq_length]
    exact h.unanswered
  refine .of_blind blind h.size (fun c hc => ?_) unanswered rfl
  obtain rfl := h.eq_zero hc
  refine ⟨fail_classifierOf classifier x stack, ⟨?_, ?_⟩, fun none => ?_⟩
  · rw [server, server']
    exact loosens.server
  · rw [connection, connection']
    exact loosens.connection
  · -- a policy that allows no retry grants none
    obtain ⟨e, answer, -⟩ := final_together h inside none x
    rw [answer] at granted
    cases granted

/-! ## Beginning -/

theorem server_together (h : w.Together final w') : w.server.Together final w'.server := by
  have executor : w'.executor = w.executor := (congrArg World.executor h.blind :).symm
  unfold World.server
  rw [executor]
  split
  · exact ⟨h, rfl, rfl, rfl⟩
  · split <;> exact ⟨h, rfl, rfl, rfl⟩

/-- An operation that goes on with what was performed begins alike. -/
theorem begin_together (h : w.Together final w') {op : Operation} (hop : op.Drives) :
    (w.begin op).Together final (w'.begin op) := by
  have transport : w'.transport = w.transport := (congrArg World.transport h.blind :).symm
  have moved (t : Transport) :
      World.Together final { w with transport := t } { w' with transport := t } :=
    h.of_eq (congrArg (fun w : World => { w with transport := t }) h.blind :) rfl rfl rfl rfl rfl
  unfold World.begin
  cases op with
  | runTasks => exact ⟨h, rfl, rfl, rfl⟩
  | refuseTasks on =>
    have refusing : (w.mapExecutor fun e => { e with refusing := on }).blind =
        (w'.mapExecutor fun e => { e with refusing := on }).blind :=
      (congrArg (World.mapExecutor · fun e => { e with refusing := on }) h.blind :)
    exact ⟨h.of_eq refusing rfl rfl rfl rfl rfl, rfl, rfl, rfl⟩
  | deferAttempts on =>
    simp only [transport]
    exact ⟨moved _, rfl, rfl, rfl⟩
  | advance ns =>
    have advanced : (w.advance ns).blind = (w'.advance ns).blind :=
      (congrArg (World.advance · ns) h.blind :)
    exact ⟨h.of_eq advanced rfl rfl rfl rfl rfl, rfl, rfl, rfl⟩
  | resolve =>
    simp only [transport]
    split
    · exact ⟨h, rfl, rfl, rfl⟩
    · exact ⟨moved _, rfl, rfl, rfl⟩
  | _ => exact hop.elim

/-- A request that cannot be performed changes nothing, and any other one is a new call. -/
theorem perform_cases (w : World) (p : Performance) (stack : List Frame) :
    ((perform w p stack).world = w ∧ ∀ i, (perform w p stack).control ≠ .run i) ∨
      ∃ r, w.requestAt? p.request = some r ∧
        perform w p stack = doing (w.openCall p).2 (.dispatch w.calls.size) stack := by
  have rests : (finished w stack).world = w ∧ ∀ i, (finished w stack).control ≠ .run i :=
    ⟨rfl, fun i hi => Control.noConfusion hi⟩
  have raises (f : Fault) : (raising w f stack).world = w ∧
      ∀ i, (raising w f stack).control ≠ .run i := ⟨rfl, fun i hi => Control.noConfusion hi⟩
  unfold perform
  split
  · exact .inl rests
  · split
    · exact .inl (raises _)
    · split
      · exact .inl (raises _)
      · next known =>
        obtain ⟨r, known⟩ := Option.ne_none_iff_exists'.1 (by simpa using known)
        exact .inr ⟨r, known, rfl⟩

/-- The first call is opened with its request and with the classifier of the network. -/
theorem opened_first {p : Performance} {r : Request} (none : w.calls.size = 0)
    (known : w.requestAt? p.request = some r) :
    (w.openCall p).2.requestOf 0 = r ∧
      (w.openCall p).2.classifierOf 0 = w.classifiers.getD w.classifier .standard := by
  have call := w.callAt_openCall p 0
  rw [if_pos none.symm] at call
  constructor
  · rw [World.requestOf, call]
    exact congrArg (Option.getD · default) known
  · rw [World.classifierOf, call]
    rfl

/-- The first call is performed together, where its request may be. -/
theorem perform_together {p : Performance} (blind : w.blind = w'.blind) (none : w.calls.size = 0)
    (unanswered : w.answers 0 = 0)
    (standard : w.classifiers.getD w.classifier .standard = .standard)
    (compared : ∀ r r', w.requestAt? p.request = some r → w'.requestAt? p.request = some r' →
      r.Loosens r' ∧ (final → r.AllowsNone)) :
    (doing w (.perform p) []).step.Together final (doing w' (.perform p) []).step := by
  have same : (perform w p []).blind = (perform w' p []).blind := by
    rw [← perform_blind, ← perform_blind, blind]
  show (perform w p []).Together final (perform w' p [])
  rcases perform_cases w p [] with ⟨world, stops⟩ | ⟨r, known, opens⟩
  · refine .of_blind same ?_ (fun c hc => ?_) ?_ ?_
    · rw [world, none]
      exact Nat.zero_le 1
    · rw [world, none] at hc
      cases hc
    · rw [world]
      exact unanswered
    · cases h : (perform w p []).control with
      | run i => exact absurd h (stops i)
      | done a => rfl
      | raised f => rfl
  · obtain ⟨r', known', opens'⟩ : ∃ r', w'.requestAt? p.request = some r' ∧
        perform w' p [] = doing (w'.openCall p).2 (.dispatch w'.calls.size) [] := by
      refine (perform_cases w' p []).resolve_left fun stops => ?_
      have control : (perform w p []).control = (perform w' p []).control :=
        (congrArg Machine.control same :)
      rw [← control, opens] at stops
      exact stops.2 _ rfl
    obtain ⟨loosens, strict⟩ := compared r r' known known'
    have none' : w'.calls.size = 0 := World.calls_of_blind blind ▸ none
    obtain ⟨request, classifier⟩ := opened_first none known
    obtain ⟨request', -⟩ := opened_first none' known'
    rw [opens, opens'] at same ⊢
    have size : (w.openCall p).2.calls.size = 1 := by simp [World.openCall, none]
    refine .of_blind same (Nat.le_of_eq size) (fun c hc => ?_) unanswered rfl
    obtain rfl : c = 0 := Nat.lt_one_iff.1 (size ▸ hc)
    exact ⟨classifier.trans standard, request.symm ▸ request'.symm ▸ loosens,
      request.symm ▸ strict⟩

end Machine

/-! ## Parting -/

namespace Network

open Machine (fail)

variable {w w' : World} {m m' : Machine} {stack : List Frame} {final : Prop}
  {rest rest' : List Thread} {past past' : List Machine} {c : Nat} {x : FailureContext}

/-- A failure that is not tried again decides the call. -/
theorem decided_fail (standard : w.classifierOf c = .standard)
    (refused : ∀ reason, (classify (w.requestOf c) x).answer ≠ .ok (.retry reason)) :
    Decided ⟨(fail w c x stack).world, (fail w c x stack).thread :: rest, past⟩ c := by
  have control : (fail w c x stack).control =
      .run (.settle c x.networkTime (classify (w.requestOf c) x).answer) := by
    rw [Machine.fail_standard standard]
    rfl
  have own := le_total (s := ⟨(fail w c x stack).world, (fail w c x stack).thread :: rest, past⟩)
    (t := (fail w c x stack).thread) (by simp) fun m => m.ending c
  have ends : ((fail w c x stack).thread.on (fail w c x stack).world).ending c = 1 :=
    (Machine.ends_of_settle control refused).2
  rw [ends] at own
  exact Nat.lt_of_lt_of_le own (Nat.le_add_left _ _)

/-- A final error is told with the second step from here. -/
theorem Driven.told_final {e : RequestError} {t : Int}
    (hd : Driven ⟨w, ⟨.run (.settle c t (.ok (.final e))), stack⟩ :: rest, past⟩) (n : Nat) :
    (Machine.run n ⟨w, .run (.settle c t (.ok (.final e))), stack⟩).world.told c =
      if n < 2 then w.told c else w.told c ++ [(w.callAt c).news c (.error e)] := by
  match n with
  | 0 => rfl
  | 1 => rfl
  | n + 2 =>
    have ready : Machine.Ready ⟨w, .run (.settle c t (.ok (.final e))), stack⟩ :=
      hd.sane.ready (t := ⟨.run (.settle c t (.ok (.final e))), stack⟩) List.mem_cons_self
    have undone := w.completedOf_eq_zero_iff.1
      (ready.undone c (by simp [Machine.inHand, Instr.hand?]))
    have told := (Machine.complete_tells (.error e) stack undone).2
    have twice : Driven ⟨(Machine.complete w c (.error e) stack).world,
        (Machine.complete w c (.error e) stack).thread :: rest, _⟩ :=
      (hd.step (m := ⟨w, .run (.settle c t (.ok (.final e))), stack⟩)).step
        (m := ⟨w, .run (.complete c (.error e)), stack⟩)
    have answered : 0 < (Machine.complete w c (.error e) stack).world.answers c := by
      rw [World.answers_eq_length, told, List.length_append]
      exact Nat.succ_pos _
    rw [if_neg (by omega), ← told]
    exact twice.told_run (Nat.lt_of_lt_of_le answered (Nat.le_add_right _ _)) n

/-- So is the error of a failure that is final. -/
theorem Driven.told_fail {e : RequestError}
    (hd : Driven ⟨(fail w c x stack).world, (fail w c x stack).thread :: rest, past⟩)
    (standard : w.classifierOf c = .standard)
    (answer : (classify (w.requestOf c) x).answer = .ok (.final e)) (n : Nat) :
    (Machine.run n (fail w c x stack)).world.told c =
      if n < 2 then w.told c else w.told c ++ [(w.callAt c).news c (.error e)] := by
  have call : (fail w c x stack).world.callAt c = w.callAt c :=
    congrArg (Array.getD · c default) (Machine.fail_world w c x stack).2.2.1
  obtain ⟨v, settles⟩ : ∃ v, fail w c x stack =
      ⟨v, .run (.settle c x.networkTime (.ok (.final e))), stack⟩ := by
    rw [Machine.fail_standard standard]
    dsimp only
    rw [answer]
    exact ⟨_, rfl⟩
  have told := Machine.told_fail w c x stack c
  rw [settles] at hd call told ⊢
  rw [hd.told_final n, call, told]

/-- Runs that have told the call the same have parted. -/
theorem parted_of_answered (hd : Driven ⟨m.world, m.thread :: rest, past⟩)
    (hd' : Driven ⟨m'.world, m'.thread :: rest', past'⟩) (answered : 0 < m.world.answers 0)
    (blind : m.world.blind = m'.world.blind) (n n' : Nat) :
    Parted final (ran rest past n m) (ran rest' past' n' m') := by
  have told := World.told_of_blind blind 0
  have answered' : 0 < m'.world.answers 0 := by
    rw [World.answers_eq_length, ← told, ← World.answers_eq_length]
    exact answered
  have more {k l : Nat} (h : 0 < k) : 0 < k + l := Nat.lt_of_lt_of_le h (Nat.le_add_right k l)
  have now : Decided ⟨m.world, m.thread :: rest, past⟩ 0 := more answered
  have now' : Decided ⟨m'.world, m'.thread :: rest', past'⟩ 0 := more answered'
  obtain ⟨decided, timeouts⟩ := now.run hd n
  obtain ⟨decided', timeouts'⟩ := now'.run hd' n'
  refine ⟨decided, ?_, fun _ => ⟨decided', ?_⟩⟩
  · show (Machine.run n m).world.timeouts 0 <+: (Machine.run n' m').world.timeouts 0
    rw [timeouts, timeouts', World.timeouts_of_blind blind]
  · show (Machine.run n m).world.told 0 = (Machine.run n' m').world.told 0
    rw [hd.told_run (more answered), hd'.told_run (more answered'), told]

/-- A failure that is not tried again in the first run parts the runs. -/
theorem parted_of_refused (h : w.Together final w') (inside : 0 < w.calls.size)
    (refused : ∀ reason, (classify (w.requestOf 0) x).answer ≠ .ok (.retry reason))
    (hd : Driven ⟨(fail w 0 x stack).world, (fail w 0 x stack).thread :: rest, past⟩)
    (hd' : Driven ⟨(fail w' 0 x stack).world, (fail w' 0 x stack).thread :: rest', past'⟩)
    (n : Nat) :
    Parted final (ran rest past n (fail w 0 x stack)) (ran rest' past' n (fail w' 0 x stack)) := by
  have classifier := (h.matched 0 inside).classifier
  have classifier' := (World.classifierOf_of_blind h.blind 0).symm.trans classifier
  obtain ⟨decided, timeouts⟩ := (decided_fail classifier refused).run hd n
  refine ⟨decided, ?_, fun none => ?_⟩
  · -- the second run may go on, and only adds to what the transport saw
    have more := (extended_run n (fail w' 0 x stack) 0).1
    rw [(Machine.fail_world w' 0 x stack).2.2.2.2.1, ← World.timeouts_of_blind h.blind] at more
    rw [(Machine.fail_world w 0 x stack).2.2.2.2.1] at timeouts
    show (Machine.run n (fail w 0 x stack)).world.timeouts 0 <+: _
    rw [timeouts]
    exact more
  · obtain ⟨e, answer, answer'⟩ := Machine.final_together h inside none x
    refine ⟨((decided_fail classifier' fun reason granted => ?_).run hd' n).1, ?_⟩
    · rw [answer'] at granted
      cases granted
    · show (Machine.run n (fail w 0 x stack)).world.told 0 =
        (Machine.run n (fail w' 0 x stack)).world.told 0
      rw [hd.told_fail classifier answer, hd'.told_fail classifier' answer',
        World.told_of_blind h.blind, World.callAt_of_blind h.blind]

/-- Machines that are together come as far as each other, or their runs part. -/
theorem together_run (h : m.Together final m')
    (hd : Driven ⟨m.world, m.thread :: rest, past⟩)
    (hd' : Driven ⟨m'.world, m'.thread :: rest', past'⟩) (n : Nat) :
    (Machine.run n m).world.Together final (Machine.run n m').world ∨
      Parted final (ran rest past n m) (ran rest' past' n m') := by
  induction n generalizing m m' past past' with
  | zero => exact .inl h.world
  | succ n ih =>
    have idle' := h.idle
    cases busy : m.isIdle with
    | true =>
      rw [World.run_of_isIdle busy, World.run_of_isIdle (idle'.trans busy)]
      exact .inl h.world
    | false =>
      have first : Machine.run (n + 1) m = Machine.run n m.step := if_neg (by simp [busy])
      have first' : Machine.run (n + 1) m' = Machine.run n m'.step :=
        if_neg (by simp [idle', busy])
      rw [ran_of_busy busy, ran_of_busy (idle'.trans busy), first, first']
      have step := hd.step
      have step' := hd'.step
      by_cases fails : ∃ c x, m.control = .run (.fail c x)
      · obtain ⟨c, x, control⟩ := fails
        obtain ⟨w, control, stack⟩ := m
        obtain ⟨w', control', stack'⟩ := m'
        obtain ⟨world, rfl, rfl, -⟩ := h
        obtain rfl : control' = .run (.fail c x) := control
        have inside : c < w.calls.size :=
          inside_of_fail (u := []) (t := ⟨.run (.fail c x), stack'⟩) hd.sane rfl
        obtain rfl := world.eq_zero inside
        by_cases granted : ∃ reason,
            (classify (w.requestOf 0) x).answer = .ok (.retry reason)
        · obtain ⟨reason, granted⟩ := granted
          exact ih (Machine.together_fail world inside granted) step step'
        · exact .inr (parted_of_refused world inside (fun reason same => granted ⟨reason, same⟩)
            step step' n)
      · rcases h.step (hd.sane.fits m.thread List.mem_cons_self)
          (hd.sane.ready (t := m.thread) List.mem_cons_self)
          (fun c x hc => fails ⟨c, x, hc⟩) with together | ⟨answered, blind⟩
        · exact ih together step step'
        · exact .inr (parted_of_answered step step' answered blind n n)

/-! ## Parted runs -/

variable {s s' : Network}

theorem Parted.left (h : Parted final s s') (hd : s.Driven) (hb : s.Begins m) (n : Nat) :
    Parted final (s.goes n m) s' := by
  obtain ⟨decided, timeouts, told⟩ := h.decided.goes hd hb n
  exact ⟨decided, timeouts ▸ h.timeouts, fun none => ⟨(h.told none).1, told ▸ (h.told none).2⟩⟩

theorem Parted.right (h : Parted final s s') (hd' : s'.Driven) (hb' : s'.Begins m) (n : Nat) :
    Parted final s (s'.goes n m) := by
  refine ⟨h.decided, h.timeouts.trans (timeouts_extended_goes hb' n 0), fun none => ?_⟩
  obtain ⟨decided', -, told'⟩ := (h.told none).1.goes hd' hb' n
  exact ⟨decided', (h.told none).2.trans told'.symm⟩

/-! ## Sessions -/

/-- Machines that come to work keep runs abreast, if they are together while the worlds are. -/
theorem Abreast.goes {n n' : Nat} (h : Abreast final s s') (hb : s.Begins m) (hb' : s'.Begins m')
    (together : s.world.Together final s'.world → m.Together final m' ∧ n' = n) :
    Abreast final (s.goes n m) (s'.goes n' m') := by
  refine ⟨h.driven.goes hb n, h.driven'.goes hb' n', ?_⟩
  rcases h.related with worlds | parted
  · obtain ⟨machines, rfl⟩ := together worlds
    have idle' := machines.idle
    cases busy : m.isIdle with
    | true =>
      rw [goes_of_idle busy, goes_of_idle (idle'.trans busy)]
      exact .inl machines.world
    | false =>
      rw [goes_of_busy busy, goes_of_busy (idle'.trans busy)]
      exact together_run machines ((h.driven.comes hb).2 busy)
        ((h.driven'.comes hb').2 (idle'.trans busy)) n'
  · exact .inr ((parted.left h.driven hb n).right h.driven' hb' n')

theorem Abreast.serve (h : Abreast final s s') :
    Abreast final (s.goes (s.world.budget 0) s.world.server)
      (s'.goes (s'.world.budget 0) s'.world.server) :=
  h.goes h.driven.begins_server h.driven'.begins_server fun worlds =>
    ⟨Machine.server_together worlds, (World.budget_of_blind worlds.blind 0).symm⟩

/-- Runs stay abreast under operations that go on with what was performed. -/
theorem Abreast.applies (h : Abreast final s s') {op : Operation} (hop : op.Drives) :
    Abreast final (s.applies op) (s'.applies op) := by
  have carried : Abreast final (s.goes (s.world.budget op.performs) (s.world.begin op))
      (s'.goes (s'.world.budget op.performs) (s'.world.begin op)) :=
    h.goes (h.driven.begins hop) (h.driven'.begins hop) fun worlds =>
      ⟨Machine.begin_together worlds hop, (World.budget_of_blind worlds.blind _).symm⟩
  exact carried.serve

theorem Abreast.applyAll (h : Abreast final s s') {ops : List Operation}
    (drives : ∀ op ∈ ops, op.Drives) :
    ∃ t t', t.world = s.world.applyAll ops ∧ t'.world = s'.world.applyAll ops ∧
      Abreast final t t' := by
  induction ops generalizing s s' with
  | nil => exact ⟨s, s', rfl, rfl, h⟩
  | cons op ops ih =>
    obtain ⟨t, t', world, world', abreast⟩ := ih (h.applies (drives op List.mem_cons_self))
      fun op hop => drives op (List.mem_cons_of_mem _ hop)
    rw [applies_world] at world world'
    exact ⟨t, t', world, world', abreast⟩

/-- The performance of the first request brings runs abreast. -/
theorem abreast_perform {p : Performance} (hd : s.Driven) (hd' : s'.Driven)
    (blind : s.world.blind = s'.world.blind)
    (first : (Machine.doing s.world (.perform p) []).step.Together final
      (Machine.doing s'.world (.perform p) []).step) :
    Abreast final (s.applies (.perform p)) (s'.applies (.perform p)) := by
  have begins := hd.begins_perform p
  have begins' := hd'.begins_perform p
  obtain ⟨n, steps⟩ : ∃ n, s.world.budget p.performs = n + 1 := by
    refine ⟨s.world.budget p.performs - 1, ?_⟩
    unfold World.budget World.stepsEach
    omega
  have steps' : s'.world.budget p.performs = n + 1 := World.budget_of_blind blind _ ▸ steps
  have carried : Abreast final
      (s.goes (s.world.budget p.performs) (Machine.doing s.world (.perform p) []))
      (s'.goes (s'.world.budget p.performs) (Machine.doing s'.world (.perform p) [])) := by
    refine ⟨hd.goes begins _, hd'.goes begins' _, ?_⟩
    rw [steps, steps', goes_of_busy rfl, goes_of_busy rfl, ran_of_busy rfl, ran_of_busy rfl]
    exact together_run first ((hd.comes begins).2 rfl).step ((hd'.comes begins').2 rfl).step n
  exact carried.serve

end Network

/-! ## What the flags decide -/

namespace World

variable {w : World}

theorem withFlags_blind (w : World) (i : Nat) (server connection : Bool) :
    (w.withFlags i server connection).blind = w.blind := by
  unfold withFlags blind
  congr 1
  refine Array.ext_getElem? fun j => ?_
  simp only [Array.getElem?_map, Array.getElem?_modify]
  split
  · cases w.requests[j]? with
    | none => rfl
    | some r => cases r <;> rfl
  · rfl

theorem withFlags_requestAt? (w : World) (i : Nat) (server connection : Bool) :
    (w.withFlags i server connection).requestAt? i =
      (w.requestAt? i).map (·.withFlags server connection) := by
  simp only [requestAt?, withFlags, Array.getElem?_modify]
  cases w.requests[i]? <;> simp

theorem Fresh.withFlags (h : w.Fresh) (i : Nat) (server connection : Bool) :
    (w.withFlags i server connection).Fresh :=
  ⟨h.calls, h.attempts, h.trace, h.queued, h.inOrder⟩

/-- Sessions that perform one request, with less and with more flags. -/
theorem Fresh.sessions (fresh : w.Fresh) (final : Prop) (waiting : w.transport.waiting = [])
    (standard : w.classifiers.getD w.classifier .standard = .standard) (p : Performance)
    {ops : List Operation} (drives : ∀ op ∈ ops, op.Drives) {s s' c c' : Bool}
    (server : s = true → s' = true) (connection : c = true → c' = true)
    (strict : final → ∀ r, w.requestAt? p.request = some r → r.AllowsNone) :
    ∃ t t', t.world = (w.withFlags p.request s c).applyAll (.perform p :: ops) ∧
      t'.world = (w.withFlags p.request s' c').applyAll (.perform p :: ops) ∧
      Network.Abreast final t t' := by
  have driven (s c : Bool) : Driven { world := w.withFlags p.request s c } := by
    refine ⟨.start _ (fresh.withFlags p.request s c), fun a ha => ?_⟩
    have none : a ∈ w.transport.waiting := ha
    rw [waiting] at none
    cases none
  have blind : (w.withFlags p.request s c).blind = (w.withFlags p.request s' c').blind := by
    rw [withFlags_blind, withFlags_blind]
  have first : (Machine.doing (w.withFlags p.request s c) (.perform p) []).step.Together final
      (Machine.doing (w.withFlags p.request s' c') (.perform p) []).step := by
    refine Machine.perform_together blind ?_ ?_ standard fun r r' known known' => ?_
    · show w.calls.size = 0
      rw [fresh.calls]
      rfl
    · show w.answers 0 = 0
      rw [answers, fresh.trace]
      rfl
    · rw [withFlags_requestAt?] at known known'
      obtain ⟨q, stored, rfl⟩ := Option.map_eq_some_iff.1 known
      obtain ⟨q', stored', rfl⟩ := Option.map_eq_some_iff.1 known'
      exact ⟨⟨server, connection⟩, fun none => strict none q stored⟩
  have abreast := Network.abreast_perform (driven s c) (driven s' c') blind first
  obtain ⟨t, t', world, world', still⟩ := abreast.applyAll drives
  rw [Network.applies_world] at world world'
  exact ⟨t, t', world, world', still⟩

/-- **What the retry flags decide.**  Requests that differ in their flags only have every failure
reported as the same error, and switching flags on makes candidates for a retry of final errors at
most.  So, whatever the transport does, a session that performs a request hands over at least the
attempts that it hands over with less flags, with the same timeouts; and if the policy of the request
allows no retry, then the result does not depend on the flags. -/
theorem Fresh.retry_flags_decide (fresh : w.Fresh) (waiting : w.transport.waiting = [])
    (standard : w.classifiers.getD w.classifier .standard = .standard) (p : Performance)
    (ops : List Operation) (drives : ∀ op ∈ ops, op.Drives) :
    (∀ (r r' : Request), r.blind = r'.blind → ∀ x : FailureContext,
      (categorize r x).error = (categorize r' x).error ∧
        (r.Loosens r' → (categorize r x).isCandidate = true →
          (categorize r' x).isCandidate = true)) ∧
    (∀ s s' c c' : Bool, (s = true → s' = true) → (c = true → c' = true) →
      ((w.withFlags p.request s c).applyAll (.perform p :: ops)).timeouts 0 <+:
        ((w.withFlags p.request s' c').applyAll (.perform p :: ops)).timeouts 0) ∧
    (∀ r b, w.requestAt? p.request = some r → r.policy = .backoff b → b.count = 0 → b.limit = 0 →
      ∀ s s' c c' : Bool,
        ((w.withFlags p.request s c).applyAll (.perform p :: ops)).told 0 =
          ((w.withFlags p.request s' c').applyAll (.perform p :: ops)).told 0) := by
  refine ⟨fun r r' same x => ⟨(error_categorize_of_blind same x).symm, fun more =>
    (categorize_loosens same more x).isCandidate⟩, fun s s' c c' server connection => ?_,
    fun r b known policy count limit s s' c c' => ?_⟩
  · obtain ⟨t, t', world, world', abreast⟩ :=
      fresh.sessions False waiting standard p drives server connection nofun
    rw [← world, ← world']
    rcases abreast.related with together | parted
    · rw [timeouts_of_blind together.blind]
    · exact parted.timeouts
  · -- with any flags the result is the one with all flags on
    have all (s c : Bool) : ((w.withFlags p.request s c).applyAll (.perform p :: ops)).told 0 =
        ((w.withFlags p.request true true).applyAll (.perform p :: ops)).told 0 := by
      obtain ⟨t, t', world, world', abreast⟩ :=
        fresh.sessions True waiting standard p drives (s := s) (c := c) (fun _ => rfl) (fun _ => rfl)
          fun _ q stored => by
            obtain rfl : r = q := Option.some.inj (known.symm.trans stored)
            exact ⟨b, policy, count, limit⟩
      rw [← world, ← world']
      rcases abreast.related with together | parted
      · exact told_of_blind together.blind 0
      · exact (parted.told trivial).2
    exact (all s c).trans (all s' c').symm

/-- A transport that fails, answers that the server is overloaded, and then brings a body. -/
def stumbling (limit : UInt32) : World where
  requests := #[some { url := text "u", method := text "GET", policy := .backoff { limit } }]
  transport := { script := [.deliver (.failure ⟨.io, text "reset"⟩),
    .deliver (.reply (.ofStream 503 [] none)),
    .deliver (.reply (.ofStream 200 [] (some (.chunked (text "ok") 1 false))))], deferred := true }

theorem stumbling_fresh (limit : UInt32) : (stumbling limit).Fresh :=
  ⟨rfl, rfl, rfl, rfl, fun e he => by cases he; rfl⟩

/-- What brings the request of `stumbling` to its end. -/
def driving : List Operation := [.resolve, .resolve, .runTasks, .resolve, .runTasks]

/-- The request is performed with these flags. -/
def stumbled (limit : UInt32) (server connection : Bool) : World :=
  ((stumbling limit).withFlags 0 server connection).applyAll (.perform ⟨0, .rest, .rest⟩ :: driving)

theorem retry_flags_decide_stumbling :
    (∀ limit, (stumbling limit).Fresh ∧ (stumbling limit).transport.waiting = [] ∧
      (stumbling limit).classifiers.getD (stumbling limit).classifier .standard = .standard) ∧
    (∀ op ∈ driving, op.Drives) ∧
    (stumbled 2 false true).timeouts 0 <+: (stumbled 2 true true).timeouts 0 ∧
    (stumbled 2 false true).timeouts 0 = [2500, 5000] ∧
    (stumbled 2 true true).timeouts 0 = [2500, 5000, 10000] ∧
    (∀ server connection, (stumbled 0 server connection).told 0 = (stumbled 0 true true).told 0) ∧
    (stumbled 0 true true).told 0 =
      [.failure 0 0 { kind := .noConnection, details := text "reset" }] := by
  have drives : ∀ op ∈ driving, op.Drives := by simp [driving, Operation.Drives]
  obtain ⟨-, more, -⟩ :=
    (stumbling_fresh 2).retry_flags_decide rfl rfl ⟨0, .rest, .rest⟩ driving drives
  obtain ⟨-, -, same⟩ :=
    (stumbling_fresh 0).retry_flags_decide rfl rfl ⟨0, .rest, .rest⟩ driving drives
  refine ⟨fun limit => ⟨stumbling_fresh limit, rfl, rfl⟩, drives,
    more false true true true (fun _ => rfl) (fun _ => rfl), by decide +kernel, by decide +kernel,
    fun server connection => ?_, by decide +kernel⟩
  exact same _ { limit := 0 } rfl rfl rfl rfl server true connection true

end World

end RequestFlow
