import RequestFlow.Proofs.Latest

/-!
# What a step leaves alone

What a call was opened with stays as it is.  A request changes when a failure is classified and at no
other step, and the transport learns the timeout of a call when it is handed an attempt and at no
other step.  An outcome is only delivered for an attempt that the transport has been handed.

    a step leaves plans, requests and timeouts alone, but for these two         (Moves.leaves)
    a classified failure leaves the request of its verdict                      (fail_world)
    a turn is taken for an attempt that was handed over                         (Moves.turns)
    an attempt is resolved by an outcome, or by a fault that reaches it         (Moves.resolved)
-/

namespace RequestFlow

/-! ## What is looked at -/

/-- The timeout that the transport sees with an attempt of the call. -/
def Event.timeout? (c : Nat) : Event → Option Int
  | .sent d _ t => if d = c then some t else none
  | _ => none

/-- What a call was opened with. -/
def Call.plan (c : Call) : Call := { c with pending := 0, completed := false }

/-- An attempt is handed over next, or a decision is carried out. -/
def Control.isNext : Control → Bool
  | .run (.send ..) | .run (.settle ..) => true
  | _ => false

/-- The attempt that the instruction takes a turn for. -/
def Control.turn? : Control → Option Nat
  | .run (.turn a _) | .run (.deliver a _) => some a
  | _ => none

def Frame.turn? : Frame → Option Nat
  | .turn a _ => some a
  | _ => none

namespace World

/-- The timeouts that the transport saw with the attempts of the call, in order. -/
def timeouts (w : World) (c : Nat) : List Int := w.trace.toList.filterMap (Event.timeout? c)

/-- What every step leaves alone. -/
structure Leaves (w w' : World) : Prop where
  plan : ∀ c < w.calls.size, (w'.callAt c).plan = (w.callAt c).plan
  deferred : w'.transport.deferred = w.transport.deferred
  script : w'.transport.script <:+ w.transport.script

/-- The requests and their classifiers are left alone too, and the transport sees no timeout. -/
structure Spared (w w' : World) : Prop where
  leaves : w.Leaves w'
  requests : w'.requests = w.requests
  classifiers : w'.classifiers = w.classifiers
  timeouts : ∀ c, w'.timeouts c = w.timeouts c

end World

namespace Machine

/-- The attempts that the thread takes turns for. -/
def turns (m : Machine) : List Nat := m.control.turn?.toList ++ m.stack.filterMap Frame.turn?

/-- One if the next step hands the attempt to the transport. -/
def hands (m : Machine) (a : Nat) : Nat :=
  match m.control with
  | .run (.send b _) => if b = a then 1 else 0
  | _ => 0

end Machine

/-! ## Updates -/

theorem Call.eq_of_plan {c d : Call} (h : c.plan = d.plan) :
    c.request = d.request ∧ c.onSuccess = d.onSuccess ∧ c.onError = d.onError ∧
      c.classifier = d.classifier := by
  cases c
  cases d
  simpa [Call.plan] using h

namespace World

theorem requestAt?_setIfInBounds {w w' : World} {j : Nat} {p : Option Request}
    (h : w'.requests = w.requests.setIfInBounds j p) (i : Nat) :
    w'.requestAt? i = if j = i ∧ i < w.requests.size then p else w.requestAt? i := by
  simp only [requestAt?, h, Array.getElem?_setIfInBounds]
  by_cases hj : j = i
  · subst hj
    by_cases inside : j < w.requests.size
    · simp [inside]
    · simp [inside]
  · simp [hj]

theorem inside_of_requestAt? {w : World} {i : Nat} {p : Request} (h : w.requestAt? i = some p) :
    i < w.requests.size := by
  by_contra out
  simp [requestAt?, Array.getElem?_eq_none (Nat.not_lt.1 out)] at h

theorem timeouts_append {w w' : World} (events : List Event)
    (h : w'.trace.toList = w.trace.toList ++ events) {c : Nat}
    (none : ∀ e ∈ events, e.timeout? c = none) : w'.timeouts c = w.timeouts c := by
  unfold timeouts
  rw [h, List.filterMap_append, List.filterMap_eq_nil_iff.2 none, List.append_nil]

namespace Leaves

variable {w w' w'' : World}

theorem trans (h : w.Leaves w') (size : w.calls.size ≤ w'.calls.size) (h' : w'.Leaves w'') :
    w.Leaves w'' :=
  ⟨fun c hc => (h'.plan c (Nat.lt_of_lt_of_le hc size)).trans (h.plan c hc),
    h'.deferred.trans h.deferred, h'.script.trans h.script⟩

theorem of_eq (calls : w'.calls = w.calls) (transport : w'.transport = w.transport) :
    w.Leaves w' := by
  refine ⟨fun c _ => ?_, by rw [transport], by rw [transport]⟩
  simp only [callAt, calls]

end Leaves

namespace Spared

variable {w w' w'' : World}

theorem of_eq (calls : w'.calls = w.calls) (transport : w'.transport = w.transport)
    (requests : w'.requests = w.requests) (classifiers : w'.classifiers = w.classifiers)
    (trace : w'.trace = w.trace) : w.Spared w' :=
  ⟨.of_eq calls transport, requests, classifiers, fun c => by simp only [World.timeouts, trace]⟩

theorem refl (w : World) : w.Spared w := .of_eq rfl rfl rfl rfl rfl

theorem trans (h : w.Spared w') (calls : w.calls.size ≤ w'.calls.size) (h' : w'.Spared w'') :
    w.Spared w'' :=
  ⟨h.leaves.trans calls h'.leaves, h'.requests.trans h.requests,
    h'.classifiers.trans h.classifiers, fun c => (h'.timeouts c).trans (h.timeouts c)⟩

theorem note (w : World) {e : Event} (h : ∀ c, e.timeout? c = none) : w.Spared (w.note e) := by
  refine ⟨.of_eq rfl rfl, rfl, rfl, fun c => ?_⟩
  exact timeouts_append [e] (by simp [World.note]) (by simpa using h c)

theorem addLogs (w : World) (records : List LogRecord) : w.Spared (w.addLogs records) := by
  refine ⟨.of_eq rfl rfl, rfl, rfl, fun c => timeouts_append _ (Trace.toList_addLogs _ _) ?_⟩
  intro e he
  obtain ⟨r, -, rfl⟩ := List.mem_map.1 he
  rfl

theorem closeStream (w : World) (s : Stream) : w.Spared (w.closeStream s) := by
  refine ⟨.of_eq rfl rfl, rfl, rfl, fun c => ?_⟩
  refine timeouts_append (closeEvents s.id s.source) ?_ ?_
  · simp [World.closeStream, Stream.close, List.foldl_push_eq_append']
  · intro e he
    simp only [closeEvents, List.mem_cons, List.mem_map] at he
    rcases he with rfl | ⟨r, -, rfl⟩ <;> rfl

theorem closeStream? (w : World) (s : Option Stream) : w.Spared (w.closeStream? s) := by
  cases s with
  | none => exact .refl w
  | some s => exact .closeStream w s

theorem transport (w : World) {t : Transport} (deferred : t.deferred = w.transport.deferred)
    (script : t.script <:+ w.transport.script) : w.Spared { w with transport := t } :=
  ⟨⟨fun _ _ => rfl, deferred, script⟩, rfl, rfl, fun _ => rfl⟩

theorem openCall (w : World) (p : Performance) : w.Spared (w.openCall p).2 := by
  refine ⟨⟨fun c hc => ?_, rfl, List.suffix_rfl⟩, rfl, rfl, fun _ => rfl⟩
  rw [w.callAt_openCall p, if_neg (Nat.ne_of_lt hc)]

theorem setCall (w : World) (c : Nat) {call : Call} (h : call.plan = (w.callAt c).plan) :
    w.Spared (w.setCall c call) := by
  refine ⟨⟨fun d hd => ?_, rfl, List.suffix_rfl⟩, rfl, rfl, fun _ => rfl⟩
  by_cases hc : c < w.calls.size
  · rw [w.callAt_setCall call hc]
    split
    · next same => rw [h, same]
    · rfl
  · rw [World.setCall, Array.setIfInBounds_eq_of_size_le (Nat.not_lt.1 hc)]

end Spared

theorem script_nextTurn (t : Transport) : t.nextTurn.2.script <:+ t.script := by
  unfold Transport.nextTurn
  split
  · exact List.suffix_rfl
  · next turn rest same =>
    rw [same]
    exact List.suffix_cons turn rest

theorem deferred_nextTurn (t : Transport) : t.nextTurn.2.deferred = t.deferred := by
  unfold Transport.nextTurn
  split <;> rfl

end World

/-! ## Steps -/

namespace Machine

open World (Spared)

variable {w : World} {stack : List Frame}

/-- The classifier's verdict is what the request becomes. -/
theorem fail_world (w : World) (c : Nat) (x : FailureContext) (stack : List Frame) :
    let verdict := ((w.classifierOf c).judge (w.requestOf c) x)
    (fail w c x stack).world.requests =
        w.requests.setIfInBounds (w.callAt c).request (some verdict.1.request) ∧
      (fail w c x stack).world.classifiers =
        w.classifiers.setIfInBounds (w.callAt c).classifier verdict.2 ∧
      (fail w c x stack).world.calls = w.calls ∧
      (fail w c x stack).world.transport = w.transport ∧
      (∀ d, (fail w c x stack).world.timeouts d = w.timeouts d) ∧
      (fail w c x stack).control = .run (.settle c x.networkTime verdict.1.answer) := by
  refine ⟨rfl, rfl, rfl, rfl, fun d => ?_, rfl⟩
  unfold fail
  dsimp only
  exact ((Spared.addLogs _ _).timeouts d).trans ((Spared.note w fun _ => rfl).timeouts d)

/-- Having a failure judged tells nobody anything. -/
theorem told_fail (w : World) (c : Nat) (x : FailureContext) (stack : List Frame) (d : Nat) :
    (fail w c x stack).world.told d = w.told d := by
  have logged (record : LogRecord) : (w.note (.log record)).told d = w.told d :=
    (w.told_note _ d).trans (List.append_nil _)
  exact (World.told_addLogs _ _ d).trans (logged _)

/-- The standard classifier stays in place. -/
theorem fail_classifierOf {c : Nat} (standard : w.classifierOf c = .standard) (x : FailureContext)
    (stack : List Frame) : (fail w c x stack).world.classifierOf c = .standard := by
  have classifiers := (fail_world w c x stack).2.1
  rw [standard] at classifiers
  show (fail w c x stack).world.classifiers.getD (w.callAt c).classifier _ = _
  rw [classifiers, Array.getD_eq_getD_getElem?, Array.getElem?_setIfInBounds, if_pos rfl]
  split <;> rfl

theorem copy_spared (k : CopyTask) : w.Spared (copy w k stack).world := by
  have copied (elapsed : Int) (pool : Pool) {t : Trace}
      (h : ∀ e ∈ t, e.isCopyOf k.stream.id = true) : w.Spared { w.advance elapsed with
        pool, trace := w.trace ++ tracedEvents w t } := by
    refine ⟨.of_eq rfl rfl, rfl, rfl, fun c => World.timeouts_append _ Array.toList_append ?_⟩
    intro e he
    have := tracedEvents_events w h e (Array.mem_toList_iff.1 he)
    cases e <;> simp_all [Event.isCopyOf, Event.timeout?]
  unfold copy
  dsimp only
  split <;> exact copied _ _ (copyBody_events _ _ _ _ _)

theorem deliver_spared (a : Nat) (o : Outcome Stream) : w.Spared (deliver w a o stack).world := by
  have resolved : w.Spared (w.resolve a) := .of_eq rfl rfl rfl rfl rfl
  unfold deliver
  dsimp only
  split
  · exact (Spared.note w fun _ => rfl).trans (Nat.le_refl _) (.closeStream? _ _)
  · cases o with
    | authFailure message => exact resolved
    | failure f => exact resolved
    | reply r =>
      unfold openReply
      dsimp only
      split
      · exact resolved
      · split <;> exact resolved

theorem schedule_spared (k : CopyTask) : w.Spared (schedule w k stack).world := by
  have told : w.Spared (w.note .submit) := .note w fun _ => rfl
  have kept (e : Executor) : w.Spared ((w.note .submit).setExecutor e) :=
    told.trans (Nat.le_refl _) (.of_eq rfl rfl rfl rfl rfl)
  unfold schedule
  split
  · exact .refl w
  · dsimp only
    split
    · exact .refl w
    · split
      · exact told
      · exact told
      · split
        · exact told
        · exact kept _
      · split
        · exact told
        · exact kept _

theorem complete_spared (c : Nat) (result : Except RequestError Response) :
    w.Spared (complete w c result stack).world := by
  have marked : w.Spared (w.setCall c { w.callAt c with completed := true }) := .setCall w c rfl
  have size := w.size_setCall c { w.callAt c with completed := true }
  unfold complete
  dsimp only
  split
  · exact .note w fun _ => rfl
  · split <;> exact marked.trans (Nat.le_of_eq size.symm) (.note _ fun _ => rfl)

theorem taken_spared {w' : World} {k : CopyTask} (h : takeTask w = some (k, w')) : w.Spared w' := by
  unfold takeTask at h
  split at h
  · cases h
  · split at h
    · cases h
    · simp only [Option.some.injEq, Prod.mk.injEq] at h
      obtain ⟨-, rfl⟩ := h
      exact .of_eq rfl rfl rfl rfl rfl

/-- An instruction spares what is looked at here, unless it sends or classifies. -/
theorem exec_spared {i : Instr} (hs : ∀ a headers, i ≠ .send a headers) (hf : ∀ c x, i ≠ .fail c x) :
    w.Spared (exec w i stack).world := by
  cases i with
  | perform p =>
    simp only [exec, perform]
    split
    · exact .refl w
    · split
      · exact .refl w
      · split
        · exact .refl w
        · exact .openCall w p
  | dispatch c =>
    simp only [exec, dispatch]
    split <;> exact .setCall w c rfl
  | begin c =>
    simp only [exec, begin]
    split <;> exact .of_eq rfl rfl rfl rfl rfl
  | send a headers => exact absurd rfl (hs a headers)
  | turn a t =>
    simp only [exec, takeTurn]
    split
    · split <;> exact .of_eq rfl rfl rfl rfl rfl
    · exact .of_eq rfl rfl rfl rfl rfl
  | deliver a o => exact deliver_spared a o
  | schedule k => exact schedule_spared k
  | unscheduled k f => exact .note w fun _ => rfl
  | copy k => exact copy_spared k
  | receive a status headers body =>
    simp only [exec, receive]
    split <;> exact .addLogs w _
  | fail c x => exact absurd rfl (hf c x)
  | settle c time answer =>
    simp only [exec, settle]
    split
    · exact .note w fun _ => rfl
    · exact .refl w
    · exact .note w fun _ => rfl
  | complete c result => exact complete_spared c result
  | react r => cases r <;> exact .refl w
  | runQueue n =>
    simp only [exec, runQueue]
    split
    · exact .refl w
    · next taken => exact taken_spared taken
  | serve =>
    simp only [exec, serve]
    split
    · exact .refl w
    · next taken => exact taken_spared taken

theorem resume_spared (f : Frame) : w.Spared (resume w f stack).world := by
  cases f with
  | attempts c =>
    simp only [resume, nextAttempt]
    split <;> exact .setCall w c rfl
  | nested => exact .transport w rfl List.suffix_rfl
  | holding s => exact .closeStream w s
  | submitting k fails => cases fails <;> exact .refl w
  | reacting fault => cases fault <;> exact .refl w
  | sending _ | turn _ _ | answering _ | queue _ | worker => exact .refl w

theorem unwind_spared (fault : Fault) (f : Frame) : w.Spared (unwind w fault f stack).world := by
  cases f with
  | sending a =>
    simp only [unwind]
    split
    · exact .refl w
    · exact .of_eq rfl rfl rfl rfl rfl
  | holding s => exact .closeStream w s
  | worker => exact .note w fun _ => rfl
  | attempts _ | nested | turn _ _ | submitting _ _ | reacting _ | answering _ | queue _ =>
    exact .refl w

variable {m m' : Machine}

/-- A step spares what is looked at here, unless it sends or classifies. -/
theorem Moves.spared (h : m.Moves m') (hs : ∀ a headers, m.control ≠ .run (.send a headers))
    (hf : ∀ c x, m.control ≠ .run (.fail c x)) : m.world.Spared m'.world := by
  cases h with
  | judge w c context answer stack => exact .refl w
  | step =>
    obtain ⟨w, control, stack⟩ := m
    cases control with
    | run i =>
      exact exec_spared (fun a headers same => hs a headers (congrArg _ same))
        fun c x same => hf c x (congrArg _ same)
    | done a =>
      cases stack with
      | nil => exact .refl w
      | cons f stack => exact resume_spared f
    | raised fault =>
      cases stack with
      | nil => exact .refl w
      | cons f stack => exact unwind_spared fault f

/-- What the transport is told when it is handed an attempt. -/
theorem send_world (w : World) (a : Nat) (headers : List Header) (stack : List Frame) :
    w.Leaves (send w a headers stack).world ∧ (send w a headers stack).world.requests = w.requests ∧
      (send w a headers stack).world.classifiers = w.classifiers ∧
      ∀ c, (send w a headers stack).world.timeouts c = w.timeouts c ++
        if w.callOf a = c then [(w.requestOf c).timeout] else [] := by
  have told (w' : World) (h : w'.trace =
      (w.note (.sent (w.callOf a) headers (w.requestOf (w.callOf a)).timeout)).trace) (c : Nat) :
      w'.timeouts c = w.timeouts c ++ if w.callOf a = c then [(w.requestOf c).timeout] else [] := by
    simp only [World.timeouts, h, World.note, Array.toList_push, List.filterMap_append,
      List.filterMap_cons, List.filterMap_nil, Event.timeout?]
    by_cases same : w.callOf a = c
    · simp [same]
    · simp [same]
  unfold send
  dsimp only
  split
  · exact ⟨⟨fun _ _ => rfl, rfl, List.suffix_rfl⟩, rfl, rfl, told _ rfl⟩
  · exact ⟨⟨fun _ _ => rfl, World.deferred_nextTurn _, World.script_nextTurn _⟩, rfl, rfl,
      told _ rfl⟩

/-- Every step leaves alone what calls were opened with. -/
theorem Moves.leaves (h : m.Moves m') : m.world.Leaves m'.world := by
  by_cases hs : ∃ a headers, m.control = .run (.send a headers)
  · obtain ⟨a, headers, hc⟩ := hs
    obtain ⟨w, control, stack⟩ := m
    obtain rfl : control = .run (.send a headers) := hc
    cases h
    exact (send_world w a headers stack).1
  · by_cases hf : ∃ c x, m.control = .run (.fail c x)
    · obtain ⟨c, x, hc⟩ := hf
      obtain ⟨w, control, stack⟩ := m
      obtain rfl : control = .run (.fail c x) := hc
      cases h with
      | judge => exact .of_eq rfl rfl
      | step => exact .of_eq rfl rfl
    · exact (h.spared (fun a headers hc => hs ⟨a, headers, hc⟩) fun c x hc => hf ⟨c, x, hc⟩).leaves

/-! ## Turns and outcomes -/

/-- A thread that takes no turn with its instruction takes those of its stack. -/
theorem turns_of_none {w : World} {c : Control} (h : c.turn? = none) (stack : List Frame) :
    turns ⟨w, c, stack⟩ = stack.filterMap Frame.turn? := by
  simp [turns, h]

theorem mem_turns_of_stack {w : World} {c : Control} {a : Nat}
    (h : a ∈ stack.filterMap Frame.turn?) : a ∈ turns ⟨w, c, stack⟩ :=
  List.mem_append_right _ h

theorem openReply_turns {a b : Nat} {r : Reply Stream}
    (h : b ∈ (openReply w a r stack).turns) : b ∈ stack.filterMap Frame.turn? := by
  unfold openReply at h
  split at h
  · cases hs : r.stream <;> simpa [hs, turns, doing, Control.turn?, Frame.turn?] using h
  · split at h <;> simpa [turns, doing, Control.turn?] using h

/-- The turns of a thread are for attempts that it had turns for, or hands to the transport now. -/
theorem exec_turns {i : Instr} {b : Nat} (h : b ∈ (exec w i stack).turns) :
    b ∈ turns ⟨w, .run i, stack⟩ ∨ ∃ headers, i = .send b headers := by
  cases i with
  | send a headers =>
    simp only [exec, send] at h
    split at h
    · exact .inl (mem_turns_of_stack (by simpa [turns, finished, Control.turn?] using h))
    · rcases List.mem_append.1 h with own | below
      · obtain rfl : b = a := by simpa [doing, Control.turn?] using own
        exact .inr ⟨headers, rfl⟩
      · exact .inl (mem_turns_of_stack (by simpa [doing, Frame.turn?] using below))
  | turn a t =>
    refine .inl ?_
    simp only [exec, takeTurn] at h
    split at h
    · split at h <;>
        exact mem_turns_of_stack (by simpa [turns, finished, raising, Control.turn?] using h)
    · simpa [turns, doing, Control.turn?, Frame.turn?] using h
  | deliver a o =>
    refine .inl (mem_turns_of_stack ?_)
    simp only [exec, deliver] at h
    split at h
    · simpa [turns, finished, Control.turn?] using h
    · cases o with
      | authFailure message => simpa [turns, doing, Control.turn?] using h
      | failure f => simpa [turns, doing, Control.turn?] using h
      | reply r => exact openReply_turns h
  | perform p =>
    refine .inl (mem_turns_of_stack ?_)
    simp only [exec, perform] at h
    split at h
    · simpa [turns, finished, Control.turn?] using h
    · split at h
      · simpa [turns, raising, Control.turn?] using h
      · split at h <;> simpa [turns, raising, doing, Control.turn?] using h
  | schedule k =>
    refine .inl (mem_turns_of_stack ?_)
    simp only [exec, schedule] at h
    split at h
    · simpa [turns, doing, Control.turn?, Frame.turn?] using h
    · split at h
      · simpa [turns, doing, Control.turn?, Frame.turn?] using h
      · split at h
        · simpa [turns, doing, Control.turn?, Frame.turn?] using h
        · simpa [turns, doing, Control.turn?, Frame.turn?] using h
        · split at h <;> simpa [turns, doing, finished, Control.turn?, Frame.turn?] using h
        · split at h <;> simpa [turns, doing, finished, Control.turn?, Frame.turn?] using h
  | dispatch c | begin c | copy k | receive a status headers body | settle c time answer
  | complete c result | runQueue n | serve =>
    refine .inl (mem_turns_of_stack ?_)
    simp only [exec, dispatch, begin, copy, receive, settle, complete, runQueue, serve] at h
    repeat' split at h
    all_goals simpa [turns, doing, finished, Control.turn?, Frame.turn?] using h
  | unscheduled k f => exact .inl (mem_turns_of_stack h)
  | fail c x => exact .inl (mem_turns_of_stack h)
  | react r =>
    refine .inl (mem_turns_of_stack ?_)
    cases r <;>
      simpa [exec, react, turns, doing, finished, raising, Control.turn?, Frame.turn?] using h

theorem resume_turns {x : Answer} {f : Frame} {b : Nat} (h : b ∈ (resume w f stack).turns) :
    b ∈ turns ⟨w, .done x, f :: stack⟩ := by
  cases f with
  | turn a t => simpa [resume, turns, doing, Control.turn?, Frame.turn?] using h
  | attempts c =>
    simp only [resume, nextAttempt] at h
    split at h <;> simpa [turns, doing, finished, Control.turn?, Frame.turn?] using h
  | submitting k fails =>
    cases fails <;> simpa [resume, turns, doing, finished, Control.turn?, Frame.turn?] using h
  | reacting fault =>
    cases fault <;> simpa [resume, turns, raising, finished, Control.turn?, Frame.turn?] using h
  | sending _ | nested | holding _ | answering _ | queue _ | worker =>
    simpa [resume, turns, doing, finished, Control.turn?, Frame.turn?] using h

theorem unwind_turns {fault : Fault} {f : Frame} {b : Nat}
    (h : b ∈ (unwind w fault f stack).turns) : b ∈ turns ⟨w, .raised fault, f :: stack⟩ := by
  have below : b ∈ stack.filterMap Frame.turn? := by
    cases f with
    | sending a =>
      simp only [unwind] at h
      split at h <;> simpa [turns, doing, raising, Control.turn?] using h
    | holding _ | submitting _ _ | worker | attempts _ | nested | turn _ _ | reacting _ | answering _
    | queue _ => simpa [unwind, turns, doing, raising, Control.turn?] using h
  rw [turns_of_none rfl, List.filterMap_cons]
  split
  · exact below
  · exact List.mem_cons_of_mem _ below

/-- The turns of a thread are for attempts that it had turns for, or handed to the transport. -/
theorem Moves.turns {b : Nat} (h : m.Moves m') (hb : b ∈ m'.turns) : b ∈ m.turns ∨ m.hands b = 1 := by
  cases h with
  | judge w c context answer stack => exact .inl hb
  | step =>
    obtain ⟨w, control, stack⟩ := m
    cases control with
    | run i =>
      rcases exec_turns hb with old | ⟨headers, rfl⟩
      · exact .inl old
      · exact .inr (if_pos rfl)
    | done a =>
      cases stack with
      | nil => exact .inl hb
      | cons f stack => exact .inl (resume_turns hb)
    | raised fault =>
      cases stack with
      | nil => exact .inl hb
      | cons f stack => exact .inl (unwind_turns hb)

/-- Only an attempt that begins and an outcome change what is known of attempts. -/
theorem exec_attempts {i : Instr} (hb : ∀ c, i ≠ .begin c) (hd : ∀ a o, i ≠ .deliver a o) :
    (exec w i stack).world.attempts = w.attempts := by
  cases i with
  | begin c => exact absurd rfl (hb c)
  | deliver a o => exact absurd rfl (hd a o)
  | runQueue n =>
    simp only [exec, runQueue]
    split
    · rfl
    · next taken => exact (World.takeTask_eq_some taken).2.2.1
  | serve =>
    simp only [exec, serve]
    split
    · rfl
    · next taken => exact (World.takeTask_eq_some taken).2.2.1
  | perform _ | dispatch _ | send _ _ | turn _ _ | schedule _ | unscheduled _ _ | copy _
  | receive _ _ _ _ | fail _ _ | settle _ _ _ | complete _ _ | react _ =>
    simp only [exec, perform, dispatch, send, takeTurn, schedule, unscheduled, copy, receive, fail,
      settle, complete, react]
    repeat' split
    all_goals rfl

theorem begin_attemptAt (c : Nat) {a : Nat} (ha : a < w.attempts.size) :
    (begin w c stack).world.attemptAt a = w.attemptAt a := by
  have old : (w.openAttempt c).2.attemptAt a = w.attemptAt a := by
    rw [w.attemptAt_openAttempt, if_neg (Nat.ne_of_lt ha)]
  unfold begin
  dsimp only
  split
  · have other : ¬ ((w.openAttempt c).1 = a ∧ a < (w.openAttempt c).2.attempts.size) :=
      fun both => Nat.ne_of_gt ha both.1
    have := (w.openAttempt c).2.attemptAt_resolve (w.openAttempt c).1 a
    rw [if_neg other] at this
    exact this.trans old
  · exact old

theorem deliver_attempts (w : World) (stack : List Frame) (a : Nat) (o : Outcome Stream) :
    (deliver w a o stack).world.attempts = w.attempts ∨
      (deliver w a o stack).world.attempts = (w.resolve a).attempts := by
  unfold deliver
  dsimp only
  split
  · left
    cases o.stream? <;> rfl
  · right
    cases o with
    | authFailure message => rfl
    | failure f => rfl
    | reply r =>
      simp only [openReply]
      repeat' split
      all_goals rfl

theorem resume_attempts (f : Frame) : (resume w f stack).world.attempts = w.attempts := by
  cases f with
  | attempts c =>
    simp only [resume, nextAttempt]
    split <;> rfl
  | submitting k fails => cases fails <;> rfl
  | reacting fault => cases fault <;> rfl
  | sending _ | nested | turn _ _ | holding _ | answering _ | queue _ | worker => rfl

theorem unwind_attempts (w : World) (stack : List Frame) (fault : Fault) (f : Frame) :
    (unwind w fault f stack).world.attempts = w.attempts ∨
      ∃ a, f = .sending a ∧ (unwind w fault f stack).world.attempts = (w.resolve a).attempts := by
  cases f with
  | sending a =>
    simp only [unwind]
    split
    · exact .inl rfl
    · exact .inr ⟨a, rfl, rfl⟩
  | holding _ | submitting _ _ | worker | attempts _ | nested | turn _ _ | reacting _ | answering _
  | queue _ => exact .inl rfl

/-- A step leaves attempts alone, begins one, or resolves one. -/
theorem Moves.attempts (h : m.Moves m') :
    m'.world.attempts = m.world.attempts ∨
      (∃ c, m.control = .run (.begin c) ∧ m' = begin m.world c m.stack) ∨
      ∃ a, m'.world.attempts = (m.world.resolve a).attempts ∧
        ((∃ o, m.control = .run (.deliver a o)) ∨
          ∃ f rest, m.control = .raised f ∧ m.stack = .sending a :: rest) := by
  cases h with
  | judge w c context answer stack => exact .inl rfl
  | step =>
    obtain ⟨w, control, stack⟩ := m
    cases control with
    | run i =>
      by_cases begins : ∃ c, i = .begin c
      · obtain ⟨c, rfl⟩ := begins
        exact .inr (.inl ⟨c, rfl, rfl⟩)
      · by_cases delivers : ∃ b o, i = .deliver b o
        · obtain ⟨b, o, rfl⟩ := delivers
          rcases deliver_attempts w stack b o with hw | hw
          · exact .inl hw
          · exact .inr (.inr ⟨b, hw, .inl ⟨o, rfl⟩⟩)
        · exact .inl (exec_attempts (fun c hc => begins ⟨c, hc⟩) fun b o hb => delivers ⟨b, o, hb⟩)
    | done x =>
      cases stack with
      | nil => exact .inl rfl
      | cons f stack => exact .inl (resume_attempts f)
    | raised fault =>
      cases stack with
      | nil => exact .inl rfl
      | cons f stack =>
        rcases unwind_attempts w stack fault f with hw | ⟨b, rfl, hw⟩
        · exact .inl hw
        · exact .inr (.inr ⟨b, hw, .inr ⟨fault, stack, rfl, rfl⟩⟩)

/-- An attempt is resolved by an outcome, or by a fault that reaches it. -/
theorem Moves.resolved {a : Nat} (h : m.Moves m') (ha : a < m.world.attempts.size)
    (hr : (m.world.attemptAt a).resolved = false) (hr' : (m'.world.attemptAt a).resolved = true) :
    (∃ o, m.control = .run (.deliver a o)) ∨
      ∃ f rest, m.control = .raised f ∧ m.stack = .sending a :: rest := by
  have same (hw : m'.world.attemptAt a = m.world.attemptAt a) : False := by
    rw [hw, hr] at hr'
    cases hr'
  rcases h.attempts with hw | ⟨c, -, rfl⟩ | ⟨b, hw, cause⟩
  · exact (same (by rw [World.attemptAt, hw, World.attemptAt])).elim
  · exact (same (begin_attemptAt c ha)).elim
  · by_cases own : b = a
    · exact own ▸ cause
    · have other := m.world.attemptAt_resolve b a
      rw [if_neg fun both => own both.1] at other
      exact (same (by rw [← other, World.attemptAt, hw, World.attemptAt])).elim

/-! ## Handing over -/

theorem hands_le_one (m : Machine) (a : Nat) : m.hands a ≤ 1 := by
  unfold hands
  split
  · split <;> omega
  · omega

theorem hands_pos {m : Machine} {a : Nat} (h : m.hands a ≠ 0) :
    ∃ headers, m.control = .run (.send a headers) := by
  unfold hands at h
  split at h
  · next b headers hc =>
    split at h
    · next same =>
      subst same
      exact ⟨headers, hc⟩
    · exact absurd rfl h
  · exact absurd rfl h

theorem exec_isNext (w : World) (stack : List Frame) {i : Instr} (hb : ∀ c, i ≠ .begin c)
    (hf : ∀ c x, i ≠ .fail c x) : (exec w i stack).control.isNext = false := by
  cases i with
  | begin c => exact absurd rfl (hb c)
  | fail c x => exact absurd rfl (hf c x)
  | deliver b o =>
    simp only [exec, deliver]
    split
    · rfl
    · cases o with
      | authFailure message => rfl
      | failure f => rfl
      | reply r =>
        simp only [openReply]
        repeat' split
        all_goals rfl
  | perform _ | dispatch _ | send _ _ | turn _ _ | schedule _ | unscheduled _ _ | copy _
  | receive _ _ _ _ | settle _ _ _ | complete _ _ | react _ | runQueue _ | serve =>
    simp only [exec, perform, dispatch, send, takeTurn, schedule, unscheduled, copy, receive, settle,
      complete, react, runQueue, serve]
    repeat' split
    all_goals rfl

theorem resume_isNext (f : Frame) : (resume w f stack).control.isNext = false := by
  cases f with
  | attempts c =>
    simp only [resume, nextAttempt]
    split <;> rfl
  | submitting k fails => cases fails <;> rfl
  | reacting fault => cases fault <;> rfl
  | sending _ | nested | turn _ _ | holding _ | answering _ | queue _ | worker => rfl

theorem unwind_isNext (fault : Fault) (f : Frame) :
    (unwind w fault f stack).control.isNext = false := by
  cases f with
  | sending b =>
    simp only [unwind]
    split <;> rfl
  | holding _ | submitting _ _ | worker | attempts _ | nested | turn _ _ | reacting _ | answering _
  | queue _ => rfl

/-- What comes next after a beginning or a classification comes next after nothing else. -/
theorem Moves.isNext (h : m.Moves m') (hn : m'.control.isNext = true) :
    (∃ c, m.control = .run (.begin c)) ∨ ∃ c x, m.control = .run (.fail c x) := by
  cases h with
  | judge w c context answer stack => exact .inr ⟨c, context, rfl⟩
  | step =>
    obtain ⟨w, control, stack⟩ := m
    cases control with
    | run i =>
      by_cases begins : ∃ c, i = .begin c
      · obtain ⟨c, rfl⟩ := begins
        exact .inl ⟨c, rfl⟩
      · by_cases fails : ∃ c x, i = .fail c x
        · obtain ⟨c, x, rfl⟩ := fails
          exact .inr ⟨c, x, rfl⟩
        · have none := exec_isNext w stack (fun c hc => begins ⟨c, hc⟩)
            fun c x hc => fails ⟨c, x, hc⟩
          exact absurd (none.symm.trans hn) (by simp)
    | done x =>
      cases stack with
      | nil => cases hn
      | cons f stack => exact absurd ((resume_isNext f).symm.trans hn) (by simp)
    | raised fault =>
      cases stack with
      | nil => cases hn
      | cons f stack => exact absurd ((unwind_isNext fault f).symm.trans hn) (by simp)

/-- The attempt that a thread is about to hand over has begun just now. -/
theorem Moves.hands {a : Nat} (h : m.Moves m') (ha : m'.hands a ≠ 0) :
    a = m.world.attempts.size ∧ (m'.world.attemptAt a).resolved = false ∧
      ∃ c, m.control = .run (.begin c) := by
  obtain ⟨headers, hc⟩ := hands_pos ha
  obtain ⟨w, control, stack⟩ := m
  rcases h.isNext (by rw [hc]; rfl) with ⟨c, rfl⟩ | ⟨c, x, rfl⟩
  · cases h
    have next : (begin w c stack).hands a ≠ 0 := ha
    show _ ∧ ((begin w c stack).world.attemptAt a).resolved = false ∧ _
    unfold begin at next ⊢
    dsimp only at next ⊢
    split at next
    · exact absurd rfl next
    · have new : w.attempts.size = a := by
        by_contra other
        exact next (if_neg other)
      subst new
      refine ⟨rfl, ?_, c, rfl⟩
      show ((w.openAttempt c).2.attemptAt w.attempts.size).resolved = false
      rw [w.attemptAt_openAttempt, if_pos rfl]
  · cases h <;> exact absurd rfl ha

/-- A decision follows the failure that it is about. -/
theorem Moves.settles {c : Nat} {time : Int} {answer : Except Fault Decision} (h : m.Moves m')
    (hc : m'.control = .run (.settle c time answer)) : ∃ x, m.control = .run (.fail c x) := by
  obtain ⟨w, control, stack⟩ := m
  rcases h.isNext (by rw [hc]; rfl) with ⟨d, rfl⟩ | ⟨d, x, rfl⟩
  · cases h
    have next : (begin w d stack).control = .run (.settle c time answer) := hc
    unfold begin at next
    dsimp only at next
    split at next <;> cases next
  · cases h <;> cases hc <;> exact ⟨_, rfl⟩

end Machine

end RequestFlow
