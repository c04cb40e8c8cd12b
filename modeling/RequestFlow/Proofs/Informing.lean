import RequestFlow.Proofs.Bodies
import RequestFlow.Proofs.Dealings

/-!
# What is logged as information

A network logs a line as information when it looks at a response whose body is complete, and at no
other step: retries, closes and faults are logged for debugging or as errors.

    a classifier says nothing as information                                   (judge_quiet)
    a step informs of the response that it looks at                            (Moves.infos)
-/

namespace RequestFlow

/-- The line of a log that is for information. -/
def Event.info? : Event → Option LogRecord
  | .log r => if r.level = .info then some r else none
  | _ => none

/-- The lines that were logged as information, in order. -/
def World.infos (w : World) : List LogRecord := w.trace.toList.filterMap Event.info?

/-- None of the records is for information. -/
def Quiet (records : List LogRecord) : Prop := ∀ r ∈ records, r.level ≠ .info

/-- What the next step logs as information. -/
def Machine.informs (m : Machine) : List LogRecord :=
  match m.control with
  | .run (.receive a status _ body) => receptionRecords m.world.config
    (m.world.requestOf (m.world.callOf a)) (m.world.elapsed a) body.length status
  | _ => []

/-! ## Records -/

theorem Quiet.append {l l' : List LogRecord} (h : Quiet l) (h' : Quiet l') : Quiet (l ++ l') :=
  fun r hr => (List.mem_append.1 hr).elim (h r) (h' r)

theorem Quiet.infos {l : List LogRecord} (h : Quiet l) :
    (l.map Event.log).filterMap Event.info? = [] := by
  rw [List.filterMap_eq_nil_iff]
  intro e he
  obtain ⟨r, hr, rfl⟩ := List.mem_map.1 he
  exact if_neg (h r hr)

theorem retry_quiet {q next : Request} {e : RequestError} {allowed : Bool} {records : List LogRecord}
    (h : q.retry e = .ok (next, allowed, records)) : Quiet records := by
  unfold Request.retry RetryPolicy.retry Backoff.retry at h
  cases policy : q.policy with
  | backoff b =>
    rw [policy] at h
    dsimp only at h
    split at h <;> cases h
    · simp [Quiet]
    · simp [Quiet]
  | failing message =>
    rw [policy] at h
    cases h

theorem settleCandidate_quiet (q : Request) (reason : RetryReason) (e : RequestError) :
    Quiet (settleCandidate q reason e).records := by
  have debug (next : Request) (marker : Bytes) : Quiet [(next.addMarker marker).2] := by
    simp [Quiet, Request.addMarker, Request.logLine]
  unfold settleCandidate
  split
  · simp [Quiet]
  · next next allowed records retried =>
    split
    · exact (retry_quiet retried).append (debug _ _)
    · exact (retry_quiet retried).append (debug _ _)

theorem receivedRecords_quiet (q : Request) (x : FailureContext) : Quiet (receivedRecords q x) := by
  unfold receivedRecords
  split <;> simp [Quiet]

/-- A classifier says nothing as information. -/
theorem judge_quiet (k : Classifier) (q : Request) (x : FailureContext) :
    Quiet (k.judge q x).1.records := by
  unfold Classifier.judge
  split
  · unfold classify
    dsimp only
    split
    · exact receivedRecords_quiet q x
    · exact (receivedRecords_quiet q x).append (settleCandidate_quiet q _ _)
  · simp [Quiet]
  · simp [Quiet]
  · simp [Quiet]

theorem closeRecords_quiet (f : Option Fault) : Quiet (closeRecords f) := by
  unfold closeRecords
  split <;> simp [Quiet]

theorem closeEvents_infos {S : Type} [ByteSource S] (stream : Nat) (s : S) :
    (closeEvents stream s).filterMap Event.info? = [] := by
  show (Event.close stream :: (closeRecords _).map Event.log).filterMap Event.info? = []
  rw [List.filterMap_cons]
  exact (closeRecords_quiet _).infos

/-- A copy logs nothing as information. -/
theorem copyBody_infos {S P : Type} [ByteSource S] [BufferPool P] (stream : Nat) (source : S)
    (length : Int) (pool : P) (size : Nat) :
    (copyBody stream source length pool size).trace.toList.filterMap Event.info? = [] := by
  obtain ⟨l, last, r, dealt⟩ := copyBody_dealt stream source length pool size
  rw [dealt.trace, List.filterMap_append, closeEvents_infos, List.append_nil,
    List.filterMap_eq_nil_iff]
  intro e he
  obtain ⟨d, -, hd⟩ := List.mem_filterMap.1 he
  rcases d with ⟨room, f | b⟩ | ⟨size, f | b⟩ | b <;> cases hd <;> rfl

/-! ## Worlds -/

namespace World

theorem infos_of_trace {w w' : World} (h : w'.trace = w.trace) : w'.infos = w.infos := by
  rw [infos, h]
  rfl

theorem infos_note (w : World) {e : Event} (h : e.info? = none) : (w.note e).infos = w.infos := by
  simp [infos, note, h]

theorem infos_addLogs (w : World) (records : List LogRecord) :
    (w.addLogs records).infos = w.infos ++ (records.map Event.log).filterMap Event.info? := by
  rw [infos, addLogs, Trace.toList_addLogs, List.filterMap_append]
  rfl

theorem infos_addQuiet (w : World) {records : List LogRecord} (h : Quiet records) :
    (w.addLogs records).infos = w.infos := by
  rw [infos_addLogs, h.infos, List.append_nil]

theorem infos_logFor (w : World) (c : Nat) {level : Level} (h : level ≠ .info) (message : Bytes) :
    (w.logFor c level message).infos = w.infos := by
  refine w.infos_note ?_
  exact if_neg h

theorem infos_closeStream (w : World) (s : Stream) : (w.closeStream s).infos = w.infos := by
  simp only [infos, closeStream, Stream.close, List.foldl_push_eq_append', Array.toList_append,
    List.filterMap_append]
  rw [closeEvents_infos, List.append_nil]

theorem infos_closeStream? (w : World) (s : Option Stream) : (w.closeStream? s).infos = w.infos := by
  cases s with
  | none => rfl
  | some s => exact w.infos_closeStream s

end World

/-! ## Steps -/

namespace Machine

variable {w : World} {stack : List Frame} {m m' : Machine}

theorem copy_infos (k : CopyTask) : (copy w k stack).world.infos = w.infos := by
  have copied := copyBody_infos k.stream.id k.stream.source k.length w.pool w.config.bodyBuffer
  have traced : (tracedEvents w (copyBody k.stream.id k.stream.source k.length w.pool
      w.config.bodyBuffer).trace).toList.filterMap Event.info? = [] := by
    rw [List.filterMap_eq_nil_iff] at copied ⊢
    intro e he
    refine copied e ?_
    unfold tracedEvents at he
    split at he
    · exact he
    · exact Array.mem_toList_iff.2 (Array.mem_filter.1 (Array.mem_toList_iff.1 he)).1
  rw [World.infos, (copy_next w k stack).1, List.filterMap_append]
  show _ ++ (tracedEvents w _).toList.filterMap _ = _
  rw [traced, List.append_nil]
  rfl

theorem deliver_infos (a : Nat) (o : Outcome Stream) : (deliver w a o stack).world.infos = w.infos := by
  have resolved : (w.resolve a).infos = w.infos := World.infos_of_trace rfl
  unfold deliver
  dsimp only
  split
  · exact (World.infos_closeStream? _ _).trans (w.infos_logFor _ (by simp) _)
  · cases o with
    | authFailure message => exact resolved
    | failure f => exact resolved
    | reply r =>
      unfold openReply
      dsimp only
      split
      · exact resolved
      · split <;> exact resolved

theorem schedule_infos (k : CopyTask) : (schedule w k stack).world.infos = w.infos := by
  have told : (w.note .submit).infos = w.infos := w.infos_note rfl
  unfold schedule
  split
  · rfl
  · dsimp only
    split
    · rfl
    · split
      · exact told
      · exact told
      · split <;> exact told
      · split <;> exact told

theorem complete_infos (c : Nat) (result : Except RequestError Response) :
    (complete w c result stack).world.infos = w.infos := by
  unfold complete
  dsimp only
  split
  · exact w.infos_logFor _ (by simp) _
  · split <;> exact World.infos_note _ rfl

/-- An instruction that looks at no response informs of nothing. -/
theorem exec_infos {i : Instr} (hr : ∀ a status headers body, i ≠ .receive a status headers body) :
    (exec w i stack).world.infos = w.infos := by
  cases i with
  | receive a status headers body => exact absurd rfl (hr a status headers body)
  | deliver a o => exact deliver_infos a o
  | schedule k => exact schedule_infos k
  | unscheduled k f => exact w.infos_logFor _ (by simp) _
  | copy k => exact copy_infos k
  | fail c x =>
    have logged : (w.logFor c .debug (text "Attempt failed (" ++ x.failure.kind.label ++
        text "): " ++ x.failure.message)).infos = w.infos := w.infos_logFor c (by simp) _
    exact (World.infos_addQuiet _ (judge_quiet _ _ _)).trans logged
  | settle c time answer =>
    simp only [exec, settle]
    split
    · exact w.infos_logFor _ (by simp) _
    · rfl
    · exact w.infos_logFor _ (by simp) _
  | complete c result => exact complete_infos c result
  | send a headers =>
    have sent : (w.note (.sent (w.callOf a) headers (w.requestOf (w.callOf a)).timeout)).infos =
      w.infos := w.infos_note rfl
    simp only [exec, send]
    split <;> exact sent
  | runQueue n =>
    simp only [exec, runQueue]
    split
    · rfl
    · next taken => exact World.infos_of_trace (World.takeTask_eq_some taken).2.2.2.1
  | serve =>
    simp only [exec, serve]
    split
    · rfl
    · next taken => exact World.infos_of_trace (World.takeTask_eq_some taken).2.2.2.1
  | perform _ | dispatch _ | begin _ | turn _ _ | react _ =>
    simp only [exec, perform, dispatch, begin, takeTurn, react]
    repeat' split
    all_goals rfl

/-- Looking at a response informs of it, if that is due. -/
theorem receive_infos (a : Nat) (status : StatusCode) (headers : List Header) (body : Bytes) :
    (receive w a status headers body stack).world.infos = w.infos ++ receptionRecords w.config
      (w.requestOf (w.callOf a)) (w.elapsed a) body.length status := by
  have logged : (w.addLogs (receptionRecords w.config (w.requestOf (w.callOf a)) (w.elapsed a)
      body.length status)).infos = w.infos ++ receptionRecords w.config
        (w.requestOf (w.callOf a)) (w.elapsed a) body.length status := by
    rw [World.infos_addLogs]
    unfold receptionRecords
    split <;> rfl
  unfold receive
  dsimp only
  split <;> exact logged

theorem resume_infos (f : Frame) : (resume w f stack).world.infos = w.infos := by
  cases f with
  | attempts c =>
    simp only [resume, nextAttempt]
    split <;> rfl
  | holding s => exact w.infos_closeStream s
  | submitting k fails => cases fails <;> rfl
  | reacting fault => cases fault <;> rfl
  | sending _ | nested | turn _ _ | answering _ | queue _ | worker => rfl

theorem unwind_infos (fault : Fault) (f : Frame) : (unwind w fault f stack).world.infos = w.infos := by
  cases f with
  | sending a =>
    simp only [unwind]
    split <;> rfl
  | holding s => exact w.infos_closeStream s
  | worker => exact w.infos_note rfl
  | attempts _ | nested | turn _ _ | submitting _ _ | reacting _ | answering _ | queue _ => rfl

/-- A step informs of the response that it looks at, if that is due, and of nothing else. -/
theorem Moves.infos (h : m.Moves m') : m'.world.infos = m.world.infos ++ m.informs := by
  cases h with
  | judge w c context answer stack => exact (List.append_nil _).symm
  | step =>
    obtain ⟨w, control, stack⟩ := m
    cases control with
    | run i =>
      by_cases looks : ∃ a status headers body, i = .receive a status headers body
      · obtain ⟨a, status, headers, body, rfl⟩ := looks
        exact receive_infos a status headers body
      · have quiet : informs ⟨w, .run i, stack⟩ = [] := by
          cases i <;> first | rfl | exact absurd ⟨_, _, _, _, rfl⟩ looks
        rw [quiet, List.append_nil]
        exact exec_infos fun a status headers body hi => looks ⟨a, status, headers, body, hi⟩
    | done x =>
      cases stack with
      | nil => exact (List.append_nil _).symm
      | cons f stack => exact (resume_infos f).trans (List.append_nil _).symm
    | raised fault =>
      cases stack with
      | nil => exact (List.append_nil _).symm
      | cons f stack => exact (unwind_infos fault f).trans (List.append_nil _).symm

end Machine

end RequestFlow
