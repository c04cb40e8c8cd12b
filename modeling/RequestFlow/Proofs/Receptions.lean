import RequestFlow.Proofs.Informing
import RequestFlow.Proofs.Requests

/-!
# Complete responses

A response is complete when it is the first outcome of its attempt and its body is there or absent, or
when its body has been copied to its end.  The next step looks at it, but at one that tells that
nothing has changed no step looks: what the call gets in its place is made up from the cache.

What there is of an attempt is in one place at a time.  An attempt without an outcome becomes a
complete response or a body, a body goes from hand to hand or waits in the queue, and ends as a
complete response.

    the next step looks at a response, unless it tells that nothing changed     (Moves.looks)
    a step takes what there is of an attempt from one place to another          (Moves.places)
-/

namespace RequestFlow

/-! ## Responses -/

/-- A response whose body is complete. -/
structure Delivered where
  attempt : Nat
  status : StatusCode
  body : Bytes
  deriving DecidableEq, Repr

/-- Something has changed. -/
def Delivered.isNews (d : Delivered) : Bool := d.status != StatusCode.notModified

/-- The body of a reply, if it is there or absent. -/
def Reply.ready? {σ : Type} (r : Reply σ) : Option Bytes :=
  match r.bytes, r.stream with
  | some body, _ => some body
  | none, none => some []
  | none, some _ => none

namespace Machine

/-- The response that the next step completes: it is the first outcome of its attempt, with a body that
is there or absent, or its body is copied to its end. -/
def completes? (m : Machine) : Option Delivered :=
  match m.control with
  | .run (.deliver a (.reply r)) =>
    if (m.world.attemptAt a).resolved then none
    else r.ready?.map fun body => ⟨a, r.status, body⟩
  | .run (.copy k) =>
    match (copyBody k.stream.id k.stream.source k.length m.world.pool
      m.world.config.bodyBuffer).body with
    | .ok body => some ⟨k.attempt, k.status, body⟩
    | .error _ => none
  | _ => none

/-- The response that the next step looks at. -/
def looks? (m : Machine) : Option Delivered :=
  match m.control with
  | .run (.receive a status _ body) => some ⟨a, status, body⟩
  | _ => none

/-- The line on a response: the lifetime of its attempt, the bytes of its body, its status, and the
retries of its request so far. -/
def line (m : Machine) (d : Delivered) : LogRecord :=
  receptionRecord (m.world.requestOf (m.world.callOf d.attempt)) (m.world.elapsed d.attempt)
    d.body.length d.status

/-- The task whose body is handed over or copied next. -/
def body? (m : Machine) : Option CopyTask :=
  match m.control with
  | .run (.schedule k) | .run (.copy k) => some k
  | _ => none

/-- One if the next step looks at such a response. -/
def looking (p : Delivered → Bool) (m : Machine) : Nat := if m.looks?.any p then 1 else 0

/-- One if the next step completes a response for the attempt. -/
def completing (m : Machine) (a : Nat) : Nat := if m.completes?.any (·.attempt == a) then 1 else 0

/-- One if the body for the attempt is handed over or copied next. -/
def bearing (m : Machine) (a : Nat) : Nat := if m.body?.any (·.attempt == a) then 1 else 0

end Machine

namespace World

/-- One for an attempt. -/
def made (w : World) (a : Nat) : Nat := if a < w.attempts.size then 1 else 0

/-- One for an attempt without an outcome. -/
def unsettled (w : World) (a : Nat) : Nat :=
  if a < w.attempts.size ∧ (w.attemptAt a).resolved = false then 1 else 0

/-- Bodies for the attempt that wait for their copies. -/
def tasksOf (w : World) (a : Nat) : Nat := w.queued.countP (·.attempt == a)

end World

/-! ## Looking at responses -/

theorem Delivered.filter_news {status : StatusCode} (h : status ≠ StatusCode.notModified) (a : Nat)
    (body : Bytes) :
    (some ⟨a, status, body⟩ : Option Delivered).filter isNews = some ⟨a, status, body⟩ := by
  simp [isNews, h]

namespace Machine

variable {w : World} {stack : List Frame} {m m' : Machine}

theorem exec_looks {i : Instr} (hd : ∀ a o, i ≠ .deliver a o) (hk : ∀ k, i ≠ .copy k) :
    (exec w i stack).looks? = none := by
  cases i with
  | deliver a o => exact absurd rfl (hd a o)
  | copy k => exact absurd rfl (hk k)
  | perform _ | dispatch _ | begin _ | send _ _ | turn _ _ | schedule _ | unscheduled _ _
  | receive _ _ _ _ | fail _ _ | settle _ _ _ | complete _ _ | react _ | runQueue _ | serve =>
    simp only [exec, perform, dispatch, begin, send, takeTurn, schedule, unscheduled, receive, fail,
      settle, complete, react, runQueue, serve]
    repeat' split
    all_goals rfl

theorem openReply_looks (a : Nat) (r : Reply Stream) :
    (openReply w a r stack).looks? =
      (r.ready?.map fun body => (⟨a, r.status, body⟩ : Delivered)).filter Delivered.isNews := by
  unfold openReply Reply.ready?
  split
  · next same =>
    have old (o : Option Bytes) : (o.map fun body => (⟨a, r.status, body⟩ : Delivered)).filter
        Delivered.isNews = none := by
      cases o <;> simp [Delivered.isNews, same]
    rw [old]
    rfl
  · next changed =>
    split
    · next body there =>
      simp only [there]
      exact (Delivered.filter_news changed a body).symm
    · next absent streamless =>
      simp only [absent, streamless]
      exact (Delivered.filter_news changed a []).symm
    · next s absent streamed =>
      simp only [absent, streamed]
      rfl

theorem deliver_looks (a : Nat) (o : Outcome Stream) :
    (deliver w a o stack).looks? =
      (completes? ⟨w, .run (.deliver a o), stack⟩).filter Delivered.isNews := by
  unfold deliver
  dsimp only
  split
  · next late =>
    cases o <;> simp [completes?, looks?, finished, late]
  · next first =>
    cases o with
    | authFailure message => rfl
    | failure f => rfl
    | reply r =>
      rw [openReply_looks]
      simp only [completes?, if_neg first]

theorem copy_looks (k : CopyTask) (changed : k.status ≠ StatusCode.notModified) :
    (copy w k stack).looks? =
      (completes? ⟨w, .run (.copy k), stack⟩).filter Delivered.isNews := by
  unfold copy completes?
  dsimp only
  split
  · next f broken =>
    rw [broken]
    rfl
  · next body whole =>
    rw [whole]
    exact (Delivered.filter_news changed k.attempt body).symm

theorem resume_looks (f : Frame) : (resume w f stack).looks? = none := by
  cases f with
  | attempts c =>
    simp only [resume, nextAttempt]
    split <;> rfl
  | submitting k fails => cases fails <;> rfl
  | reacting fault => cases fault <;> rfl
  | sending _ | nested | turn _ _ | holding _ | answering _ | queue _ | worker => rfl

theorem unwind_looks (fault : Fault) (f : Frame) : (unwind w fault f stack).looks? = none := by
  cases f with
  | sending a =>
    simp only [unwind]
    split <;> rfl
  | attempts _ | nested | turn _ _ | holding _ | submitting _ _ | reacting _ | answering _ | queue _
  | worker => rfl

/-- The next step looks at a response that a step completes, unless it says that nothing changed. -/
theorem Moves.looks (h : m.Moves m') (news : ∀ k, m.body? = some k → k.status ≠ StatusCode.notModified) :
    m'.looks? = m.completes?.filter Delivered.isNews := by
  cases h with
  | judge w c context answer stack => rfl
  | step =>
    obtain ⟨w, control, stack⟩ := m
    cases control with
    | run i =>
      by_cases delivers : ∃ a o, i = .deliver a o
      · obtain ⟨a, o, rfl⟩ := delivers
        exact deliver_looks a o
      · by_cases copies : ∃ k, i = .copy k
        · obtain ⟨k, rfl⟩ := copies
          exact copy_looks k (news k rfl)
        · have none : completes? ⟨w, .run i, stack⟩ = none := by
            cases i <;> first | rfl | exact absurd ⟨_, _, rfl⟩ delivers | exact absurd ⟨_, rfl⟩ copies
          rw [none]
          exact exec_looks (fun a o hi => delivers ⟨a, o, hi⟩) fun k hi => copies ⟨k, hi⟩
    | done x =>
      cases stack with
      | nil => rfl
      | cons f stack => exact resume_looks f
    | raised fault =>
      cases stack with
      | nil => rfl
      | cons f stack => exact unwind_looks fault f

theorem openReply_schedules {a : Nat} {r : Reply Stream} {k : CopyTask}
    (h : (openReply w a r stack).control = .run (.schedule k)) :
    k.status ≠ StatusCode.notModified := by
  unfold openReply at h
  split at h
  · cases h
  · next changed =>
    split at h <;> cases h
    exact changed

/-- A body that is handed over came with news. -/
theorem Moves.schedules_news (h : m.Moves m') {k : CopyTask} (hk : m'.control = .run (.schedule k)) :
    k.status ≠ StatusCode.notModified := by
  obtain ⟨-, o, hc⟩ := h.passes.schedules k hk
  obtain ⟨w, control, stack⟩ := m
  obtain rfl : control = .run (.deliver k.attempt o) := hc
  cases h
  have next : (deliver w k.attempt o stack).control = .run (.schedule k) := hk
  unfold deliver at next
  dsimp only at next
  split at next
  · cases next
  · cases o with
    | authFailure message => cases next
    | failure f => cases next
    | reply r => exact openReply_schedules next

end Machine

/-! ## Places of a response -/

namespace World

variable {w w' : World}

theorem unsettled_le_made (w : World) (a : Nat) : w.unsettled a ≤ w.made a := by
  unfold unsettled made
  split <;> split <;> omega

theorem made_of_size (h : w'.attempts.size = w.attempts.size) (a : Nat) : w'.made a = w.made a := by
  simp only [made, h]

theorem unsettled_of_attempts (h : w'.attempts = w.attempts) (a : Nat) :
    w'.unsettled a = w.unsettled a := by
  unfold unsettled attemptAt
  rw [h]

theorem tasksOf_of_queued (h : w'.queued = w.queued) (a : Nat) : w'.tasksOf a = w.tasksOf a := by
  unfold tasksOf
  rw [h]

theorem size_resolve (w : World) (a : Nat) : (w.resolve a).attempts.size = w.attempts.size := by
  simp [resolve]

theorem unsettled_resolve (w : World) (a b : Nat) :
    (w.resolve a).unsettled b = if a = b then 0 else w.unsettled b := by
  simp only [unsettled, w.size_resolve, w.attemptAt_resolve]
  by_cases same : a = b
  · subst same
    by_cases inside : a < w.attempts.size <;> simp [inside]
  · simp [same]

end World

namespace Machine

variable {w : World} {stack : List Frame} {m m' : Machine}

theorem completing_of_none (h : m.completes? = none) (a : Nat) : m.completing a = 0 := by
  simp [completing, h]

theorem completing_of_some {d : Delivered} (h : m.completes? = some d) (a : Nat) :
    m.completing a = if d.attempt = a then 1 else 0 := by
  simp [completing, h]

theorem bearing_of_none (h : m.body? = none) (a : Nat) : m.bearing a = 0 := by
  simp [bearing, h]

theorem bearing_of_some {k : CopyTask} (h : m.body? = some k) (a : Nat) :
    m.bearing a = if k.attempt = a then 1 else 0 := by
  simp [bearing, h]

/-- A step takes what there is of an attempt from one place to another: from an attempt without an
outcome to a body, from hand to hand, and from there to a complete response. -/
def Places (m m' : Machine) (a : Nat) : Prop :=
  m.completing a + m'.world.unsettled a + m'.world.tasksOf a + m'.bearing a + m.world.made a ≤
    m.world.unsettled a + m.world.tasksOf a + m.bearing a + m'.world.made a

/-- A step that neither completes a response nor takes a body. -/
theorem places_aside {a : Nat} (complete : m.completes? = none)
    (attempts : m'.world.attempts = m.world.attempts) (queued : m'.world.queued = m.world.queued)
    (body : m'.body? = none) : m.Places m' a := by
  rw [Places, completing_of_none complete, bearing_of_none body, World.unsettled_of_attempts attempts,
    World.tasksOf_of_queued queued, World.made_of_size (congrArg Array.size attempts)]
  omega

/-- A step that settles an attempt without a response. -/
theorem places_settled {a b : Nat} (complete : m.completes? = none)
    (attempts : m'.world.attempts = (m.world.resolve b).attempts)
    (queued : m'.world.queued = m.world.queued) (body : m'.body? = none) : m.Places m' a := by
  have made := World.made_of_size (congrArg Array.size attempts |>.trans (m.world.size_resolve b)) a
  have settled : m'.world.unsettled a ≤ m.world.unsettled a := by
    rw [World.unsettled_of_attempts attempts, World.unsettled_resolve]
    split <;> omega
  rw [Places, completing_of_none complete, bearing_of_none body, World.tasksOf_of_queued queued, made]
  omega

theorem begin_size (w : World) (c : Nat) (stack : List Frame) :
    (begin w c stack).world.attempts.size = w.attempts.size + 1 := by
  unfold begin
  dsimp only
  split
  · simp [doing, World.resolve, World.openAttempt]
  · simp [doing, World.openAttempt]

theorem begin_places (c b : Nat) : Places ⟨w, .run (.begin c), stack⟩ (begin w c stack) b := by
  have size := begin_size w c stack
  have quiet : (begin w c stack).world.queued = w.queued ∧ (begin w c stack).body? = none := by
    unfold begin
    dsimp only
    split <;> exact ⟨rfl, rfl⟩
  have unsettled : (begin w c stack).world.unsettled b + w.made b ≤
      w.unsettled b + (begin w c stack).world.made b := by
    by_cases old : b < w.attempts.size
    · simp [World.unsettled, World.made, size, begin_attemptAt c old, old, Nat.lt_succ_of_lt old]
    · have := (begin w c stack).world.unsettled_le_made b
      have : w.made b = 0 := if_neg old
      omega
  rw [Places, completing_of_none rfl, bearing_of_none quiet.2, World.tasksOf_of_queued quiet.1]
  dsimp only
  omega

theorem openReply_ready (a : Nat) {r : Reply Stream} {body : Bytes} (h : r.ready? = some body) :
    (openReply w a r stack).body? = none := by
  unfold openReply
  split
  · rfl
  · split
    · rfl
    · rfl
    · next absent streamed =>
      simp [Reply.ready?, absent, streamed] at h

theorem openReply_owner {a : Nat} {r : Reply Stream} {k : CopyTask}
    (h : (openReply w a r stack).body? = some k) : k.attempt = a := by
  unfold openReply at h
  split at h
  · cases h
  · split at h <;> cases h
    rfl

/-- The first reply for an attempt completes a response or has a body, and not both. -/
theorem reply_bears (stack : List Frame) (a : Nat) (r : Reply Stream) (first : (w.attemptAt a).resolved = false) (b : Nat) :
    completing ⟨w, .run (.deliver a (.reply r)), stack⟩ b +
      (openReply (w.resolve a) a r stack).bearing b ≤ if a = b then 1 else 0 := by
  have completes : completes? ⟨w, .run (.deliver a (.reply r)), stack⟩ =
      r.ready?.map fun body => ⟨a, r.status, body⟩ := by
    simp [completes?, first]
  cases whole : r.ready? with
  | some body =>
    rw [whole] at completes
    rw [completing_of_some completes, bearing_of_none (openReply_ready a whole)]
    exact Nat.le_refl _
  | none =>
    rw [whole] at completes
    rw [completing_of_none completes]
    cases taken : (openReply (w.resolve a) a r stack).body? with
    | none =>
      rw [bearing_of_none taken]
      exact Nat.zero_le _
    | some k =>
      rw [bearing_of_some taken, openReply_owner taken]
      omega

theorem deliver_places (a : Nat) (o : Outcome Stream) (ha : a < w.attempts.size) (b : Nat) :
    Places ⟨w, .run (.deliver a o), stack⟩ (deliver w a o stack) b := by
  unfold deliver
  dsimp only
  split
  · next late =>
    refine places_aside ?_ ?_ ?_ rfl
    · cases o <;> simp [completes?, late]
    · cases o.stream? <;> rfl
    · cases o.stream? <;> rfl
  · next open' =>
    cases o with
    | authFailure message => exact places_settled rfl rfl rfl rfl
    | failure f => exact places_settled rfl rfl rfl rfl
    | reply r =>
      have first : (w.attemptAt a).resolved = false := by simpa using open'
      have bears := reply_bears stack a r first b
      have same : (openReply (w.resolve a) a r stack).world = w.resolve a := by
        unfold openReply
        repeat' split
        all_goals rfl
      have settled := w.unsettled_resolve a b
      have made := World.made_of_size (w.size_resolve a) b
      have tasks : (w.resolve a).tasksOf b = w.tasksOf b := World.tasksOf_of_queued rfl b
      rw [Places]
      dsimp only
      rw [same, settled, made, tasks]
      split at bears
      · next own =>
        have : w.unsettled b = 1 := if_pos (own ▸ ⟨ha, first⟩)
        rw [if_pos own]
        omega
      · next other =>
        rw [if_neg other]
        omega

theorem schedule_places (k : CopyTask) (a : Nat) :
    Places ⟨w, .run (.schedule k), stack⟩ (schedule w k stack) a := by
  have idle {m : Machine} (attempts : m.world.attempts = w.attempts) (queued : m.world.queued = w.queued)
      (body : m.body? = none) : Places ⟨w, .run (.schedule k), stack⟩ m a :=
    places_aside rfl attempts queued body
  have now (fails : Bool) : Places ⟨w, .run (.schedule k), stack⟩
      (doing (w.note .submit) (.copy k) (.submitting k fails :: stack)) a := by
    rw [Places, completing_of_none rfl, Nat.zero_add]
    exact Nat.le_refl _
  have later {e : Executor} (he : w.executor = some e) {m : Machine}
      (hw : m.world = (w.note .submit).setExecutor (e.enqueue k)) (hb : m.body? = none) :
      Places ⟨w, .run (.schedule k), stack⟩ m a := by
    have queued : m.world.queued = w.queued ++ [k] := by
      rw [hw]
      simp [World.queued, he, World.setExecutor, Executor.enqueue]
    have tasks : m.world.tasksOf a = w.tasksOf a + if k.attempt = a then 1 else 0 := by
      simp [World.tasksOf, queued]
    have attempts : m.world.attempts = w.attempts := by rw [hw]; rfl
    rw [Places, completing_of_none rfl, bearing_of_none hb, bearing_of_some rfl, tasks,
      World.unsettled_of_attempts attempts, World.made_of_size (congrArg Array.size attempts)]
    dsimp only
    omega
  unfold schedule
  split
  · exact idle rfl rfl rfl
  · next e he =>
    dsimp only
    split
    · exact idle rfl rfl rfl
    · split
      · exact now false
      · exact now true
      · split
        · exact idle rfl rfl rfl
        · exact later he rfl rfl
      · split
        · exact idle rfl rfl rfl
        · exact later he rfl rfl

theorem copy_owner {k : CopyTask} {d : Delivered}
    (h : completes? ⟨w, .run (.copy k), stack⟩ = some d) : d.attempt = k.attempt := by
  unfold completes? at h
  dsimp only at h
  split at h <;> cases h
  rfl

theorem copy_places (k : CopyTask) (a : Nat) :
    Places ⟨w, .run (.copy k), stack⟩ (copy w k stack) a := by
  obtain ⟨-, queued, -, next⟩ := copy_next w k stack
  have body : (copy w k stack).body? = none := by
    rcases next with ⟨b, next⟩ | ⟨x, next⟩ <;> simp [body?, next]
  have attempts : (copy w k stack).world.attempts = w.attempts := by
    unfold copy
    dsimp only
    split <;> rfl
  have completes : completing ⟨w, .run (.copy k), stack⟩ a ≤ if k.attempt = a then 1 else 0 := by
    cases whole : completes? ⟨w, .run (.copy k), stack⟩ with
    | none =>
      rw [completing_of_none whole]
      exact Nat.zero_le _
    | some d => rw [completing_of_some whole, copy_owner whole]
  rw [Places, bearing_of_none body, bearing_of_some rfl, World.unsettled_of_attempts attempts,
    World.tasksOf_of_queued queued, World.made_of_size (congrArg Array.size attempts)]
  dsimp only
  omega

theorem taken_places {i : Instr} {w' : World} {k : CopyTask} {f : Frame}
    (complete : completes? ⟨w, .run i, stack⟩ = none) (h : takeTask w = some (k, w')) (a : Nat) :
    Places ⟨w, .run i, stack⟩ (doing w' (.copy k) (f :: stack)) a := by
  obtain ⟨queued, -, attempts, -⟩ := World.takeTask_eq_some h
  have tasks : w.tasksOf a = w'.tasksOf a + if k.attempt = a then 1 else 0 := by
    simp [World.tasksOf, queued, List.countP_cons]
  rw [Places, completing_of_none complete, bearing_of_some (m := doing w' _ _) rfl]
  show 0 + w'.unsettled a + w'.tasksOf a + _ + w.made a ≤ w.unsettled a + w.tasksOf a + _ + w'.made a
  rw [World.unsettled_of_attempts attempts, World.made_of_size (congrArg Array.size attempts), tasks]
  omega

theorem exec_places {i : Instr} (ha : ∀ a o, i = .deliver a o → a < w.attempts.size) (b : Nat) :
    Places ⟨w, .run i, stack⟩ (exec w i stack) b := by
  cases i with
  | begin c => exact begin_places c b
  | deliver a o => exact deliver_places a o (ha a o rfl) b
  | schedule k => exact schedule_places k b
  | copy k => exact copy_places k b
  | runQueue n =>
    simp only [exec, runQueue]
    split
    · exact places_aside rfl rfl rfl rfl
    · next taken => exact taken_places rfl taken b
  | serve =>
    simp only [exec, serve]
    split
    · exact places_aside rfl rfl rfl rfl
    · next taken => exact taken_places rfl taken b
  | perform _ | dispatch _ | send _ _ | turn _ _ | unscheduled _ _ | receive _ _ _ _ | fail _ _
  | settle _ _ _ | complete _ _ | react _ =>
    simp only [exec, perform, dispatch, send, takeTurn, unscheduled, receive, fail, settle, complete,
      react]
    repeat' split
    all_goals exact places_aside rfl rfl rfl rfl

theorem resume_places (x : Answer) (f : Frame) (b : Nat) :
    Places ⟨w, .done x, f :: stack⟩ (resume w f stack) b := by
  cases f with
  | attempts c =>
    simp only [resume, nextAttempt]
    split <;> exact places_aside rfl rfl rfl rfl
  | submitting k fails => cases fails <;> exact places_aside rfl rfl rfl rfl
  | reacting fault => cases fault <;> exact places_aside rfl rfl rfl rfl
  | sending _ | nested | turn _ _ | holding _ | answering _ | queue _ | worker =>
    exact places_aside rfl rfl rfl rfl

theorem unwind_places (fault : Fault) (f : Frame) (b : Nat) :
    Places ⟨w, .raised fault, f :: stack⟩ (unwind w fault f stack) b := by
  cases f with
  | sending a =>
    simp only [unwind]
    split
    · exact places_aside rfl rfl rfl rfl
    · exact places_settled rfl rfl rfl rfl
  | attempts _ | nested | turn _ _ | holding _ | submitting _ _ | reacting _ | answering _ | queue _
  | worker => exact places_aside rfl rfl rfl rfl

/-- An attempt is resolved once, its body is handed on from hand to hand, and copied once. -/
theorem Moves.places (h : m.Moves m') (ha : ∀ a ∈ m.turns, a < m.world.attempts.size) (b : Nat) :
    m.Places m' b := by
  cases h with
  | judge w c context answer stack => exact places_aside rfl rfl rfl rfl
  | step =>
    obtain ⟨w, control, stack⟩ := m
    cases control with
    | run i =>
      refine exec_places (fun a o hi => ha a ?_) b
      subst hi
      exact List.mem_append_left _ (by simp [Control.turn?])
    | done x =>
      cases stack with
      | nil => exact places_aside rfl rfl rfl rfl
      | cons f stack => exact resume_places x f b
    | raised fault =>
      cases stack with
      | nil => exact places_aside rfl rfl rfl rfl
      | cons f stack => exact unwind_places fault f b

theorem Moves.attempts_size (h : m.Moves m') :
    m.world.attempts.size ≤ m'.world.attempts.size := by
  rcases h.attempts with hw | ⟨c, -, rfl⟩ | ⟨a, hw, -⟩
  · rw [hw]
  · rw [begin_size]
    exact Nat.le_succ _
  · rw [hw, m.world.size_resolve]

/-- What a thread is about to hand over to the transport is an attempt. -/
theorem Moves.hands_inside (h : m.Moves m') {a : Nat} (ha : m'.hands a ≠ 0) :
    a < m'.world.attempts.size := by
  obtain ⟨rfl, -, c, hc⟩ := h.hands ha
  obtain ⟨w, control, stack⟩ := m
  obtain rfl : control = .run (.begin c) := hc
  cases h
  exact Nat.lt_of_lt_of_eq (Nat.lt_succ_self _) (begin_size w c stack).symm

theorem informs_of_logAll (m : Machine) (all : m.world.config.logAll = true) :
    m.informs = (m.looks?.map m.line).toList := by
  obtain ⟨w, control, stack⟩ := m
  cases control with
  | run i =>
    cases i with
    | receive a status headers body => exact if_pos (by simp [show w.config.logAll = true from all])
    | _ => rfl
  | done x => rfl
  | raised fault => rfl

end Machine

end RequestFlow
