import RequestFlow.Proofs.Standing

/-!
# Every step follows the plain loop

A step of a machine brings the call to the same end of the plain loop as before, and it takes one
step off the bound.  There is one lemma for each instruction that has the call in hand.

    m.Follows c i e (n + 1), m not at rest → m.step.Follows c i e n              (Follows.step)
-/

namespace RequestFlow

open PlainLoop (after conclusion)

namespace Machine

variable {w : World} {c i n : Nat} {stack : List Frame}

theorem Follows.mono {m : Machine} {e : Option Ending} {n' : Nat} (h : Follows c i m e n)
    (hn : n ≤ n') : Follows c i m e n' := by
  cases h with
  | early hs hu hb hx ht => exact .early hs hu hb hx (Nat.le_trans ht hn)
  | ending hs hu hx ht => exact .ending hs hu hx (Nat.le_trans ht hn)
  | aside hs hw hx ht => exact .aside hs hw hx (Nat.le_trans ht hn)

/-! ## Attempts -/

theorem dispatch_follows (hs : w.Stands c i stack 0) (hu : w.Unanswered c [] [])
    (hb : w.Bounded i) (hn : w.spare i + 23 + stackCost stack ≤ n + 1) :
    Follows c i (dispatch w c stack) (w.plain i).run n := by
  have hosts := hs.hosts.setCall (w.callAt c).register.2 rfl rfl rfl rfl
  have call := w.callAt_setCall (w.callAt c).register.2 hs.hosts.inside c
  rw [if_pos rfl] at call
  have unanswered : (w.setCall c (w.callAt c).register.2).Unanswered c [] [] :=
    ⟨hu.waiting, hu.queued, by rw [call]; exact hu.completed, hu.told⟩
  have before : (w.callAt c).pending = loopsIn c stack := hs.pending
  have pending : (w.setCall c (w.callAt c).register.2).pendingOf c = loopsIn c stack + 1 := by
    rw [World.pendingOf, call, ← before]
    rfl
  simp only [dispatch]
  by_cases first : (w.callAt c).pending = 0
  · rw [if_pos (by simp [Call.register, first])]
    have loops : loopsIn c (.attempts c :: stack) = loopsIn c stack + 1 := by
      simp [loopsIn, Frame.isLoopOf]
    refine .early ⟨hosts, ?_, ?_, Nat.zero_le _, ?_⟩ unanswered hb .begin ?_
    · rintro f (_ | ⟨_, hf⟩)
      · rfl
      · exact hs.frames f hf
    · rw [loops]
      omega
    · rw [pending, loops]
    · show w.spare i + 21 + (1 + stackCost stack) ≤ n
      omega
  · rw [if_neg (by simpa [Call.register] using first)]
    refine .aside ⟨hosts, hs.frames, hs.once, ?_, pending⟩ (.registered unanswered hb) (.done _) ?_
    · omega
    · show w.spare i + 22 + 0 + stackCost stack ≤ n
      omega

theorem begin_follows (hs : w.Stands c i stack 0) (hu : w.Unanswered c [] [])
    (hb : w.Bounded i) (hn : w.spare i + 21 + stackCost stack ≤ n + 1) :
    Follows c i (begin w c stack) (w.plain i).run n := by
  have opened := World.Alike.openAttempt (c := c) w c
  have start : (w.openAttempt c).2.attemptAt w.attempts.size = ⟨c, w.clock, false⟩ := by
    rw [World.attemptAt_openAttempt, if_pos rfl]
  rw [PlainLoop.run_eq hb, PlainLoop.attempt]
  simp only [begin]
  have request : (w.openAttempt c).2.requestOf c = (w.plain i).request := hs.hosts.requestOf
  rw [request]
  cases CacheEntry.conditionalHeaders (w.plain i).request.cache with
  | error f =>
    have alike := opened.trans (.resolve _ w.attempts.size)
    have time : ((w.openAttempt c).2.resolve w.attempts.size).elapsed w.attempts.size =
        (w.plain i).elapsed (w.plain i).clock := by
      show (w.clock - World.startOf ((w.openAttempt c).2.resolve w.attempts.size) _).tdiv _ = _
      rw [World.startOf_resolve, World.startOf, start]
      rfl
    simp only [World.openAttempt] at time ⊢
    rw [time]
    refine .early (alike.stands hs) (alike.unanswered hu) (alike.bounded hb) (.fail _) ?_
    show w.spare i + 4 + stackCost stack ≤ n
    omega
  | ok headers =>
    have isOpen : (w.openAttempt c).2.IsOpen c w.attempts.size :=
      ⟨by simp [World.openAttempt], by rw [World.callOf, start], by rw [start]⟩
    have leads := Instr.Leads.send (i := i) headers isOpen
    rw [World.startOf, start] at leads
    refine .early ((opened.stands hs).push trivial rfl) (opened.unanswered hu)
      (opened.bounded hb) leads ?_
    show w.spare i + 19 + (1 + stackCost stack) ≤ n
    omega

theorem turn_follows {a : Nat} (d : Delivery) (ha : w.IsOpen c a) (hs : w.Stands c i stack 0)
    (hu : w.Unanswered c [] []) (hb : w.Bounded i)
    (hn : w.spare i + 16 + stackCost stack ≤ n + 1) :
    Follows c i (takeTurn w a { deliveries := [d] } stack)
      (after ((w.plain i).take (w.startOf a) d)) n := by
  simp only [takeTurn, PlainLoop.take]
  have streams : (w.plain i).streams = w.streams := rfl
  rw [streams]
  obtain ⟨outcome, next⟩ := d.outcome.number w.streams
  have alike : w.Alike { w.advance d.delay with streams := next } c := ⟨rfl, rfl, rfl, rfl, rfl, rfl⟩
  refine .early ((alike.stands hs).push rfl rfl) (alike.unanswered hu) (alike.bounded hb)
    (.deliver outcome ⟨ha.inside, ha.call, ha.unresolved⟩) ?_
  show w.spare i + 13 + (2 + stackCost stack) ≤ n
  omega

/-- The next step of a script, with the transport as it is left. -/
theorem nextTurn_follows {a : Nat} (t : Transport) (rest : List Frame)
    (hs : { w with transport := t }.Stands c i rest 0)
    (hu : { w with transport := t }.Unanswered c [] []) (hb : w.Bounded i) (ha : w.IsOpen c a)
    (hn : w.spare i + 16 + stackCost rest ≤ n) :
    Follows c i (doing { w with transport := t.nextTurn.2 } (.turn a t.nextTurn.1) rest)
      (after (({ w with transport := t }.plain i).answer (w.startOf a))) n := by
  unfold PlainLoop.answer Transport.nextTurn
  cases script : t.script with
  | nil =>
    have none : ({ w with transport := t }.plain i).script = [] := by
      simp [World.plain, script]
    rw [none]
    exact .early hs hu hb (.turn PlainLoop.noStepLeft ⟨ha.inside, ha.call, ha.unresolved⟩) hn
  | cons turn turns =>
    obtain ⟨d, rfl⟩ := hs.hosts.script turn (by simp [script])
    have some : ({ w with transport := t }.plain i).script = d :: turns.flatMap Turn.deliveries := by
      simp [World.plain, script]
    rw [some]
    have hosts := hs.hosts
    refine .early (w := { w with transport := { t with script := turns } }) ⟨⟨hosts.inside,
      hosts.request, hosts.onSuccess, hosts.onError, hosts.classifier, hosts.known, hosts.executor,
      fun u hu => hosts.script u ?_⟩, hs.frames, hs.once, hs.joined, hs.pending⟩
      ⟨hu.waiting, hu.queued, hu.completed, hu.told⟩ hb
      (.turn d ⟨ha.inside, ha.call, ha.unresolved⟩) hn
    show u ∈ t.script
    rw [script]
    exact List.mem_cons_of_mem _ hu

theorem send_follows {a : Nat} (headers : List Header) (ha : w.IsOpen c a)
    (hs : w.Stands c i stack 0) (hu : w.Unanswered c [] []) (hb : w.Bounded i)
    (hn : w.spare i + 19 + stackCost stack ≤ n + 1) :
    Follows c i (send w a headers stack)
      (after (((w.plain i).noteSent headers).answer (w.startOf a))) n := by
  simp only [send, ha.call, hs.hosts.requestOf]
  have alike : w.Alike (w.note (.sent c headers (w.plain i).request.timeout)) c := .note w rfl
  have told := (alike.unanswered hu).told
  have stands (t : Transport) (ht : t.script = w.transport.script) :
      { w.note (.sent c headers (w.plain i).request.timeout) with transport := t }.Stands
        c i stack 0 :=
    hs.of_hosts (hs.hosts.of_eq rfl rfl rfl rfl ht) rfl
  have isOpen (t : Transport) : { w.note (.sent c headers (w.plain i).request.timeout) with
      transport := t }.IsOpen c a :=
    ⟨ha.inside, ha.call, ha.unresolved⟩
  split
  · refine .aside (stands _ rfl)
      (.waiting ⟨?_, hu.queued, hu.completed, told⟩ hb (isOpen _)) (.done _) ?_
    · show w.transport.waiting ++ [a] = [a]
      rw [hu.waiting, List.nil_append]
    · show w.spare i + 18 + 0 + stackCost stack ≤ n
      omega
  · have nested := (stands (w.transport.noteSent headers (w.plain i).request.timeout).enter rfl).push
      (f := .nested) trivial rfl
    refine nextTurn_follows _ _ nested ⟨hu.waiting, hu.queued, hu.completed, told⟩ hb (isOpen _) ?_
    show w.spare i + 16 + (1 + stackCost stack) ≤ n
    omega

/-! ## Outcomes -/

theorem reply_follows {a : Nat} (r : Reply Stream) (ha : w.callOf a = c)
    (hs : w.Stands c i stack 0) (hu : w.Unanswered c [] []) (hb : w.Bounded i)
    (hn : w.spare i + 13 + stackCost stack ≤ n + 1) :
    Follows c i (openReply w a r stack) (after ((w.plain i).reply (w.startOf a) r)) n := by
  simp only [openReply, ha, hs.hosts.requestOf, PlainLoop.reply]
  by_cases fresh : r.status = StatusCode.notModified
  · rw [if_pos fresh, if_pos fresh]
    cases r.stream with
    | none =>
      refine .ending hs hu (.complete _) ?_
      show 2 + stackCost stack ≤ n
      omega
    | some s =>
      refine .ending (hs.push (f := .holding s) trivial rfl) hu (.complete _) ?_
      show 2 + (1 + stackCost stack) ≤ n
      omega
  · rw [if_neg fresh, if_neg fresh]
    have received (body : Bytes) : Follows c i (doing w (.receive a r.status r.headers body) stack)
        (after ((w.plain i).receive (w.startOf a) r.status r.headers body)) n :=
      .early hs hu hb (.receive r.status r.headers body ha) (by omega)
    cases r.bytes with
    | some body => exact received body
    | none =>
      cases r.stream with
      | none => exact received []
      | some s =>
        exact .early hs hu hb (.schedule ⟨a, r.status, r.headers, s, r.length⟩ ha) (by omega)

theorem deliver_follows {a : Nat} (o : Outcome Stream) (ha : w.IsOpen c a)
    (hs : w.Stands c i stack 0) (hu : w.Unanswered c [] []) (hb : w.Bounded i)
    (hn : w.spare i + 13 + stackCost stack ≤ n + 1) :
    Follows c i (deliver w a o stack) (after ((w.plain i).outcome (w.startOf a) o)) n := by
  have alike : w.Alike (w.resolve a) c := .resolve w a
  have stands := alike.stands hs
  have unanswered := alike.unanswered hu
  have start := w.startOf_resolve a a
  have time : (w.resolve a).elapsed a = (w.plain i).elapsed (w.startOf a) := by
    rw [← start]
    rfl
  simp only [deliver, ha.unresolved, ha.call, Bool.false_eq_true, if_false]
  cases o with
  | authFailure message =>
    rw [time]
    refine .ending stands unanswered (.complete _) ?_
    omega
  | failure f =>
    rw [time]
    refine .early stands unanswered (alike.bounded hb) (.fail _) ?_
    show w.spare i + 4 + stackCost stack ≤ n
    omega
  | reply r =>
    have followed := reply_follows (n := n) r (by rw [World.callOf_resolve, ha.call]) stands
      unanswered (alike.bounded hb) hn
    rwa [start] at followed

/-! ## Bodies -/

theorem schedule_follows {k : CopyTask} (hk : w.callOf k.attempt = c)
    (hs : w.Stands c i stack 0) (hu : w.Unanswered c [] []) (hb : w.Bounded i)
    (hn : w.spare i + 12 + stackCost stack ≤ n + 1) :
    Follows c i (schedule w k stack)
      (after ((w.plain i).fetch (w.startOf k.attempt) k.status k.headers k.stream k.length)) n := by
  obtain ⟨e, executor, alive, mode⟩ := hs.hosts.executor
  have alike : w.Alike (w.note .submit) c := .note w rfl
  have stands := alike.stands hs
  have unanswered := alike.unanswered hu
  simp only [schedule, executor, alive, mode, PlainLoop.fetch, World.refusing_plain executor,
    Bool.not_true, Bool.false_eq_true, if_false]
  by_cases refusing : e.refusing = true
  · rw [if_pos refusing, if_pos refusing]
    refine .early (stands.push trivial rfl) unanswered hb (.unscheduled k .executorRefuses hk) ?_
    show w.spare i + 5 + (1 + stackCost stack) ≤ n
    omega
  · rw [if_neg refusing, if_neg refusing]
    have plain : ((w.note .submit).setExecutor (e.enqueue k)).plain i = w.plain i :=
      World.plain_setExecutor executor rfl i
    have queued : ((w.note .submit).setExecutor (e.enqueue k)).queued = [k] := by
      have none : e.queue = [] := by rw [← hu.queued, World.queued_of_executor executor]
      rw [World.queued_setExecutor]
      simp [Executor.enqueue, none]
    have awaits := World.Awaits.queued (w := (w.note .submit).setExecutor (e.enqueue k)) (i := i)
      ⟨hu.waiting, queued, hu.completed, unanswered.told⟩ (by rwa [World.Bounded, plain]) hk
    rw [World.spare, plain] at awaits
    refine .aside (stands.of_hosts (stands.hosts.setExecutor alive mode) rfl) awaits (.done _) ?_
    show w.spare i + 11 + 0 + stackCost stack ≤ n
    omega

theorem unscheduled_follows {k : CopyTask} (f : Fault) (hk : w.callOf k.attempt = c)
    (hs : w.Stands c i stack 0) (hu : w.Unanswered c [] []) (hb : w.Bounded i)
    (hn : w.spare i + 5 + stackCost stack ≤ n + 1) :
    Follows c i (unscheduled w k f stack)
      (after ((w.plain i).unread (w.startOf k.attempt) k.status k.headers f)) n := by
  have alike : w.Alike (w.logFor c .error (text "Unable to schedule body copy: " ++ f.message)) c :=
    .note w rfl
  simp only [unscheduled, hk]
  refine .early (alike.stands hs) (alike.unanswered hu) hb (.fail (bodyContext _ k f)) ?_
  show w.spare i + 4 + stackCost stack ≤ n
  omega

theorem copy_follows {k : CopyTask} (hk : w.callOf k.attempt = c)
    (hs : w.Stands c i stack 0) (hu : w.Unanswered c [] []) (hb : w.Bounded i)
    (hn : w.spare i + 6 + stackCost stack ≤ n + 1) :
    Follows c i (copy w k stack)
      (after ((w.plain i).copy (w.startOf k.attempt) k.status k.headers k.stream k.length)) n := by
  have events := copyBody_events k.stream.id k.stream.source k.length w.pool w.config.bodyBuffer
  have pool : (w.plain i).pool = w.pool := rfl
  have size : (w.plain i).bodyBuffer = w.config.bodyBuffer := rfl
  simp only [copy, PlainLoop.copy, pool, size]
  generalize copyBody k.stream.id k.stream.source k.length w.pool w.config.bodyBuffer = copied
    at events ⊢
  have traced := tracedEvents_events w events
  have alike : w.Alike { w.advance copied.elapsed with
      pool := copied.pool, trace := w.trace ++ tracedEvents w copied.trace } c :=
    ⟨rfl, rfl, rfl, rfl, rfl, told_append traced w.trace c⟩
  have stands := alike.stands hs
  have unanswered := alike.unanswered hu
  have call : World.callOf { w.advance copied.elapsed with
      pool := copied.pool, trace := w.trace ++ tracedEvents w copied.trace } k.attempt = c := hk
  rw [call]
  cases copied.body with
  | error f =>
    refine .early stands unanswered hb (.fail (bodyContext _ k f)) ?_
    show w.spare i + 4 + stackCost stack ≤ n
    omega
  | ok body =>
    refine .early stands unanswered hb (.receive k.status k.headers body hk) ?_
    show w.spare i + 5 + stackCost stack ≤ n
    omega

theorem receive_follows {a : Nat} (status : StatusCode) (headers : List Header) (body : Bytes)
    (ha : w.callOf a = c) (hs : w.Stands c i stack 0) (hu : w.Unanswered c [] [])
    (hb : w.Bounded i) (hn : w.spare i + 5 + stackCost stack ≤ n + 1) :
    Follows c i (receive w a status headers body stack)
      (after ((w.plain i).receive (w.startOf a) status headers body)) n := by
  have time : w.elapsed a = (w.plain i).elapsed (w.startOf a) := rfl
  simp only [receive, PlainLoop.receive, ha, ← time]
  have alike (records : List LogRecord) : w.Alike (w.addLogs records) c := .addLogs w records
  cases RequestFlow.receive status headers body (w.elapsed a) with
  | delivered response =>
    refine .ending ((alike _).stands hs) ((alike _).unanswered hu) (.complete _) ?_
    omega
  | failed context =>
    refine .early ((alike _).stands hs) ((alike _).unanswered hu) hb (.fail context) ?_
    show w.spare i + 4 + stackCost stack ≤ n
    omega

/-! ## Failures -/

theorem fail_follows (context : FailureContext) (hs : w.Stands c i stack 0)
    (hu : w.Unanswered c [] []) (hb : w.Bounded i)
    (hn : w.spare i + 4 + stackCost stack ≤ n + 1) :
    Follows c i (fail w c context stack) (after (.failed context, w.plain i)) n := by
  unfold fail
  generalize text "Attempt failed (" ++ context.failure.kind.label ++ text "): " ++
    context.failure.message = message
  have logged : w.Alike (w.logFor c .debug message) c := .note w rfl
  have classifier : (w.logFor c .debug message).classifierOf c = .standard :=
    (logged.stands hs).hosts.classifier
  have request : (w.logFor c .debug message).requestOf c = (w.plain i).request :=
    (logged.stands hs).hosts.requestOf
  simp only [classifier, request, Classifier.judge, after]
  have retried {reason : RetryReason}
      (h : (classify (w.plain i).request context).answer = .ok (.retry reason)) :=
    classify_retry hb h
  generalize classify (w.plain i).request context = verdict at retried ⊢
  have told := (logged.unanswered hu).told
  have judged := hs.of_hosts ((logged.stands hs).hosts.setRequest verdict.request).setClassifier rfl
  have plain := World.plain_setRequest (logged.stands hs).hosts verdict.request
  have recorded := World.Alike.addLogs (c := c)
    (((w.logFor c .debug message).setRequest c verdict.request).setClassifier c .standard)
    verdict.records
  have stands := recorded.stands judged
  have unanswered := recorded.unanswered ⟨hu.waiting, hu.queued, hu.completed, told⟩
  have after_plain : ((((w.logFor c .debug message).setRequest c verdict.request).setClassifier c
      .standard).addLogs verdict.records).plain i =
        { w.plain i with request := verdict.request } := plain
  rw [← after_plain]
  generalize (((w.logFor c .debug message).setRequest c verdict.request).setClassifier c
    .standard).addLogs verdict.records = v at stands unanswered after_plain ⊢
  unfold PlainLoop.settled
  cases concluded : conclusion context.networkTime verdict.answer with
  | some result => exact .ending stands unanswered (.settle concluded) (by omega)
  | none =>
    obtain ⟨reason, granted⟩ := PlainLoop.conclusion_eq_none concluded
    obtain ⟨bounded, fewer⟩ := retried granted
    rw [granted]
    refine .early stands unanswered ?_ (.retry _ reason) ?_
    · rwa [World.Bounded, after_plain]
    · -- the retry that was granted pays for the next attempt
      have spare : v.spare i + 21 = w.spare i := by
        rw [World.spare, World.spare, after_plain, ← fewer]
        show 21 * verdict.request.policy.left + 21 = _
        omega
      omega

theorem settle_follows {time : Int} {answer : Except Fault Decision}
    {result : Except RequestError Response} (hr : conclusion time answer = some result)
    (hs : w.Stands c i stack 0) (hu : w.Unanswered c [] [])
    (hn : 3 + stackCost stack ≤ n + 1) :
    Follows c i (settle w c time answer stack) (some (result, w.plain i)) n := by
  have alike (level : Level) (message : Bytes) : w.Alike (w.logFor c level message) c := .note w rfl
  cases answer with
  | error f =>
    cases hr
    refine .ending ((alike _ _).stands hs) ((alike _ _).unanswered hu) (.complete _) ?_
    omega
  | ok decision =>
    cases decision with
    | final error =>
      cases hr
      exact .ending hs hu (.complete _) (by omega)
    | retry reason => cases hr

theorem retry_follows (time : Int) (reason : RetryReason) (hs : w.Stands c i stack 0)
    (hu : w.Unanswered c [] []) (hb : w.Bounded i)
    (hn : w.spare i + 24 + stackCost stack ≤ n + 1) :
    Follows c i (settle w c time (.ok (.retry reason)) stack) (w.plain i).run n := by
  have alike : w.Alike (w.logFor c .debug (text "Retrying (" ++ reason.label ++ text ")")) c :=
    .note w rfl
  refine .early (alike.stands hs) (alike.unanswered hu) hb .dispatch ?_
  show w.spare i + 23 + stackCost stack ≤ n
  omega

theorem complete_follows (result : Except RequestError Response) (hs : w.Stands c i stack 0)
    (hu : w.Unanswered c [] []) (hn : 2 + stackCost stack ≤ n + 1) :
    Follows c i (complete w c result stack) (some (result, w.plain i)) n := by
  have hosts := hs.hosts.setCall { w.callAt c with completed := true } rfl rfl rfl rfl
  have call := w.callAt_setCall { w.callAt c with completed := true } hs.hosts.inside c
  rw [if_pos rfl] at call
  have stands : (w.setCall c { w.callAt c with completed := true }).Stands c i stack 0 :=
    ⟨hosts, hs.frames, hs.once, hs.joined, by rw [World.pendingOf, call]; exact hs.pending⟩
  -- telling the result is the last event of the call
  have rests {e : Event} {r : Reaction} (he : e = Event.answer c i result) (hr : r = .rest) :
      Follows c i (doing ((w.setCall c { w.callAt c with completed := true }).note e) (.react r)
        stack) (some (result, w.plain i)) n := by
    subst hr
    have mine : e.answers c = true := by
      subst he
      cases result <;> simp [Event.answer, Event.answers]
    have told : ((w.setCall c { w.callAt c with completed := true }).note e).told c =
        [Event.answer c i result] := by
      have none : (w.setCall c { w.callAt c with completed := true }).told c = [] := hu.told
      rw [World.told_note, none, mine, he]
      rfl
    refine .aside (stands.of_hosts (stands.hosts.of_eq rfl rfl rfl rfl rfl) rfl)
      (.answered result hu.waiting hu.queued told) .react ?_
    omega
  have request := hs.hosts.request
  simp only [complete, hu.completed, Bool.false_eq_true, if_false]
  cases result with
  | ok response => exact rests (by rw [request]; rfl) hs.hosts.onSuccess
  | error error => exact rests (by rw [request]; rfl) hs.hosts.onError

/-! ## Frames -/

/-- What the world keeps of a call hangs on no more than this. -/
theorem awaits_of_eq {w' : World} {e : Option Ending} {r t : Nat} (h : w.Awaits c i e r t)
    (completed : (w'.callAt c).completed = (w.callAt c).completed)
    (attempts : w'.attempts = w.attempts) (waiting : w'.transport.waiting = w.transport.waiting)
    (executor : w'.executor = w.executor) (told : w'.told c = w.told c)
    (plain : w'.plain i = w.plain i) : w'.Awaits c i e r t := by
  have unanswered {attempts : List Nat} {tasks : List CopyTask}
      (hu : w.Unanswered c attempts tasks) : w'.Unanswered c attempts tasks :=
    ⟨waiting.trans hu.waiting, by rw [World.queued, executor]; exact hu.queued,
      completed.trans hu.completed, told.trans hu.told⟩
  have attemptAt (a : Nat) : w'.attemptAt a = w.attemptAt a := by
    rw [World.attemptAt, attempts]
    rfl
  have callOf (a : Nat) : w'.callOf a = w.callOf a := by rw [World.callOf, attemptAt]; rfl
  have startOf (a : Nat) : w'.startOf a = w.startOf a := by rw [World.startOf, attemptAt]; rfl
  have bounded (hb : w.Bounded i) : w'.Bounded i := by rwa [World.Bounded, plain]
  have spare : w'.spare i = w.spare i := by rw [World.spare, plain]; rfl
  cases h with
  | registered hu hb =>
    rw [← plain, ← spare]
    exact .registered (unanswered hu) (bounded hb)
  | @waiting a hu hb ha =>
    rw [← plain, ← spare, ← startOf]
    exact .waiting (unanswered hu) (bounded hb)
      ⟨by rw [attempts]; exact ha.inside, by rw [callOf]; exact ha.call,
        by rw [attemptAt]; exact ha.unresolved⟩
  | @queued k hu hb hk =>
    rw [← plain, ← spare, ← startOf]
    exact .queued (unanswered hu) (bounded hb) (by rw [callOf]; exact hk)
  | answered result hw hq ht =>
    rw [← plain]
    exact .answered result (waiting.trans hw) (by rw [World.queued, executor]; exact hq)
      (told.trans ht)

variable {e : Option Ending} {r t : Nat}

theorem nextAttempt_follows (hs : w.Stands c i (.attempts c :: stack) r) (hw : w.Awaits c i e r t)
    (hn : t + stackCost (.attempts c :: stack) ≤ n + 1) :
    Follows c i (nextAttempt w c stack) e n := by
  have loops : loopsIn c (.attempts c :: stack) = loopsIn c stack + 1 := by
    simp [loopsIn, Frame.isLoopOf]
  have once := hs.once
  have pending : (w.callAt c).pending = loopsIn c (.attempts c :: stack) + r := hs.pending
  rw [loops] at once pending
  have hosts := hs.hosts.setCall (w.callAt c).retire.2 rfl rfl rfl rfl
  have call := w.callAt_setCall (w.callAt c).retire.2 hs.hosts.inside c
  rw [if_pos rfl] at call
  have left : (w.setCall c (w.callAt c).retire.2).pendingOf c = loopsIn c stack + r := by
    rw [World.pendingOf, call]
    show (w.callAt c).pending - 1 = _
    omega
  have completed : ((w.setCall c (w.callAt c).retire.2).callAt c).completed =
      (w.callAt c).completed := by
    rw [call]
    rfl
  have cost : stackCost (.attempts c :: stack) = 1 + stackCost stack := rfl
  simp only [nextAttempt]
  by_cases more : r = 0
  · rw [if_neg (by simp [Call.retire, pending]; omega)]
    have stands : (w.setCall c (w.callAt c).retire.2).Stands c i stack r :=
      ⟨hosts, fun f hf => hs.frames f (List.mem_cons_of_mem _ hf), by omega, by omega, left⟩
    exact .aside stands (awaits_of_eq hw completed rfl rfl rfl rfl rfl) (.done _) (by omega)
  · rw [if_pos (by simp [Call.retire, pending]; omega)]
    cases hw with
    | registered hu hb =>
      have unanswered : (w.setCall c (w.callAt c).retire.2).Unanswered c [] [] :=
        ⟨hu.waiting, hu.queued, completed.trans hu.completed, hu.told⟩
      refine .early ⟨hosts, hs.frames, hs.once, Nat.zero_le _, ?_⟩ unanswered hb .begin ?_
      · rw [left, loops]
      · show w.spare i + 21 + stackCost (.attempts c :: stack) ≤ n
        omega
    | waiting => exact absurd rfl more
    | queued => exact absurd rfl more
    | answered => exact absurd rfl more

theorem resume_follows {f : Frame} (hs : w.Stands c i (f :: stack) r) (hw : w.Awaits c i e r t)
    (hn : t + stackCost (f :: stack) ≤ n + 1) : Follows c i (resume w f stack) e n := by
  have calm := hs.frames f List.mem_cons_self
  have cost : stackCost (f :: stack) = f.cost + stackCost stack := rfl
  cases f with
  | attempts d =>
    obtain rfl : d = c := calm
    exact nextAttempt_follows hs hw hn
  | sending a => exact .aside (hs.pop rfl) hw (.done _) (by simp only [Frame.cost] at cost; omega)
  | nested =>
    have stands := hs.pop rfl
    refine .aside (stands.of_hosts (stands.hosts.of_eq rfl rfl rfl rfl rfl) rfl)
      (awaits_of_eq hw rfl rfl rfl rfl rfl rfl) (.done _) ?_
    simp only [Frame.cost] at cost
    omega
  | turn a t =>
    obtain rfl : t = { deliveries := [] } := calm
    exact .aside (hs.pop rfl) hw (.turn a) (by simp only [Frame.cost] at cost; omega)
  | holding s =>
    have alike : w.Alike (w.closeStream s) c := .closeStream w s
    refine .aside (alike.stands (hs.pop rfl)) (awaits_of_eq hw rfl rfl rfl rfl alike.told rfl)
      (.done _) ?_
    simp only [Frame.cost] at cost
    omega
  | submitting k fails => exact calm.elim
  | reacting fault => exact calm.elim
  | answering a => exact .aside (hs.pop rfl) hw (.done a) (by simp only [Frame.cost] at cost; omega)
  | queue d => exact .aside (hs.pop rfl) hw (.runQueue _) (by simp only [Frame.cost] at cost; omega)
  | worker => exact .aside (hs.pop rfl) hw .serve (by simp only [Frame.cost] at cost; omega)

/-! ## Tasks -/

theorem takeTask_eq_none (h : w.queued = []) : takeTask w = none := by
  unfold takeTask
  cases executor : w.executor with
  | none => rfl
  | some e =>
    rw [World.queued_of_executor executor] at h
    simp only [h]

/-- A task that is taken off the queue is copied over the frame of those who took it. -/
theorem takeTask_follows {f : Frame} (hf : f.Calm c) (hl : f.isLoopOf c = false) (cost : f.cost ≤ 3)
    (hs : w.Stands c i stack r) (hw : w.Awaits c i e r t) :
    (w.queued = [] ∧ takeTask w = none) ∨
      ∃ k w' u, takeTask w = some (k, w') ∧ u < t ∧
        Follows c i (doing w' (.copy k) (f :: stack)) e (u + stackCost stack) := by
  cases hw with
  | registered hu => exact .inl ⟨hu.queued, takeTask_eq_none hu.queued⟩
  | waiting hu => exact .inl ⟨hu.queued, takeTask_eq_none hu.queued⟩
  | answered _ _ hq => exact .inl ⟨hq, takeTask_eq_none hq⟩
  | @queued k hu hb hk =>
    obtain ⟨x, executor, alive, mode⟩ := hs.hosts.executor
    have queue : x.queue = [k] := by rw [← hu.queued, World.queued_of_executor executor]
    refine .inr ⟨k, w.setExecutor { x with queue := [] }, w.spare i + 9,
      by simp [takeTask, executor, queue], by omega, ?_⟩
    have plain : (w.setExecutor { x with queue := [] }).plain i = w.plain i :=
      World.plain_setExecutor executor rfl i
    have leads := Instr.Leads.copy (w := w.setExecutor { x with queue := [] }) (i := i) k hk
    rw [World.spare, plain] at leads
    have hosts := hs.hosts.setExecutor (e := { x with queue := [] }) alive mode
    refine .early ((hs.of_hosts hosts rfl).push hf hl)
      ⟨hu.waiting, rfl, hu.completed, hu.told⟩ (by rwa [World.Bounded, plain]) leads ?_
    show w.spare i + 6 + (f.cost + stackCost stack) ≤ _
    omega

/-! ## Every step -/

theorem Follows.step {m : Machine} (h : Follows c i m e (n + 1)) (hi : m.isIdle = false) :
    Follows c i m.step e n := by
  cases h with
  | early hs hu hb hx hn =>
    cases hx with
    | dispatch => exact dispatch_follows hs hu hb hn
    | begin => exact begin_follows hs hu hb hn
    | send headers ha => exact send_follows headers ha hs hu hb hn
    | turn d ha => exact turn_follows d ha hs hu hb hn
    | deliver o ha => exact deliver_follows o ha hs hu hb hn
    | schedule k hk => exact schedule_follows hk hs hu hb hn
    | unscheduled k f hk => exact unscheduled_follows f hk hs hu hb hn
    | copy k hk => exact copy_follows hk hs hu hb hn
    | receive status headers body ha => exact receive_follows status headers body ha hs hu hb hn
    | fail context => exact fail_follows context hs hu hb hn
    | retry time reason => exact retry_follows time reason hs hu hb hn
  | ending hs hu hx hn =>
    cases hx with
    | settle hr => exact settle_follows hr hs hu hn
    | complete result => exact complete_follows result hs hu hn
  | @aside w x stack e r t u n hs hw hx hn =>
    cases hx with
    | done a =>
      cases stack with
      | nil => cases hi
      | cons f stack => exact resume_follows hs hw hn
    | turn a =>
      have alike : w.Alike (w.advance 0) c := ⟨rfl, rfl, rfl, rfl, rfl, rfl⟩
      have plain : (w.advance 0).plain i = w.plain i := by
        simp [World.plain, World.advance, World.requestAt?]
      show Follows c i (finished (w.advance 0) stack) e n
      exact .aside (alike.stands hs) (awaits_of_eq hw rfl rfl rfl rfl rfl plain) (.done _) (by omega)
    | react =>
      show Follows c i (finished w stack) e n
      exact .aside hs hw (.done _) (by omega)
    | runQueue d =>
      show Follows c i (runQueue w d stack) e n
      unfold runQueue
      rcases takeTask_follows (f := .queue d) trivial rfl (Nat.le_refl 3) hs hw with
        ⟨-, none⟩ | ⟨k, w', u, some, fewer, follows⟩
      · rw [none]
        exact .aside hs hw (.done _) (by omega)
      · rw [some]
        exact follows.mono (by omega)
    | serve =>
      show Follows c i (serve w stack) e n
      unfold serve
      rcases takeTask_follows (f := .worker) trivial rfl (Nat.le_refl 3) hs hw with
        ⟨-, none⟩ | ⟨k, w', u, some, fewer, follows⟩
      · rw [none]
        exact .aside hs hw (.done _) (by omega)
      · rw [some]
        exact follows.mono (by omega)

/-- A machine that has no steps left rests. -/
theorem Follows.isIdle_of_zero {m : Machine} (h : Follows c i m e 0) : m.isIdle = true := by
  cases h with
  | early hs hu hb hx hn => cases hx <;> omega
  | ending hs hu hx hn => cases hx <;> omega
  | @aside w x stack e r t u n hs hw hx hn =>
    cases hx with
    | done a =>
      cases stack with
      | nil => rfl
      | cons f stack =>
        have positive : 0 < f.cost := by cases f <;> exact Nat.succ_pos _
        have cost : stackCost (f :: stack) = f.cost + stackCost stack := rfl
        omega
    | turn a => omega
    | react => omega
    | runQueue d => omega
    | serve => omega

/-- Within its bound a machine comes to rest, with the same end before it. -/
theorem Follows.run {m : Machine} {b : Nat} (h : Follows c i m e n) (hb : n ≤ b) :
    Follows c i (Machine.run b m) e n ∧ (Machine.run b m).isIdle = true := by
  induction b generalizing m n with
  | zero =>
    obtain rfl : n = 0 := by omega
    exact ⟨h, h.isIdle_of_zero⟩
  | succ b ih =>
    unfold Machine.run
    cases idle : m.isIdle with
    | true => exact ⟨h, idle⟩
    | false =>
      cases n with
      | zero =>
        rw [h.isIdle_of_zero] at idle
        cases idle
      | succ n =>
        obtain ⟨follows, rests⟩ := ih (h.step idle) (by omega)
        exact ⟨follows.mono (Nat.le_succ n), rests⟩

end Machine

end RequestFlow
