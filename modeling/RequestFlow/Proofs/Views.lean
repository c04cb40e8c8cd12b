import RequestFlow.Proofs.Bodies

/-!
# What the settings leave alone

A view of a run hides settings, the pool, and events, at least the information in the log.  Worlds
that show the same go on alike: a step that copies no body keeps them so, whatever is hidden.  Copies
do, under any settings and pools and but for their dealings, unless one is refused a lease.  So two
sessions that differ in their settings and pools give the same results at the same times.

    alike machines take alike steps, if they copy no body                       (Agrees.step)
    copies that are refused no lease keep worlds alike                          (Agrees.copy)
    sessions under any settings and pools show the same results                 (results_agree)
-/

namespace RequestFlow

/-! ## Views -/

/-- What is looked at: something of the settings and the pool, and some events, but no information
in the log. -/
structure View where
  config : Config → Config
  pool : Pool → Pool
  traced : Bool → Bool
  event : Event → Bool
  uninformed : ∀ message, event (.log ⟨.info, message⟩) = false

/-- The event is information in the log. -/
def Event.isInfo : Event → Bool
  | .log r => r.level == .info
  | _ => false

namespace View

/-- All but the settings of the log. -/
def quiet : View where
  config c := { c with slowThreshold := 0, logAll := false }
  pool p := p
  traced b := b
  event e := !e.isInfo
  uninformed _ := rfl

/-- Nothing of the settings, the pool, and what copies do with pools and streams. -/
def results : View where
  config _ := {}
  pool _ := .bestFit {}
  traced _ := true
  event e := !e.isInfo && !e.isDealing
  uninformed _ := rfl

end View

namespace World

/-- What is seen of a world. -/
def seen (v : View) (w : World) : World :=
  { w with
    config := v.config w.config
    pool := v.pool w.pool
    poolTraced := v.traced w.poolTraced
    trace := w.trace.filter v.event }

/-- The worlds show the same. -/
def Agrees (v : View) (w w' : World) : Prop := w.seen v = w'.seen v

end World

/-- The machines do the same in worlds that show the same. -/
structure Machine.Agrees (v : View) (m m' : Machine) : Prop where
  world : m.world.Agrees v m'.world
  control : m.control = m'.control
  stack : m.stack = m'.stack

/-! ## Worlds -/

namespace World.Agrees

variable {v : View} {w w' : World}

section

variable (h : w.Agrees v w')

include h

/-- What is not hidden is the same. -/
theorem same {α : Type} (f : World → α) (hf : ∀ x, f (x.seen v) = f x) : f w = f w' :=
  (hf w).symm.trans ((congrArg f h).trans (hf w'))

theorem present : w.present = w'.present := h.same World.present fun _ => rfl

theorem transport : w.transport = w'.transport := h.same World.transport fun _ => rfl

theorem executor : w.executor = w'.executor := h.same World.executor fun _ => rfl

theorem streams : w.streams = w'.streams := h.same World.streams fun _ => rfl

theorem requests : w.requests = w'.requests := h.same World.requests fun _ => rfl

theorem hasExecutor : w.hasExecutor = w'.hasExecutor := h.same World.hasExecutor fun _ => rfl

theorem requestAt? (i : Nat) : w.requestAt? i = w'.requestAt? i :=
  h.same (·.requestAt? i) fun _ => rfl

theorem callAt (c : Nat) : w.callAt c = w'.callAt c := h.same (·.callAt c) fun _ => rfl

theorem attemptAt (a : Nat) : w.attemptAt a = w'.attemptAt a :=
  h.same (·.attemptAt a) fun _ => rfl

theorem callOf (a : Nat) : w.callOf a = w'.callOf a := h.same (·.callOf a) fun _ => rfl

theorem requestOf (c : Nat) : w.requestOf c = w'.requestOf c :=
  h.same (·.requestOf c) fun _ => rfl

theorem classifierOf (c : Nat) : w.classifierOf c = w'.classifierOf c :=
  h.same (·.classifierOf c) fun _ => rfl

theorem elapsed (a : Nat) : w.elapsed a = w'.elapsed a := h.same (·.elapsed a) fun _ => rfl

theorem budget (n : Nat) : w.budget n = w'.budget n := h.same (·.budget n) fun _ => rfl

/-- A change that looks at nothing hidden. -/
theorem change (f : World → World) (hf : ∀ x, (f x).seen v = f (x.seen v)) :
    (f w).Agrees v (f w') := (hf w).trans ((congrArg f h).trans (hf w').symm)

/-- Events that are added to both traces. -/
theorem tell (l : List Event) :
    World.Agrees v { w with trace := w.trace ++ l.toArray }
      { w' with trace := w'.trace ++ l.toArray } := by
  have added (x : World) : World.seen v { x with trace := x.trace ++ l.toArray } =
      { x.seen v with trace := (x.seen v).trace ++ (l.filter v.event).toArray } := by
    simp [seen]
  rw [Agrees, added, added, h]

theorem note (e : Event) : (w.note e).Agrees v (w'.note e) := by
  simpa only [World.note, Array.append_singleton] using h.tell [e]

theorem addLogs (records : List LogRecord) : (w.addLogs records).Agrees v (w'.addLogs records) := by
  have added (t : Trace) : t.addLogs records = t ++ (records.map Event.log).toArray := by
    apply Array.ext'
    rw [Trace.toList_addLogs, Array.toList_append]
  simpa only [World.addLogs, added] using h.tell (records.map .log)

theorem logFor (c : Nat) (level : Level) (message : Bytes) :
    (w.logFor c level message).Agrees v (w'.logFor c level message) := by
  unfold World.logFor
  rw [h.requestOf]
  exact h.note _

theorem closeStream (s : Stream) : (w.closeStream s).Agrees v (w'.closeStream s) := by
  simpa only [World.closeStream, Stream.close, List.foldl_push_eq_append'] using
    h.tell (closeEvents s.id s.source)

theorem closeStream? (s : Option Stream) : (w.closeStream? s).Agrees v (w'.closeStream? s) := by
  cases s with
  | none => exact h
  | some s => exact h.closeStream s

theorem resolve (a : Nat) : (w.resolve a).Agrees v (w'.resolve a) := h.change (·.resolve a) fun _ => rfl

theorem advance (t : Int) : (w.advance t).Agrees v (w'.advance t) := h.change (·.advance t) fun _ => rfl

theorem setCall (c : Nat) (call : Call) : (w.setCall c call).Agrees v (w'.setCall c call) :=
  h.change (·.setCall c call) fun _ => rfl

theorem setExecutor (e : Executor) : (w.setExecutor e).Agrees v (w'.setExecutor e) :=
  h.change (·.setExecutor e) fun _ => rfl

theorem setTransport (t : Transport) :
    World.Agrees v { w with transport := t } { w' with transport := t } :=
  h.change (fun x => { x with transport := t }) fun _ => rfl

/-- Information in the log is not seen. -/
theorem addInfo {records records' : List LogRecord} (hr : ∀ r ∈ records, r.level = .info)
    (hr' : ∀ r ∈ records', r.level = .info) : (w.addLogs records).Agrees v (w'.addLogs records') := by
  have hidden (x : World) {l : List LogRecord} (hl : ∀ r ∈ l, r.level = .info) :
      (x.addLogs l).seen v = x.seen v := by
    have none : (l.map Event.log).filter v.event = [] := by
      rw [List.filter_eq_nil_iff]
      intro e he
      obtain ⟨⟨level, message⟩, hm, rfl⟩ := List.mem_map.1 he
      obtain rfl : level = .info := hl _ hm
      simp [v.uninformed]
    have trace : (x.trace.addLogs l).filter v.event = x.trace.filter v.event := by
      apply Array.ext'
      rw [Array.toList_filter, Trace.toList_addLogs, List.filter_append, none, List.append_nil,
        Array.toList_filter]
    simp only [seen, World.addLogs, trace]
  rw [Agrees, hidden w hr, hidden w' hr', h]

end

end World.Agrees

theorem level_of_mem_receptionRecords {config : Config} {request : Request} {lifetime : Int}
    {size : Nat} {status : StatusCode} {r : LogRecord}
    (h : r ∈ receptionRecords config request lifetime size status) : r.level = .info := by
  unfold receptionRecords at h
  split at h
  · rw [List.mem_singleton.1 h]
    rfl
  · cases h

/-! ## Steps -/

namespace Machine

variable {v : View} {w w' : World} {stack : List Frame}

namespace Agrees

theorem doing (h : w.Agrees v w') (i : Instr) :
    Agrees v (doing w i stack) (Machine.doing w' i stack) := ⟨h, rfl, rfl⟩

theorem finished (h : w.Agrees v w') : Agrees v (finished w stack) (Machine.finished w' stack) :=
  ⟨h, rfl, rfl⟩

theorem raising (h : w.Agrees v w') (f : Fault) :
    Agrees v (raising w f stack) (Machine.raising w' f stack) := ⟨h, rfl, rfl⟩

theorem ite {c : Prop} [Decidable c] {m₁ m₂ m₁' m₂' : Machine} (h₁ : c → m₁.Agrees v m₁')
    (h₂ : ¬ c → m₂.Agrees v m₂') : Agrees v (if c then m₁ else m₂) (if c then m₁' else m₂') := by
  split
  · next hc => exact h₁ hc
  · next hc => exact h₂ hc

section

variable (h : w.Agrees v w')

include h

theorem perform (p : Performance) :
    Agrees v (perform w p stack) (Machine.perform w' p stack) := by
  have number : (w.openCall p).1 = (w'.openCall p).1 := h.same (fun x => (x.openCall p).1) fun _ => rfl
  have opened : (w.openCall p).2.Agrees v (w'.openCall p).2 :=
    h.change (fun x => (x.openCall p).2) fun _ => rfl
  unfold Machine.perform
  rw [h.present, h.hasExecutor, h.requestAt?]
  refine .ite (fun _ => .finished h) fun _ => .ite (fun _ => .raising h _) fun _ =>
    .ite (fun _ => .raising h _) fun _ => ?_
  dsimp only
  rw [number]
  exact .doing opened _

theorem dispatch (c : Nat) : Agrees v (dispatch w c stack) (Machine.dispatch w' c stack) := by
  unfold Machine.dispatch
  rw [h.callAt]
  have registered := h.setCall c (w'.callAt c).register.2
  exact .ite (fun _ => .doing registered _) fun _ => .finished registered

theorem begin (c : Nat) : Agrees v (begin w c stack) (Machine.begin w' c stack) := by
  have number : (w.openAttempt c).1 = (w'.openAttempt c).1 :=
    h.same (fun x => (x.openAttempt c).1) fun _ => rfl
  have opened : (w.openAttempt c).2.Agrees v (w'.openAttempt c).2 :=
    h.change (fun x => (x.openAttempt c).2) fun _ => rfl
  unfold Machine.begin
  dsimp only
  rw [opened.requestOf, number]
  split
  · have resolved := opened.resolve (w'.openAttempt c).1
    rw [resolved.elapsed]
    exact .doing resolved _
  · exact .doing opened _

theorem send (a : Nat) (headers : List Header) :
    Agrees v (send w a headers stack) (Machine.send w' a headers stack) := by
  unfold Machine.send
  dsimp only
  rw [h.callOf, h.requestOf]
  have noted := h.note (.sent (w'.callOf a) headers (w'.requestOf (w'.callOf a)).timeout)
  rw [noted.transport]
  exact .ite (fun _ => .finished (noted.setTransport _)) fun _ => .doing (noted.setTransport _) _

theorem takeTurn (a : Nat) (t : Turn) :
    Agrees v (takeTurn w a t stack) (Machine.takeTurn w' a t stack) := by
  unfold Machine.takeTurn
  split
  · have late := h.advance t.delay
    dsimp only
    split
    · exact .finished late
    · exact .raising late _
  · next d rest deliveries =>
    dsimp only
    rw [h.streams]
    exact .doing (h.change (fun x => { x.advance d.delay with
      streams := (d.outcome.number w'.streams).2 }) fun _ => rfl) _

theorem openReply (a : Nat) (r : Reply Stream) :
    Agrees v (openReply w a r stack) (Machine.openReply w' a r stack) := by
  unfold Machine.openReply
  rw [h.callOf, h.requestOf, h.elapsed]
  refine .ite (fun _ => .doing h _) fun _ => ?_
  split <;> exact .doing h _

theorem deliver (a : Nat) (o : Outcome Stream) :
    Agrees v (deliver w a o stack) (Machine.deliver w' a o stack) := by
  have resolved := h.resolve a
  unfold Machine.deliver
  dsimp only
  rw [h.attemptAt, h.callOf, resolved.elapsed]
  refine .ite (fun _ => .finished ((h.logFor _ _ _).closeStream? _)) fun _ => ?_
  cases o with
  | authFailure message => exact .doing resolved _
  | failure f => exact .doing resolved _
  | reply r => exact openReply resolved a r

theorem schedule (k : CopyTask) : Agrees v (schedule w k stack) (Machine.schedule w' k stack) := by
  have noted := h.note .submit
  unfold Machine.schedule
  rw [h.executor]
  split
  · exact .doing h _
  · next e he =>
    refine .ite (fun _ => .doing h _) fun _ => ?_
    dsimp only
    split
    · exact .doing noted _
    · exact .doing noted _
    · exact .ite (fun _ => .doing noted _) fun _ => .finished (noted.setExecutor _)
    · exact .ite (fun _ => .doing noted _) fun _ => .doing (noted.setExecutor _) _

theorem unscheduled (k : CopyTask) (f : Fault) :
    Agrees v (unscheduled w k f stack) (Machine.unscheduled w' k f stack) := by
  unfold Machine.unscheduled bodyContext
  dsimp only
  rw [h.callOf]
  have logged := h.logFor (w'.callOf k.attempt) .error
    (text "Unable to schedule body copy: " ++ f.message)
  rw [logged.elapsed]
  exact .doing logged _

theorem receive (a : Nat) (status : StatusCode) (headers : List Header) (body : Bytes) :
    Agrees v (receive w a status headers body stack)
      (Machine.receive w' a status headers body stack) := by
  unfold Machine.receive
  dsimp only
  rw [h.callOf, h.requestOf, h.elapsed]
  have logged : (w.addLogs (receptionRecords w.config (w'.requestOf (w'.callOf a)) (w'.elapsed a)
      body.length status)).Agrees v (w'.addLogs (receptionRecords w'.config
        (w'.requestOf (w'.callOf a)) (w'.elapsed a) body.length status)) :=
    h.addInfo (fun r => level_of_mem_receptionRecords) fun r => level_of_mem_receptionRecords
  split <;> exact .doing logged _

theorem fail (c : Nat) (context : FailureContext) :
    Agrees v (fail w c context stack) (Machine.fail w' c context stack) := by
  unfold Machine.fail
  dsimp only
  have logged := h.logFor c .debug (text "Attempt failed (" ++ context.failure.kind.label ++
    text "): " ++ context.failure.message)
  rw [logged.classifierOf, logged.requestOf]
  exact .doing (((logged.change (·.setRequest c _) fun _ => rfl).change
    (·.setClassifier c _) fun _ => rfl).addLogs _) _

theorem settle (c : Nat) (time : Int) (answer : Except Fault Decision) :
    Agrees v (settle w c time answer stack) (Machine.settle w' c time answer stack) := by
  unfold Machine.settle
  split
  · exact .doing (h.logFor _ _ _) _
  · exact .doing h _
  · exact .doing (h.logFor _ _ _) _

theorem complete (c : Nat) (result : Except RequestError Response) :
    Agrees v (complete w c result stack) (Machine.complete w' c result stack) := by
  unfold Machine.complete
  dsimp only
  rw [h.callAt]
  refine .ite (fun _ => .finished (h.logFor _ _ _)) fun _ => ?_
  have marked := h.setCall c { w'.callAt c with completed := true }
  split
  · exact .doing (marked.note _) _
  · exact .doing (marked.note _) _

theorem react (r : Reaction) : Agrees v (react w r stack) (Machine.react w' r stack) := by
  unfold Machine.react
  split
  · exact .finished h
  · exact .raising h _
  · exact .doing h _

/-- A task is taken off both queues, or off none. -/
theorem takeTask : takeTask w = none ∧ Machine.takeTask w' = none ∨
    ∃ k x x', Machine.takeTask w = some (k, x) ∧ Machine.takeTask w' = some (k, x') ∧
      x.Agrees v x' := by
  unfold Machine.takeTask
  rw [h.executor]
  split
  · exact Or.inl ⟨rfl, rfl⟩
  · split
    · exact Or.inl ⟨rfl, rfl⟩
    · exact Or.inr ⟨_, _, _, rfl, rfl, h.setExecutor _⟩

theorem runQueue (n : Nat) : Agrees v (runQueue w n stack) (Machine.runQueue w' n stack) := by
  unfold Machine.runQueue
  rcases takeTask h with ⟨none, none'⟩ | ⟨k, x, x', some, some', taken⟩
  · rw [none, none']
    exact ⟨h, rfl, rfl⟩
  · rw [some, some']
    exact .doing taken _

theorem serve : Agrees v (serve w stack) (Machine.serve w' stack) := by
  unfold Machine.serve
  rcases takeTask h with ⟨none, none'⟩ | ⟨k, x, x', some, some', taken⟩
  · rw [none, none']
    exact .finished h
  · rw [some, some']
    exact .doing taken _

/-- Every instruction but a copy. -/
theorem exec {i : Instr} (hi : ∀ k, i ≠ .copy k) :
    Agrees v (exec w i stack) (Machine.exec w' i stack) := by
  cases i with
  | perform p => exact perform h p
  | dispatch c => exact dispatch h c
  | begin c => exact begin h c
  | send a headers => exact send h a headers
  | turn a t => exact takeTurn h a t
  | deliver a o => exact deliver h a o
  | schedule k => exact schedule h k
  | unscheduled k f => exact unscheduled h k f
  | copy k => exact absurd rfl (hi k)
  | receive a status headers body => exact receive h a status headers body
  | fail c context => exact fail h c context
  | settle c time answer => exact settle h c time answer
  | complete c result => exact complete h c result
  | react r => exact react h r
  | runQueue n => exact runQueue h n
  | serve => exact serve h

theorem resume (f : Frame) : Agrees v (resume w f stack) (Machine.resume w' f stack) := by
  cases f with
  | attempts c =>
    unfold Machine.resume nextAttempt
    dsimp only
    rw [h.callAt]
    have retired := h.setCall c (w'.callAt c).retire.2
    exact .ite (fun _ => .doing retired _) fun _ => .finished retired
  | sending a => exact .finished h
  | nested =>
    unfold Machine.resume
    dsimp only
    rw [h.transport]
    exact .finished (h.setTransport _)
  | turn a t => exact .doing h _
  | holding s => exact .finished (h.closeStream s)
  | submitting k fails => cases fails <;> first | exact .finished h | exact .doing h _
  | reacting fault => cases fault <;> first | exact .finished h | exact .raising h _
  | answering answer => exact ⟨h, rfl, rfl⟩
  | queue n => exact .doing h _
  | worker => exact .doing h _

theorem unwind (fault : Fault) (f : Frame) :
    Agrees v (unwind w fault f stack) (Machine.unwind w' fault f stack) := by
  cases f with
  | sending a =>
    have resolved := h.resolve a
    unfold Machine.unwind
    dsimp only
    rw [h.attemptAt, resolved.callOf, resolved.elapsed]
    exact .ite (fun _ => .raising h _) fun _ => .doing resolved _
  | holding s => exact .raising (h.closeStream s) _
  | submitting k fails => exact .doing h _
  | worker => exact .doing (h.note _) _
  | attempts _ | nested | turn _ _ | reacting _ | answering _ | queue _ => exact .raising h _

end

/-- Agrees machines take alike steps, if they copy no body. -/
theorem step {m m' : Machine} (h : m.Agrees v m') (hm : m.task? = none) :
    m.step.Agrees v m'.step := by
  obtain ⟨w, control, stack⟩ := m
  obtain ⟨w', control', stack'⟩ := m'
  obtain ⟨hw, rfl, rfl⟩ := h
  cases control with
  | run i =>
    refine exec hw fun k hk => ?_
    rw [hk] at hm
    cases hm
  | done a =>
    cases stack with
    | nil => exact ⟨hw, rfl, rfl⟩
    | cons f stack => exact resume hw f
  | raised fault =>
    cases stack with
    | nil => exact ⟨hw, rfl, rfl⟩
    | cons f stack => exact unwind hw fault f

end Agrees

end Machine

end RequestFlow
