import Mathlib.Logic.Relation
import RequestFlow.Proofs.Bodies
import RequestFlow.Proofs.Markers
import RequestFlow.Proofs.Passage

/-!
# What a continuation raises

A continuation is told its result over an open stack, on every way that leads to a result, and the
stack stays open whatever other threads do.  So a fault that the continuation raises falls through all
frames below it, to the end of the thread or to the worker.  The call is over by then: nothing of it
is under way, so no attempt of it begins, and none is sent, classified or answered.

    frames that are below a result stay open                               (Reachable.stays_open)
    a fault of a continuation falls through them, with every step of it    (Along.falls)
    an answered call has nothing left to do                                (Served.over)
-/

namespace RequestFlow

/-- What the caller does when it is told this result. -/
def Call.reaction (call : Call) : Except RequestError Response → Reaction
  | .ok _ => call.onSuccess
  | .error _ => call.onError

/-- How the trace tells the result of the call of that number. -/
def Call.news (call : Call) (c : Nat) : Except RequestError Response → Event
  | .ok response => .success c call.request response
  | .error error => .failure c call.request error

/-- The call that is about to be told its result, with this. -/
def Machine.telling? (m : Machine) : Option (Nat × Except RequestError Response) :=
  match m.control with
  | .run (.complete c result) => some (c, result)
  | _ => none

/-- The number of frames above the worker, if there is one. -/
def framesToFall : List Frame → Nat
  | [] | .worker :: _ => 0
  | _ :: stack => framesToFall stack + 1

/-- The next step does nothing about the call: it has no outcome of it in hand, nor does it begin or
send an attempt of it or have a failure of it classified. -/
structure Machine.Ignores (m : Machine) (c : Nat) : Prop where
  hand : m.inHand c = 0
  entry : m.entryFor? c = none
  sends : m.does (.send c) = 0

namespace Network

/-- Some of these steps are the thread's own, as many as the number says. -/
inductive Along (s : Network) (t : Thread) : Nat → Network → Thread → Prop
  | here (h : t ∈ s.threads) : Along s t 0 s t
  | own {n : Nat} {w : World} {l r : List Thread} {u : Thread} {past : List Machine} {m : Machine}
    (h : Along s t n ⟨w, l ++ u :: r, past⟩ u) (hm : (u.on w).Moves m) :
    Along s t (n + 1) ⟨m.world, l ++ m.thread :: r, u.on w :: past⟩ m.thread
  | others {n : Nat} {s' s'' : Network} {u : Thread} (h : Along s t n s' u) (hs : Course s' s'')
    (hu : u ∈ s''.threads) : Along s t n s'' u

/-- A step in which nobody changes the request but for the sake of this call. -/
inductive Spares (i c : Nat) : Network → Network → Prop
  | move {w : World} {l r : List Thread} {t : Thread} {past : List Machine} {m : Machine}
    (hm : (t.on w).Moves m)
    (only : ∀ d x, t.control = .run (.fail d x) → (w.callAt d).request = i → d = c) :
    Spares i c ⟨w, l ++ t :: r, past⟩ ⟨m.world, l ++ m.thread :: r, t.on w :: past⟩
  | arrive {s : Network} (t : Thread) (ht : Arrival s.world t)
    (hh : ∀ a ∈ (t.on s.world).turns, 0 < s.handed a) :
    Spares i c s { s with threads := t :: s.threads }
  | meanwhile {s : Network} (w : World) (hw : Meanwhile s.world w)
    (hr : w.requestAt? i = s.world.requestAt? i) : Spares i c s { s with world := w }

end Network

/-! ## Falling -/

theorem drop_of_lt_framesToFall {stack : List Frame} {n : Nat} (h : n < framesToFall stack) :
    ∃ f rest, stack.drop n = f :: rest ∧ f ≠ .worker := by
  induction stack generalizing n with
  | nil => cases h
  | cons f stack ih =>
    cases n with
    | zero =>
      refine ⟨f, stack, rfl, ?_⟩
      rintro rfl
      cases h
    | succ n =>
      have below : n < framesToFall stack := by
        cases f with
        | worker => cases h
        | attempts _ | sending _ | nested | turn _ _ | holding _ | submitting _ _ | reacting _
        | answering _ | queue _ => exact Nat.lt_of_succ_lt_succ h
      exact ih below

/-- What is left is the worker, or nothing. -/
theorem drop_framesToFall {w : World} {stack : List Frame} (h : StackFits w stack) :
    stack.drop (framesToFall stack) = [] ∨ stack.drop (framesToFall stack) = [.worker] := by
  induction stack with
  | nil => exact .inl rfl
  | cons f stack ih =>
    cases f with
    | worker =>
      obtain rfl : stack = [] := h.1
      exact .inr rfl
    | attempts _ | sending _ | nested | turn _ _ | holding _ | submitting _ _ | reacting _
    | answering _ | queue _ => exact ih h.2

/-- A fault over an open stack has one way to go. -/
theorem Machine.Moves.falls {w : World} {fault : Fault} {f : Frame} {rest : List Frame} {m : Machine}
    (hm : Moves ⟨w, .raised fault, f :: rest⟩ m) (h : w.LetsBy (f :: rest)) (hf : f ≠ .worker) :
    m.thread = ⟨.raised fault, rest⟩ := by
  cases hm
  exact unwind_open h hf

/-! ## Telling -/

namespace Machine

variable {w : World} {stack : List Frame} {c : Nat}

theorem complete_tells (result : Except RequestError Response) (stack : List Frame)
    (undone : (w.callAt c).completed = false) :
    (complete w c result stack).thread = ⟨.run (.react ((w.callAt c).reaction result)), stack⟩ ∧
      (complete w c result stack).world.told c = w.told c ++ [(w.callAt c).news c result] := by
  have told {e : Event} (he : e.answers c = true) :
      ((w.setCall c { w.callAt c with completed := true }).note e).told c = w.told c ++ [e] := by
    rw [World.told_note, if_pos he]
    rfl
  unfold complete
  dsimp only
  rw [if_neg (by simp [undone])]
  cases result with
  | ok response => exact ⟨rfl, told (by simp [Event.answers])⟩
  | error error => exact ⟨rfl, told (by simp [Event.answers])⟩

theorem control_of_telling {m : Machine} {result : Except RequestError Response}
    (h : m.telling? = some (c, result)) : m.control = .run (.complete c result) := by
  unfold telling? at h
  split at h
  · next hc =>
    cases h
    exact hc
  · cases h

theorem step_raises {m : Machine} {message : Bytes}
    (h : m.thread = ⟨.run (.react (.raise message)), stack⟩) :
    m.step.thread = ⟨.raised (.runtime message), stack⟩ := by
  obtain ⟨w, control, stack⟩ := m
  obtain ⟨rfl, rfl⟩ := Thread.mk.inj h
  rfl

/-- What was told stays told. -/
theorem Moves.told_prefix {m m' : Machine} (h : m.Moves m') (c : Nat) :
    m.world.told c <+: m'.world.told c := by
  obtain ⟨events, trace, -⟩ := h.passes.trace
  unfold World.told
  rw [trace, List.filter_append]
  exact List.prefix_append _ _

end Machine

namespace Network

variable {s s' : Network} {c : Nat} {m : Machine} {result : Except RequestError Response}

/-! ## What has happened -/

theorem Reachable.calm (h : s.Reachable) : ∀ t ∈ s.threads, (t.on s.world).Calm := by
  induction h with
  | start w h => simp
  | step h hs ih =>
    have sane := h.sane
    cases hs with
    | move w l t r past m hm =>
      have sound := sane.sound hm
      intro u hu
      rcases mem_moved hu with rfl | hu
      · exact hm.calm sane.own sound (ih t (by simp))
      · exact (ih u (mem_others hu)).mono sound.grows (sane.others hu).stack
    | arrive s t ht =>
      intro u hu
      rcases List.mem_cons.1 hu with rfl | hu
      · cases ht with
        | turn a t answer ha => exact ⟨trivial, trivial⟩
        | perform _ | runQueue | serve => exact ⟨trivial, fun f hf => absurd hf List.not_mem_nil⟩
      · exact ih u hu
    | meanwhile s w hw =>
      intro t ht
      exact (ih t ht).mono hw.grows (sane.fits t ht).stack

/-- A machine that took a step was in shape and calm, and the world has only grown since. -/
theorem Reachable.ofPast (h : s.Reachable) : ∀ m ∈ s.past,
    m.Calm ∧ StackFits m.world m.stack ∧ m.world.Grows s.world := by
  induction h with
  | start w h => simp
  | step h hs ih =>
    have sane := h.sane
    cases hs with
    | move w l t r past m hm =>
      have grows := (sane.sound hm).grows
      intro x hx
      rcases List.mem_cons.1 hx with rfl | hx
      · exact ⟨h.calm t (by simp), sane.own.stack, grows⟩
      · obtain ⟨calm, fits, before⟩ := ih x hx
        exact ⟨calm, fits, before.trans grows⟩
    | arrive s t ht => exact ih
    | meanwhile s w hw =>
      intro x hx
      obtain ⟨calm, fits, before⟩ := ih x hx
      exact ⟨calm, fits, before.trans hw.grows⟩

/-- Frames that are below a result stay open. -/
theorem Reachable.stays_open (h : s.Reachable) (hm : m ∈ s.past)
    (hc : m.control = .run (.complete c result)) :
    s.world.LetsBy m.stack ∧ StackFits s.world m.stack := by
  obtain ⟨calm, fits, grows⟩ := h.ofPast m hm
  have now := calm.control
  rw [hc] at now
  exact ⟨now.mono grows fits, fits.mono grows⟩

/-- A call is answered with the result of the one step that completes it. -/
theorem Reachable.told (h : s.Reachable) (hm : m ∈ s.past)
    (hc : m.control = .run (.complete c result)) :
    m.step.thread = ⟨.run (.react ((m.world.callAt c).reaction result)), m.stack⟩ ∧
      s.world.told c = [(m.world.callAt c).news c result] := by
  induction h with
  | start w h => cases hm
  | @step s s' h hs ih =>
    have sane := h.sane
    cases hs with
    | move w l t r past m' moves =>
      have sound := sane.sound moves
      have one := (sane.move sound).one c
      have performed := m'.world.performed_le_one c
      rcases List.mem_cons.1 hm with rfl | hm
      · have undone : w.completedOf c = 0 := (sane.ready (t := t) (by simp)).undone c
          (by simp [Machine.inHand, hc, Instr.hand?])
        have none : w.told c = [] := by
          have answers := (sane.balanced c).completed
          rw [World.answers_eq_length] at answers
          exact List.length_eq_zero_iff.1 (answers.trans undone)
        have undone := w.completedOf_eq_zero_iff.1 undone
        obtain ⟨control, stack⟩ := t
        obtain rfl : control = .run (.complete c result) := hc
        cases moves
        have tells := Machine.complete_tells result stack undone
        rw [none] at tells
        exact tells
      · obtain ⟨step, told⟩ := ih hm
        refine ⟨step, ?_⟩
        have more := moves.told_prefix c
        have answers := m'.world.answers_eq_length c
        rw [← told]
        refine (more.eq_of_length_le ?_).symm
        dsimp only at one
        rw [Thread.on_world, told, List.length_singleton]
        omega
    | arrive s t ht => exact ih hm
    | meanwhile s w hw =>
      obtain ⟨step, told⟩ := ih hm
      exact ⟨step, (hw.told c).trans told⟩

/-! ## What is still to come -/

/-- An answered call has nothing left to do. -/
theorem Served.over (h : s.Served) (answered : 0 < s.world.answers c) {t : Thread}
    (ht : t ∈ s.threads) : (t.on s.world).Ignores c := by
  have sane := h.reachable.sane
  have one := sane.one c
  have performed := s.world.performed_le_one c
  have hand := le_total ht fun m => m.inHand c
  have begins := le_total ht fun m => m.does (.begin c)
  have none : (t.on s.world).inHand c = 0 := by omega
  have waits : (t.on s.world).does (.begin c) = 0 := by
    unfold waiting at one
    omega
  refine ⟨none, ?_, ?_⟩
  · refine entry_of_other ?_ ?_
    · intro hc
      rw [Machine.does_of_eq (by simp [Machine.act, Thread.on, hc])] at waits
      cases waits
    · rintro ⟨x, hc⟩
      simp [Machine.inHand, Thread.on, hc, Instr.hand?] at none
  · by_contra sends
    have sum := le_total ht fun m => m.does (.send c)
    have := h.orderly.unresolved_pos sane (c := c) (by omega)
    omega

theorem Course.grows (h : s.Served) (hs : Course s s') : s.world.Grows s'.world := by
  cases hs with
  | move hm => exact (h.reachable.sane.sound hm).grows
  | arrive t ht hh => exact World.Keeps.grows (.refl _)
  | meanwhile w hw => exact hw.grows

theorem Served.later (h : s.Served) (hs : Relation.ReflTransGen Course s s') :
    s'.Served ∧ s.world.Grows s'.world := by
  induction hs with
  | refl => exact ⟨h, World.Keeps.grows (.refl _)⟩
  | tail _ hs ih => exact ⟨ih.1.next hs, ih.2.trans (hs.grows ih.1)⟩

/-- What comes after an answer is not about the call. -/
theorem Served.rest (h : s.Served) (answered : 0 < s.world.answers c)
    (hs : Relation.ReflTransGen Course s s') :
    s'.world.timeouts c = s.world.timeouts c ∧
      ∃ after, s'.past = after ++ s.past ∧ ∀ x ∈ after, x.Ignores c := by
  induction hs with
  | refl => exact ⟨rfl, [], rfl, by simp⟩
  | @tail b d before hs ih =>
    obtain ⟨timeouts, after, past, none⟩ := ih
    obtain ⟨served, grows⟩ := h.later before
    have still := Nat.lt_of_lt_of_le answered (grows.answers c)
    cases hs with
    | @move w l r t past' m hm =>
      have idle : (t.on w).Ignores c := served.over still (by simp)
      refine ⟨(timeouts_of_other hm idle.sends).trans timeouts, t.on w :: after, ?_, ?_⟩
      · exact congrArg (t.on w :: ·) past
      · intro x hx
        rcases List.mem_cons.1 hx with rfl | hx
        · exact idle
        · exact none x hx
    | arrive t ht hh => exact ⟨timeouts, after, past, none⟩
    | meanwhile w hw => exact ⟨(hw.timeouts c).trans timeouts, after, past, none⟩

theorem Spares.course {i : Nat} (h : Spares i c s s') : Course s s' := by
  cases h with
  | move hm only => exact .move hm
  | arrive t ht hh => exact .arrive t ht hh
  | meanwhile w hw hr => exact .meanwhile w hw

/-- Once the call is answered, its request is changed by others or not at all. -/
theorem Served.spares {i : Nat} (h : s.Served) (answered : 0 < s.world.answers c)
    (hs : Relation.ReflTransGen (Spares i c) s s') :
    s'.world.requestAt? i = s.world.requestAt? i := by
  induction hs with
  | refl => rfl
  | @tail b d before hs ih =>
    obtain ⟨served, grows⟩ := h.later (Relation.ReflTransGen.mono (fun _ _ => Spares.course) _ _ before)
    have still := Nat.lt_of_lt_of_le answered (grows.answers c)
    cases hs with
    | @move w l r t past m hm only =>
      refine (requestAt?_of_other hm fun d x hc same => ?_).trans ih
      obtain rfl := only d x hc same
      have none := (served.over still (t := t) (by simp)).hand
      simp [Machine.inHand, Thread.on, hc, Instr.hand?] at none
    | arrive t ht hh => exact ih
    | meanwhile w hw hr => exact hr.trans ih

/-! ## Following a thread -/

variable {t u : Thread} {n : Nat}

theorem Along.mem (h : Along s t n s' u) : u ∈ s'.threads := by
  cases h with
  | here h => exact h
  | own h hm => simp
  | others h hs hu => exact hu

theorem Along.later (h : Along s t n s' u) : Relation.ReflTransGen Course s s' := by
  induction h with
  | here h => exact .refl
  | own h hm ih => exact ih.tail (.move hm)
  | others h hs hu ih => exact ih.tail hs

/-- A fault falls through an open stack, one frame with every step of its thread. -/
theorem Along.falls {f : Fault} {stack : List Frame} (h : s.Served) (hs : s.world.LetsBy stack)
    (fits : StackFits s.world stack) (ha : Along s ⟨.raised f, stack⟩ n s' u)
    (hn : n ≤ framesToFall stack) : u = ⟨.raised f, stack.drop n⟩ := by
  induction ha with
  | here ht => rfl
  | @own n w l r u past m ha hm ih =>
    obtain rfl := ih (by omega)
    obtain ⟨g, rest, split, hg⟩ := drop_of_lt_framesToFall hn
    have now : w.LetsBy (g :: rest) := by
      have whole := hs.mono (h.later ha.later).2 fits
      rw [← split]
      exact fun x hx => whole x (List.mem_of_mem_drop hx)
    rw [Thread.on, split] at hm
    rw [hm.falls now hg, List.drop_add_one_eq_tail_drop, split]
    rfl
  | others ha hs hu ih => exact ih hn

/-- Nothing keeps the fault from falling. -/
theorem Along.exists_falls {f : Fault} {stack : List Frame} (h : s.Served) (hs : s.world.LetsBy stack)
    (fits : StackFits s.world stack) (ht : ⟨.raised f, stack⟩ ∈ s.threads)
    (hn : n ≤ framesToFall stack) :
    ∃ s', Along s ⟨.raised f, stack⟩ n s' ⟨.raised f, stack.drop n⟩ := by
  induction n with
  | zero => exact ⟨s, .here ht⟩
  | succ n ih =>
    obtain ⟨⟨w, threads, past⟩, ha⟩ := ih (by omega)
    obtain ⟨l, r, rfl⟩ := List.append_of_mem ha.mem
    have next := ha.own (.step _)
    rw [next.falls h hs fits hn] at next
    exact ⟨_, next⟩

/-! ## Every continuation that raises a fault -/

/-- **A fault of a continuation is its caller's.** When a call is told its result, its continuation
runs over the stack that brought the result.  A fault that it raises falls through that stack as it
is, whatever other threads do meanwhile, and reaches the end of the thread, or the worker that ran
the task.  From then on the call is told nothing more, no attempt of it begins or is sent, and no
failure of it is classified; the request stays as it is while others leave it alone. -/
theorem Served.raised_falls (h : s.Served) (hm : m ∈ s.past)
    (hc : m.control = .run (.complete c result)) :
    m.step.thread = ⟨.run (.react ((m.world.callAt c).reaction result)), m.stack⟩ ∧
      (∀ message, (m.world.callAt c).reaction result = .raise message →
        m.step.step.thread = ⟨.raised (.runtime message), m.stack⟩) ∧
      (∀ f, ⟨.raised f, m.stack⟩ ∈ s.threads →
        (∀ n s' t, Along s ⟨.raised f, m.stack⟩ n s' t → n ≤ framesToFall m.stack →
          t = ⟨.raised f, m.stack.drop n⟩) ∧
        ∃ s' bottom, (bottom = [] ∨ bottom = [.worker]) ∧
          Along s ⟨.raised f, m.stack⟩ (framesToFall m.stack) s' ⟨.raised f, bottom⟩) ∧
      (∀ s', Relation.ReflTransGen Course s s' →
        s'.world.told c = [(m.world.callAt c).news c result] ∧
          s'.world.timeouts c = s.world.timeouts c ∧
          ∃ after, s'.past = after ++ s.past ∧ ∀ x ∈ after, x.Ignores c) ∧
      ∀ s', Relation.ReflTransGen (Spares (m.world.callAt c).request c) s s' →
        s'.world.requestAt? (m.world.callAt c).request =
          s.world.requestAt? (m.world.callAt c).request := by
  obtain ⟨step, told⟩ := h.reachable.told hm hc
  obtain ⟨isOpen, fits⟩ := h.reachable.stays_open hm hc
  have answered : 0 < s.world.answers c := by
    rw [World.answers_eq_length, told]
    exact Nat.one_pos
  refine ⟨step, ?_, ?_, ?_, fun s' => h.spares answered⟩
  · intro message raises
    exact Machine.step_raises (raises ▸ step)
  · intro f ht
    refine ⟨fun n s' t ha => ha.falls h isOpen fits, ?_⟩
    obtain ⟨s', ha⟩ := Along.exists_falls h isOpen fits ht (Nat.le_refl _)
    exact ⟨s', _, drop_framesToFall fits, ha⟩
  · intro s' later
    obtain ⟨timeouts, after, past, none⟩ := h.rest answered later
    have more : m ∈ s'.past := past ▸ List.mem_append_right _ hm
    exact ⟨((h.later later).1.reachable.told more hc).2, timeouts, after, past, none⟩

/-- Performing a request whose first attempt is tried again, with a continuation that raises a
fault. -/
def raisingOnce : Machine :=
  Machine.doing
    { requests := #[some { url := text "u", method := text "GET" }]
      classifiers := #[.granting 1]
      transport := { script := [.deliver (.failure ⟨.timeout, []⟩),
        .deliver (.reply (.ofBytes 200 [] (text "ok")))] } }
    (.perform ⟨0, .raise (text "stop"), .rest⟩) []

/-- It is about to be told the response. -/
def tellingOnce : Machine := Machine.run 19 raisingOnce

/-- The continuation has raised its fault. -/
def raisedOnce : Network where
  world := tellingOnce.step.step.world
  threads := [tellingOnce.step.step.thread]
  past := tellingOnce.step :: tellingOnce :: trail 19 raisingOnce

theorem raisedOnce_served : raisedOnce.Served := by
  have fresh : raisingOnce.world.Fresh := by
    refine ⟨rfl, rfl, rfl, rfl, ?_⟩
    intro e he
    cases he
    rfl
  have told : (alone 19 raisingOnce).Served := .alone fresh _ _
  have reacts := told.next (.move (l := []) (.step tellingOnce))
  exact reacts.next (.move (l := []) (.step tellingOnce.step))

/-- The fault falls through the turn, the transport, the attempt and the loop of attempts. -/
theorem raised_falls_raisingOnce :
    raisedOnce.Served ∧ tellingOnce ∈ raisedOnce.past ∧ framesToFall tellingOnce.stack = 4 ∧
      ⟨.raised (.runtime (text "stop")), tellingOnce.stack⟩ ∈ raisedOnce.threads ∧
      ∃ result s', tellingOnce.control = .run (.complete 0 result) ∧
        Along raisedOnce ⟨.raised (.runtime (text "stop")), tellingOnce.stack⟩ 4 s'
          ⟨.raised (.runtime (text "stop")), []⟩ := by
  have past : tellingOnce ∈ raisedOnce.past := List.mem_cons_of_mem _ List.mem_cons_self
  have tells : tellingOnce.telling? = some (0, .ok ⟨200, [], text "ok", false, 0⟩) := by
    decide +kernel
  have hc := Machine.control_of_telling tells
  have frames : framesToFall tellingOnce.stack = 4 := by decide +kernel
  have stops : (tellingOnce.world.callAt 0).onSuccess = .raise (text "stop") := by decide +kernel
  obtain ⟨-, raises, falls, -⟩ := raisedOnce_served.raised_falls past hc
  have raised : ⟨.raised (.runtime (text "stop")), tellingOnce.stack⟩ ∈ raisedOnce.threads :=
    List.mem_singleton.2 (raises _ stops).symm
  obtain ⟨through, s', bottom, -, along⟩ := falls _ raised
  have same := through _ _ _ along (Nat.le_refl _)
  have below : tellingOnce.stack.drop 4 = [] := by
    have size : tellingOnce.stack.length = 4 := by decide +kernel
    exact List.drop_eq_nil_of_le (Nat.le_of_eq size)
  rw [same, frames, below] at along
  exact ⟨raisedOnce_served, past, frames, raised, _, s', hc, along⟩

end Network

end RequestFlow
