import RequestFlow.Proofs.Requests

/-!
# Runs that leave a request to its call

In these runs nobody but the standard classifier changes the request, and a transport resolves an
attempt only after it was handed it.  They may make other calls, in any number of threads, and have
those judged by any classifier.

    an attempt is handed over once, before anything can resolve it             (Served.orderly)
    these runs are runs in which transports wait for what they are handed      (Recorded.served)
-/

namespace RequestFlow

/-- A failure of a call of the request is judged by the standard classifier. -/
def Machine.Judges (i : Nat) (m m' : Machine) : Prop :=
  ∀ c x, m.control = .run (.fail c x) → (m.world.callAt c).request = i →
    m.world.classifierOf c = .standard ∧ m' = m.step

/-- If the machine has a failure of a call of the request judged now, then by the standard classifier. -/
def Machine.isStandard (i : Nat) (m : Machine) : Bool :=
  match m.control with
  | .run (.fail c _) =>
    decide ((m.world.callAt c).request = i → m.world.classifierOf c = .standard)
  | _ => true

theorem Machine.judges_of_isStandard {i : Nat} {m : Machine} (h : m.isStandard i = true) :
    m.Judges i m.step := by
  intro c x hc request
  refine ⟨?_, rfl⟩
  unfold isStandard at h
  rw [hc] at h
  exact of_decide_eq_true h request

/-- The call is the only one of the request, if it is performed at all. -/
def World.IsOnly (w : World) (i c : Nat) : Prop :=
  ∀ d < w.calls.size, (w.callAt d).request = i ↔ d = c

instance (w : World) (i c : Nat) : Decidable (w.IsOnly i c) :=
  inferInstanceAs (Decidable (∀ d < w.calls.size, _))

namespace World

theorem IsOnly.before {w w' : World} {i c : Nat} (h : w'.IsOnly i c)
    (size : w.calls.size ≤ w'.calls.size)
    (plan : ∀ d < w.calls.size, (w'.callAt d).plan = (w.callAt d).plan) : w.IsOnly i c := by
  intro d hd
  rw [← (Call.eq_of_plan (plan d hd)).1]
  exact h d (Nat.lt_of_lt_of_le hd size)

/-- The request of the only call. -/
theorem IsOnly.requestOf {w : World} {i c : Nat} (only : w.IsOnly i c) (hc : c < w.calls.size)
    {p : Request} (stored : w.requestAt? i = some p) : w.requestOf c = p := by
  rw [World.requestOf, (only c hc).2 rfl, stored]
  rfl

end World

theorem Meanwhile.isOnly {w w' : World} (h : Meanwhile w w') {i c : Nat} (only : w'.IsOnly i c) :
    w.IsOnly i c :=
  only.before h.grows.calls fun d _ => by rw [World.callAt, World.callAt, h.calls]

namespace Network

/-- How often the attempt was handed to the transport. -/
def handed (s : Network) (a : Nat) : Nat := (s.past.map fun m => m.hands a).sum

/-- What may come next when a transport resolves only what it was handed. -/
inductive Course : Network → Network → Prop
  | move {w : World} {l rest : List Thread} {t : Thread} {past : List Machine} {m : Machine}
    (hm : (t.on w).Moves m) :
    Course ⟨w, l ++ t :: rest, past⟩ ⟨m.world, l ++ m.thread :: rest, t.on w :: past⟩
  | arrive {s : Network} (t : Thread) (ht : Arrival s.world t)
    (hh : ∀ a ∈ (t.on s.world).turns, 0 < s.handed a) : Course s { s with threads := t :: s.threads }
  | meanwhile {s : Network} (w : World) (hw : Meanwhile s.world w) : Course s { s with world := w }

/-- A run in which transports resolve only what they were handed. -/
inductive Served : Network → Prop
  | start (w : World) (h : w.Fresh) : Served { world := w }
  | next {s s' : Network} (h : Served s) (hs : Course s s') : Served s'

inductive Recorded (i : Nat) (r : Request) : Network → Prop
  | start (w : World) (h : w.Fresh) (hr : w.requestAt? i = some r) : Recorded i r { world := w }
  | move {w : World} {l rest : List Thread} {t : Thread} {past : List Machine} {m : Machine}
    (h : Recorded i r ⟨w, l ++ t :: rest, past⟩) (hm : (t.on w).Moves m)
    (hj : (t.on w).Judges i m) : Recorded i r ⟨m.world, l ++ m.thread :: rest, t.on w :: past⟩
  | arrive {s : Network} (h : Recorded i r s) (t : Thread) (ht : Arrival s.world t)
    (hh : ∀ a ∈ (t.on s.world).turns, 0 < s.handed a) :
    Recorded i r { s with threads := t :: s.threads }
  | meanwhile {s : Network} (h : Recorded i r s) (w : World) (hw : Meanwhile s.world w)
    (hr : w.requestAt? i = s.world.requestAt? i) : Recorded i r { s with world := w }

/-- Attempts are handed over once, and resolved after that. -/
structure Orderly (s : Network) : Prop where
  once : ∀ a, s.handed a + s.total (fun m => m.hands a) ≤ 1
  within : ∀ a, s.world.attempts.size ≤ a → s.handed a = 0
  unresolved : ∀ t ∈ s.threads, ∀ a, (t.on s.world).hands a ≠ 0 →
    (s.world.attemptAt a).resolved = false
  turns : ∀ t ∈ s.threads, ∀ a ∈ (t.on s.world).turns, 0 < s.handed a

/-! ## Lemmas -/

variable {i : Nat} {q : Request} {s : Network}

theorem Served.reachable (h : Served s) : s.Reachable := by
  induction h with
  | start w h => exact .start w h
  | next h hs ih =>
    cases hs with
    | move hm => exact ih.step (.move _ _ _ _ _ _ hm)
    | arrive t ht hh => exact ih.step (.arrive _ t ht)
    | meanwhile w hw => exact ih.step (.meanwhile _ w hw)

/-- A machine that works alone resolves only what it handed over. -/
theorem Served.alone {w : World} (h : w.Fresh) (p : Performance) (n : Nat) :
    Served (alone n (Machine.doing w (.perform p) [])) := by
  have first : Served ⟨w, [⟨.run (.perform p), []⟩], []⟩ :=
    (Served.start w h).next
      (.arrive _ (.perform p) (by simp [Thread.on, Machine.turns, Control.turn?]))
  have := run_induction (P := Served) (l := []) (r := [])
    (fun past m h => h.next (.move (.step m))) n (Machine.doing w (.perform p) []) first
  rwa [List.append_nil] at this

theorem Recorded.served (h : Recorded i q s) : s.Served := by
  induction h with
  | start w h hr => exact .start w h
  | move h hm hj ih => exact ih.next (.move hm)
  | arrive h t ht hh ih => exact ih.next (.arrive t ht hh)
  | meanwhile h w hw hr ih => exact ih.next (.meanwhile w hw)

theorem Recorded.reachable (h : Recorded i q s) : s.Reachable := h.served.reachable

/-- A machine that runs by itself is recorded if its failures are judged as they should. -/
theorem Recorded.run {l rest : List Thread} {past : List Machine} (n : Nat) (m : Machine)
    (h : Recorded i q ⟨m.world, l ++ m.thread :: rest, past⟩)
    (hj : ∀ x ∈ trail n m, x.isStandard i = true) :
    Recorded i q
      ⟨(Machine.run n m).world, l ++ (Machine.run n m).thread :: rest, trail n m ++ past⟩ := by
  induction n generalizing m past with
  | zero => exact h
  | succ n ih =>
    unfold Machine.run
    unfold trail at hj ⊢
    split
    · exact h
    · next busy =>
      rw [if_neg busy] at hj
      have := ih m.step
        (.move h (.step m)
          (Machine.judges_of_isStandard (hj m (List.mem_append_right _ (List.mem_singleton_self m)))))
        fun x hx => hj x (List.mem_append_left _ hx)
      rwa [List.append_assoc, List.singleton_append]

theorem Recorded.alone {w : World} (h : w.Fresh) (hr : w.requestAt? i = some q) (p : Performance)
    (n : Nat) (hj : ∀ x ∈ trail n (Machine.doing w (.perform p) []), x.isStandard i = true) :
    Recorded i q (alone n (Machine.doing w (.perform p) [])) := by
  have first : Recorded i q ⟨w, [⟨.run (.perform p), []⟩], []⟩ :=
    (Recorded.start w h hr).arrive _ (.perform p) (by simp [Thread.on, Machine.turns, Control.turn?])
  have := Recorded.run (l := []) n (Machine.doing w (.perform p) []) first hj
  rwa [List.append_nil] at this

theorem handed_cons (w : World) (l : List Thread) (m : Machine) (past : List Machine) (a : Nat) :
    handed ⟨w, l, m :: past⟩ a = m.hands a + (past.map fun m => m.hands a).sum := by
  simp [handed]

/-- Who is about to hand over an attempt has it at the transport. -/
theorem hands_inside {past : List Machine} {m : Machine} (hm : m.Fits past) {a : Nat}
    (ha : m.hands a ≠ 0) : a < m.world.attempts.size ∧ .sending a ∈ m.stack := by
  obtain ⟨headers, hc⟩ := Machine.hands_pos ha
  have fits := hm.control
  rw [hc] at fits
  obtain ⟨rest, hs⟩ := fits
  have top := hm.stack
  rw [hs] at top
  exact ⟨top.1.1, by simp [hs]⟩

section

variable {w : World} {l r : List Thread} {t : Thread} {past : List Machine} {m : Machine}

/-- Another thread's attempt is not resolved before it is handed over. -/
theorem Orderly.still_unresolved (h : Orderly ⟨w, l ++ t :: r, past⟩)
    (sane : Sane ⟨w, l ++ t :: r, past⟩) (hm : (t.on w).Moves m) {u : Thread} (hu : u ∈ l ++ r)
    {a : Nat} (ha : (u.on w).hands a ≠ 0) : (m.world.attemptAt a).resolved = false := by
  have member : u ∈ l ++ t :: r := mem_others hu
  obtain ⟨inside, top⟩ := hands_inside (sane.others hu) ha
  by_contra resolved
  rcases hm.resolved inside (h.unresolved u member a ha) (by simpa using resolved) with
    ⟨o, hc⟩ | ⟨f, rest, hc, hs⟩
  · -- an outcome is delivered for attempts that were handed over before
    have turn : a ∈ (t.on w).turns := by
      have hc : t.control = .run (.deliver a o) := hc
      simp [Thread.on, Machine.turns, hc, Control.turn?]
    have before := h.turns t (by simp) a turn
    have own : (u.on w).hands a ≤ Network.total ⟨w, l ++ t :: r, past⟩ fun m => m.hands a :=
      le_total (s := ⟨w, l ++ t :: r, past⟩) member fun m => m.hands a
    have := h.once a
    omega
  · -- a fault reaches the one attempt of the call that is at the transport
    have hs : t.stack = .sending a :: rest := hs
    have own : 0 < (t.on w).atTransport (w.callOf a) := by
      simp [Thread.on, Machine.atTransport, hs, Frame.isSendOf]
    have other : 0 < (u.on w).atTransport (w.callOf a) :=
      List.countP_pos_iff.2 ⟨_, top, by simp [Frame.isSendOf]⟩
    have below := sane.atTransport_add_begins_le (w.callOf a)
    have loops := sane.loops_le_one (w.callOf a)
    have all : Network.total ⟨w, l ++ t :: r, past⟩ (fun m => m.atTransport (w.callOf a)) ≤
        (t.on w).atTransport (w.callOf a) := by omega
    have none := others_eq_zero all hu
    omega

theorem Orderly.move (h : Orderly ⟨w, l ++ t :: r, past⟩) (sane : Sane ⟨w, l ++ t :: r, past⟩)
    (hm : (t.on w).Moves m) : Orderly ⟨m.world, l ++ m.thread :: r, t.on w :: past⟩ := by
  have sound := sane.sound hm
  have total (a : Nat) : Network.total ⟨m.world, l ++ m.thread :: r, t.on w :: past⟩
      (fun m => m.hands a) + (t.on w).hands a =
        Network.total ⟨w, l ++ t :: r, past⟩ (fun m => m.hands a) + m.hands a :=
    total_move (fun m => m.hands a) fun _ _ => rfl
  have once (a : Nat) : handed ⟨m.world, l ++ m.thread :: r, t.on w :: past⟩ a +
      Network.total ⟨m.world, l ++ m.thread :: r, t.on w :: past⟩ (fun m => m.hands a) ≤ 1 := by
    have before := h.once a
    have total := total a
    have le := m.hands_le_one a
    rw [handed_cons]
    simp only [handed] at before
    by_cases hands : m.hands a = 0
    · omega
    · -- an attempt that begins is a new one
      obtain ⟨rfl, -, -⟩ := hm.hands hands
      have none := h.within _ (Nat.le_refl _)
      have free : Network.total ⟨w, l ++ t :: r, past⟩
          (fun m => m.hands w.attempts.size) = 0 := by
        refine total_eq_zero fun u hu => ?_
        by_contra some
        exact Nat.lt_irrefl _ (hands_inside (sane.fits u hu) some).1
      simp only [handed, Thread.on_world] at *
      omega
  refine ⟨once, ?_, ?_, ?_⟩
  · intro a ha
    have old : (t.on w).world.attempts.size ≤ a := Nat.le_trans sound.grows.attempts ha
    have none := h.within a old
    rw [handed_cons]
    simp only [handed] at none
    have : (t.on w).hands a = 0 := by
      by_contra some
      exact Nat.lt_irrefl _ (Nat.lt_of_lt_of_le (hands_inside sane.own some).1 old)
    omega
  · intro u hu a ha
    rcases mem_moved hu with rfl | hu
    · exact (hm.hands ha).2.1
    · exact h.still_unresolved sane hm hu ha
  · intro u hu a ha
    rw [handed_cons]
    rcases mem_moved hu with rfl | hu
    · rcases hm.turns ha with old | now
      · have := h.turns t (by simp) a old
        simp only [handed] at this
        omega
      · omega
    · have := h.turns u (mem_others hu) a ha
      simp only [handed] at this
      omega

end

theorem Orderly.arrive (h : s.Orderly) {t : Thread} (ht : Arrival s.world t)
    (hh : ∀ a ∈ (t.on s.world).turns, 0 < s.handed a) :
    Orderly { s with threads := t :: s.threads } := by
  have none (a : Nat) : (t.on s.world).hands a = 0 := by cases ht <;> rfl
  refine ⟨fun a => ?_, h.within, ?_, ?_⟩
  · have := h.once a
    simp only [handed, total, List.map_cons, List.sum_cons, none] at this ⊢
    omega
  · intro u hu a ha
    rcases List.mem_cons.1 hu with rfl | hu
    · exact absurd (none a) ha
    · exact h.unresolved u hu a ha
  · intro u hu a ha
    rcases List.mem_cons.1 hu with rfl | hu
    · exact hh a ha
    · exact h.turns u hu a ha

theorem Orderly.meanwhile (h : s.Orderly) {w : World} (hw : Meanwhile s.world w) :
    Orderly { s with world := w } := by
  refine ⟨h.once, ?_, ?_, h.turns⟩
  · intro a ha
    exact h.within a (by rwa [← hw.attempts])
  · intro t ht a ha
    rw [hw.attemptAt]
    exact h.unresolved t ht a ha

theorem Served.orderly (h : Served s) : s.Orderly := by
  induction h with
  | start w h => exact ⟨by simp [handed, total], by simp [handed], by simp, by simp⟩
  | next h hs ih =>
    cases hs with
    | move hm => exact ih.move h.reachable.sane hm
    | arrive t ht hh => exact ih.arrive ht hh
    | meanwhile w hw => exact ih.meanwhile hw

theorem Recorded.orderly (h : Recorded i q s) : s.Orderly := h.served.orderly

end Network

end RequestFlow
