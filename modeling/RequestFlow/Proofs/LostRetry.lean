import RequestFlow.Proofs.Trampoline

/-!
# A retry that is lost

The loop of a call takes an attempt off the count only when the attempt returns.  A fault that the
transport raises after the outcome passes the loop and leaves the count as it is, so a retry that was
registered, or will be, finds the count above zero for good and never begins.  This is the only way to
lose a retry: a granted retry is begun, unless the attempt that it was granted for let a fault pass.

    answered ↔ no attempt was both granted a retry and thrown late      (Reachable.retry_lost_iff)
-/

namespace RequestFlow

namespace Machine

/-- An attempt begins on the loop, and a fault leaves it, and never both. -/
theorem begins_add_leaves_le {past : List Machine} {m : Machine} (hm : m.Fits past) (c : Nat) :
    m.does (.begin c) + m.does (.leave c) ≤ m.loops c := by
  have either := m.does_or (.begin c) (.leave c) (by simp)
  have begins := atTransport_add_begins_le hm c
  by_cases h : m.act = .leave c
  · have top : ∃ rest, m.stack = .attempts c :: rest := by
      unfold act at h
      split at h <;> simp_all
    obtain ⟨rest, hs⟩ := top
    have pos : 0 < m.loops c := by simp [loops, hs, Frame.isLoopOf]
    omega
  · rw [does_of_ne h]
    omega

/-- A fault that passes a resolved attempt arrives at the loop. -/
theorem Moves.throwsLate {past : List Machine} {m m' : Machine} (h : m.Moves m') (hm : m.Fits past)
    {a : Nat} (hl : m.ThrowsLate a) : Frame.sending a ∈ m.stack ∧
      (∃ f, m'.control = .raised f) ∧ ∃ rest, m'.stack = .attempts (m.world.callOf a) :: rest := by
  obtain ⟨f, rest, hc, hs, hr⟩ := throwsLate_iff.1 hl
  cases h with
  | judge w c context answer stack => cases hc
  | step =>
    obtain ⟨w, control, stack⟩ := m
    have hc : control = .raised f := hc
    have hs : stack = .sending a :: rest := hs
    subst hc hs
    obtain ⟨-, below, hb⟩ := hm.stack.1
    have stepped : Machine.step ⟨w, .raised f, .sending a :: rest⟩ = raising w f rest := if_pos hr
    rw [stepped]
    exact ⟨by simp, ⟨f, rfl⟩, below, hb⟩

end Machine

namespace Network

/-- The classifier decided on a retry when the attempt was the latest of the call. -/
def Granted (s : Network) (c a : Nat) : Prop :=
  ∃ m ∈ s.past, m.act = .grant c ∧ m.world.IsLast c a

/-- The transport raised a fault for the attempt after it was resolved. -/
def ThrownLate (s : Network) (a : Nat) : Prop := ∃ m ∈ s.past, m.ThrowsLate a

/-- A fault is about to leave the loop of the call. -/
def Leaving (s : Network) (c : Nat) : Prop :=
  ∃ t ∈ s.threads, (∃ f, t.control = .raised f) ∧ ∃ rest, t.stack = .attempts c :: rest

/-- Decisions to try again that no attempt has followed, or the first attempt has not. -/
def Owed (s : Network) (c : Nat) : Prop :=
  s.world.attemptsOf c < s.times (.grant c) + s.world.performed c

/-- What is known of attempts that let a fault pass, and of those that were granted a retry. -/
structure Traced (s : Network) : Prop where
  late : ∀ m ∈ s.past, ∀ a, m.ThrowsLate a → s.world.IsLast (m.world.callOf a) a ∧
    (0 < s.times (.leave (m.world.callOf a)) ∨ s.Leaving (m.world.callOf a))
  granted : ∀ c a, s.Granted c a → a < s.world.attempts.size ∧ s.world.callOf a = c ∧
    (s.world.IsLast c a → s.Owed c)
  owed : ∀ c, s.Owed c → ∀ a, s.world.IsLast c a → s.Granted c a

instance (s : Network) (c a : Nat) : Decidable (s.Granted c a) :=
  inferInstanceAs (Decidable (∃ m ∈ s.past, _))

instance (s : Network) (a : Nat) : Decidable (s.ThrownLate a) :=
  inferInstanceAs (Decidable (∃ m ∈ s.past, _))

/-! ## Lemmas -/

variable {s : Network}

theorem Granted.mono {s' : Network} {c a : Nat} (h : s.Granted c a) (hp : s.past ⊆ s'.past) :
    s'.Granted c a := by
  obtain ⟨m, hm, hg⟩ := h
  exact ⟨m, hp hm, hg⟩

/-- While a fault is about to leave the loop, no attempt begins. -/
theorem Sane.not_leaving (h : s.Sane) {t : Thread} (ht : t ∈ s.threads) {c : Nat}
    (hb : (t.on s.world).act = .begin c) : ¬ s.Leaving c := by
  rintro ⟨u, hu, ⟨f, hc⟩, rest, hs⟩
  have raised : (u.on s.world).act = .leave c := by simp [Machine.act, Thread.on, hc, hs]
  have begins := le_total ht fun m => m.does (.begin c)
  have leaves := le_total hu fun m => m.does (.leave c)
  rw [Machine.does_of_eq hb] at begins
  rw [Machine.does_of_eq raised] at leaves
  have both : s.total (fun m => m.does (.begin c) + m.does (.leave c)) ≤
      s.total fun m => m.loops c :=
    total_mono fun t ht => Machine.begins_add_leaves_le (h.fits t ht) c
  rw [total_add] at both
  have := h.loops_le_one c
  omega

theorem Sane.attemptsOf_le (h : s.Sane) (c : Nat) :
    s.world.attemptsOf c ≤ s.times (.grant c) + s.world.performed c := by
  have := h.attemptsOf_add c
  omega

section

variable {w : World} {l r : List Thread} {t : Thread} {past : List Machine} {m : Machine}
  (sane : Sane ⟨w, l ++ t :: r, past⟩) (hs : (t.on w).Sound past m)
include sane hs

/-- A latest attempt that let a fault pass stays the latest, as the fault goes on to the loop. -/
theorem Traced.late_move (h : Traced ⟨w, l ++ t :: r, past⟩) {c a : Nat} (last : w.IsLast c a)
    (gone : 0 < times ⟨w, l ++ t :: r, past⟩ (.leave c) ∨ Leaving ⟨w, l ++ t :: r, past⟩ c) :
    m.world.IsLast c a ∧ (0 < times ⟨m.world, l ++ m.thread :: r, t.on w :: past⟩ (.leave c) ∨
      Leaving ⟨m.world, l ++ m.thread :: r, t.on w :: past⟩ c) := by
  have left := times_cons m.world (l ++ m.thread :: r) (t.on w) past (.leave c)
  constructor
  · refine hs.isLast last fun hb => ?_
    rcases gone with left | leaving
    · have begins := le_total (s := ⟨w, l ++ t :: r, past⟩) (t := t) (by simp) fun m => m.does (.begin c)
      rw [Machine.does_of_eq hb] at begins
      have := sane.atTransport_add_begins_le c
      have := sane.loops_le_one c
      omega
    · exact sane.not_leaving (t := t) (by simp) hb leaving
  · rcases gone with gone | ⟨u, hu, hc, rest, hst⟩
    · refine Or.inl ?_
      rw [left]
      exact Nat.lt_of_lt_of_le gone (Nat.le_add_right _ _)
    · simp only [List.mem_append, List.mem_cons] at hu
      rcases hu with hu | rfl | hu
      · exact Or.inr ⟨u, by simp [hu], hc, rest, hst⟩
      · obtain ⟨f, hc⟩ := hc
        have act : (u.on w).act = .leave c := by simp [Machine.act, Thread.on, hc, hst]
        refine Or.inl ?_
        rw [left, Machine.does_of_eq act]
        exact Nat.succ_pos _
      · exact Or.inr ⟨u, by simp [hu], hc, rest, hst⟩

omit sane in
/-- The latest attempt of a call was the latest before, unless the step began another. -/
theorem isLast_before {c a : Nat} (h : m.world.IsLast c a) (old : a < w.attempts.size) :
    w.IsLast c a := by
  obtain ⟨-, hc, last⟩ := h
  have callOf (b : Nat) (hb : b < w.attempts.size) : m.world.callOf b = w.callOf b :=
    hs.grows.callOf b hb
  refine ⟨old, ?_, ?_⟩
  · rw [← callOf a old]
    exact hc
  · intro b hb hbc
    refine last b (Nat.lt_of_lt_of_le hb hs.grows.attempts) ?_
    rw [callOf b hb]
    exact hbc

omit sane in
theorem performed_mono (c : Nat) : w.performed c ≤ m.world.performed c := by
  have := hs.grows.calls
  unfold World.performed
  simp only [Thread.on_world] at this
  split <;> split <;> omega

omit sane in
/-- What was owed stays owed until an attempt begins. -/
theorem Owed.move {c : Nat} (h : Owed ⟨w, l ++ t :: r, past⟩ c) (hb : (t.on w).act ≠ .begin c) :
    Owed ⟨m.world, l ++ m.thread :: r, t.on w :: past⟩ c := by
  have attempts := hs.attempts c
  have grants := times_cons m.world (l ++ m.thread :: r) (t.on w) past (.grant c)
  have performed := performed_mono hs c
  rw [Machine.does_of_ne hb] at attempts
  unfold Owed times at *
  simp only [Thread.on_world] at *
  omega

theorem Traced.granted_move (h : Traced ⟨w, l ++ t :: r, past⟩) {c a : Nat}
    (hg : Granted ⟨m.world, l ++ m.thread :: r, t.on w :: past⟩ c a) :
    a < m.world.attempts.size ∧ m.world.callOf a = c ∧
      (m.world.IsLast c a → Owed ⟨m.world, l ++ m.thread :: r, t.on w :: past⟩ c) := by
  obtain ⟨n, hn, act, last⟩ := hg
  rcases List.mem_cons.1 hn with rfl | hn
  · refine ⟨Nat.lt_of_lt_of_le last.1 hs.grows.attempts, ?_, fun _ => ?_⟩
    · rw [hs.grows.callOf a last.1]
      exact last.2.1
    · have attempts := hs.attempts c
      have grants := times_cons m.world (l ++ m.thread :: r) (t.on w) past (.grant c)
      have performed := performed_mono hs c
      have before := sane.attemptsOf_le c
      rw [Machine.does_of_ne (by simp [act])] at attempts
      rw [Machine.does_of_eq act] at grants
      unfold Owed times at *
      simp only [Thread.on_world] at *
      omega
  · obtain ⟨ha, hc, owed⟩ := h.granted c a ⟨n, hn, act, last⟩
    have ha : a < w.attempts.size := ha
    have hc : w.callOf a = c := hc
    refine ⟨Nat.lt_of_lt_of_le ha hs.grows.attempts, ?_, fun latest => ?_⟩
    · rw [hs.grows.callOf a ha]
      exact hc
    · by_cases hb : (t.on w).act = .begin c
      · obtain ⟨size, new⟩ := hs.begun c hb
        have := latest.2.2 _ size new
        exact absurd ha (Nat.not_lt.2 this)
      · exact Owed.move hs (owed (isLast_before hs latest ha)) hb

theorem Traced.owed_move (h : Traced ⟨w, l ++ t :: r, past⟩) {c a : Nat}
    (ho : Owed ⟨m.world, l ++ m.thread :: r, t.on w :: past⟩ c) (last : m.world.IsLast c a) :
    Granted ⟨m.world, l ++ m.thread :: r, t.on w :: past⟩ c a := by
  have attempts := hs.attempts c
  have grants := times_cons m.world (l ++ m.thread :: r) (t.on w) past (.grant c)
  have decided := sane.attemptsOf_add c
  have one := sane.one c
  have le := m.world.performed_le_one c
  by_cases hb : (t.on w).act = .begin c
  · -- the attempt that begins is the one that was owed, so nothing is owed afterwards
    have begins := le_total (s := ⟨w, l ++ t :: r, past⟩) (t := t) (by simp) fun m => m.does (.begin c)
    have registers := total_registers_le ⟨w, l ++ t :: r, past⟩ c
    rw [Machine.does_of_eq hb] at attempts begins
    rw [Machine.does_of_ne (by simp [hb])] at grants
    unfold Owed times waiting held at *
    simp only [Thread.on_world] at *
    omega
  · have old : a < w.attempts.size := by
      by_contra new
      obtain ⟨-, act⟩ := hs.opened a last.1 (Nat.not_lt.1 new)
      rw [last.2.1] at act
      exact hb act
    have before := isLast_before hs last old
    by_cases hg : (t.on w).act = .grant c
    · exact ⟨t.on w, List.mem_cons_self, hg, before⟩
    · have performed : w.performed c = 1 := if_pos (before.2.1 ▸ sane.valid.attempts a old)
      refine (h.owed c ?_ a before).mono (List.subset_cons_self _ _)
      rw [Machine.does_of_ne hb] at attempts
      rw [Machine.does_of_ne hg] at grants
      unfold Owed times at *
      simp only [Thread.on_world] at *
      omega

theorem Traced.move (h : Traced ⟨w, l ++ t :: r, past⟩) (ordered : Ordered ⟨w, l ++ t :: r, past⟩)
    (hm : (t.on w).Moves m) : Traced ⟨m.world, l ++ m.thread :: r, t.on w :: past⟩ := by
  refine ⟨?_, fun c a => Traced.granted_move sane hs h, fun c ho a => Traced.owed_move sane hs h ho⟩
  intro n hn a hl
  rcases List.mem_cons.1 hn with rfl | hn
  · obtain ⟨sending, raised, rest, hst⟩ := hm.throwsLate sane.own hl
    have last : w.IsLast (w.callOf a) a := ordered.sending t (by simp) a sending
    refine ⟨hs.isLast last fun hb => ?_, Or.inr ⟨m.thread, by simp, raised, rest, hst⟩⟩
    obtain ⟨f, rest, hc, -⟩ := Machine.throwsLate_iff.1 hl
    unfold Machine.act at hb
    rw [hc] at hb
    split at hb <;> simp_all
  · obtain ⟨last, gone⟩ := h.late n hn a hl
    exact Traced.late_move sane hs h last gone

end

theorem Reachable.traced (h : Reachable s) : s.Traced := by
  induction h with
  | start w h =>
    refine ⟨by simp, ?_, ?_⟩
    · rintro c a ⟨m, hm, -⟩
      simp at hm
    · rintro c - a ⟨ha, -⟩
      simp [h.attempts] at ha
  | @step s _ hr hs ih =>
    cases hs with
    | move w l t r past m hm =>
      have sound := hr.sane.sound hm
      exact Traced.move hr.sane sound ih hr.ordered hm
    | arrive _ t ht =>
      refine ⟨?_, ih.granted, ih.owed⟩
      intro m hm a hl
      obtain ⟨last, gone⟩ := ih.late m hm a hl
      refine ⟨last, gone.imp_right ?_⟩
      rintro ⟨u, hu, hc⟩
      exact ⟨u, List.mem_cons_of_mem _ hu, hc⟩
    | meanwhile _ w hm =>
      have attemptsOf (c : Nat) : w.attemptsOf c = s.world.attemptsOf c := by
        simp only [World.attemptsOf, hm.attempts]
      have performed (c : Nat) : w.performed c = s.world.performed c := by
        simp only [World.performed, hm.calls]
      have owed (c : Nat) : Owed { s with world := w } c ↔ s.Owed c := by
        unfold Owed times
        simp only [attemptsOf, performed]
      have last {c a : Nat} : w.IsLast c a ↔ s.world.IsLast c a := by
        refine ⟨?_, hm.isLast⟩
        simp only [World.IsLast, hm.attempts, hm.callOf, imp_self]
      refine ⟨?_, ?_, ?_⟩
      · intro m hmem a hl
        obtain ⟨latest, gone⟩ := ih.late m hmem a hl
        exact ⟨last.2 latest, gone⟩
      · intro c a hg
        obtain ⟨ha, hc, ho⟩ := ih.granted c a hg
        refine ⟨?_, ?_, fun latest => (owed c).2 (ho (last.1 latest))⟩
        · show a < w.attempts.size
          rw [hm.attempts]
          exact ha
        · show w.callOf a = c
          rw [hm.callOf]
          exact hc
      · intro c ho a latest
        exact ih.owed c ((owed c).1 ho) a (last.1 latest)

/-- A retry that waits at rest was left behind by a fault that an attempt let pass. -/
theorem Reachable.thrownLate_of_waiting (h : Reachable s) {c : Nat} (hr : s.Rests c)
    (hw : 0 < s.waiting c) : ∃ a, s.world.IsLast c a ∧ s.ThrownLate a := by
  have begins := hr.begins h.sane
  have loops := (h.sane.balanced c).loops
  have one := h.sane.one c
  have performed := s.world.performed_le_one c
  have stopped := hr.loops
  have left : 0 < s.times (.leave c) := by
    unfold waiting at hw
    rw [if_neg (by omega)] at loops
    omega
  rcases h.left c left with ha | ⟨m, hm, a, hl, rfl, -⟩
  · omega
  · exact ⟨a, (h.traced.late m hm a hl).1, m, hm, hl⟩

/-- **The only way to lose a retry.** For a call at rest, an attempt that was granted a retry has been
followed by another one exactly if the transport raised no fault for it after its outcome; and with
every attempt resolved and every body copied, the call was answered exactly if this holds for all its
attempts. -/
theorem Reachable.retry_lost_iff (h : Reachable s) {c : Nat} (hc : c < s.world.calls.size)
    (hr : s.Rests c) :
    (∀ a, s.Granted c a →
      ((∃ b, a < b ∧ b < s.world.attempts.size ∧ s.world.callOf b = c) ↔ ¬ s.ThrownLate a)) ∧
    (s.world.unresolved c = 0 → s.world.queuedFor c = 0 →
      (s.world.answers c = 1 ↔ ∀ a, s.Granted c a → ¬ s.ThrownLate a)) := by
  have traced := h.traced
  have decided := h.sane.attemptsOf_add c
  have one := h.sane.one c
  have performed : s.world.performed c = 1 := if_pos hc
  have registers := s.total_registers_le c
  have held := hr.held
  have owed : s.Owed c ↔ 0 < s.waiting c := by
    unfold Owed
    omega
  have last {a : Nat} (ha : s.ThrownLate a) (hca : s.world.callOf a = c) : s.world.IsLast c a := by
    obtain ⟨m, hm, hl⟩ := ha
    have latest := (traced.late m hm a hl).1
    obtain rfl := latest.2.1.symm.trans hca
    exact latest
  constructor
  · intro a hg
    obtain ⟨ha, hca, ho⟩ := traced.granted c a hg
    constructor
    · rintro ⟨b, hab, hb, hbc⟩ late
      exact absurd ((last late hca).2.2 b hb hbc) (Nat.not_le.2 hab)
    · intro calm
      by_contra followed
      have latest : s.world.IsLast c a := by
        refine ⟨ha, hca, ?_⟩
        intro b hb hbc
        by_contra later
        exact followed ⟨b, Nat.not_le.1 later, hb, hbc⟩
      obtain ⟨a', hl, late⟩ := h.thrownLate_of_waiting hr (owed.1 (ho latest))
      exact calm (latest.eq hl ▸ late)
  · intro hu hq
    unfold Network.held at held
    constructor
    · intro answered a hg late
      obtain ⟨ha, hca, ho⟩ := traced.granted c a hg
      have := owed.1 (ho (last late hca))
      omega
    · intro calm
      by_contra unanswered
      have waits : 0 < s.waiting c := by omega
      obtain ⟨a, latest, late⟩ := h.thrownLate_of_waiting hr waits
      exact calm a (traced.owed c (owed.2 waits) a latest) late

/-- Performing a request whose transport raises a fault after it has delivered a timeout. -/
def faultAfterTimeout : Machine :=
  Machine.doing
    { requests := #[some { url := text "u", method := text "GET" }]
      transport := { script := [
        { deliveries := [{ outcome := .failure ⟨.timeout, []⟩ }]
          fault := some (.runtime (text "boom")) },
        .deliver (.reply (.ofBytes 200 [] (text "ok")))] } }
    (.perform ⟨0, .rest, .rest⟩) []

theorem faultAfterTimeout_fresh : faultAfterTimeout.world.Fresh := by
  refine ⟨rfl, rfl, rfl, rfl, ?_⟩
  intro e he
  cases he
  rfl

theorem retry_lost_iff_faultAfterTimeout :
    (alone 40 faultAfterTimeout).Reachable ∧
      0 < (alone 40 faultAfterTimeout).world.calls.size ∧ (alone 40 faultAfterTimeout).Rests 0 ∧
      (alone 40 faultAfterTimeout).Granted 0 0 ∧ (alone 40 faultAfterTimeout).ThrownLate 0 ∧
      (alone 40 faultAfterTimeout).world.answers 0 ≠ 1 := by
  have reachable : (alone 40 faultAfterTimeout).Reachable := .alone faultAfterTimeout_fresh _ _
  have performed : 0 < (alone 40 faultAfterTimeout).world.calls.size := by decide +kernel
  have rests : (alone 40 faultAfterTimeout).Rests 0 := by decide +kernel
  have granted : (alone 40 faultAfterTimeout).Granted 0 0 := by decide +kernel
  have late : (alone 40 faultAfterTimeout).ThrownLate 0 := by decide +kernel
  have condition := (reachable.retry_lost_iff performed rests).2 (by decide +kernel) (by decide +kernel)
  exact ⟨reachable, performed, rests, granted, late, fun answered => condition.1 answered 0 granted late⟩

/-- The second turn of the script is never taken: the retry was granted, and the call is at rest with
its one attempt resolved and unanswered. -/
theorem faultAfterTimeout_unanswered :
    ∃ s : Network, s.Reachable ∧ s.Rests 0 ∧ s.world.unresolved 0 = 0 ∧ s.world.queuedFor 0 = 0 ∧
      s.times (.grant 0) = 1 ∧ s.world.attemptsOf 0 = 1 ∧ s.world.answers 0 = 0 := by
  refine ⟨alone 40 faultAfterTimeout, .alone faultAfterTimeout_fresh _ _, ?_⟩
  decide +kernel

end Network

end RequestFlow
