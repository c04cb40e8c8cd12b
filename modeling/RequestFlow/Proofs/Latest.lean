import RequestFlow.Proofs.Balance

/-!
# The latest attempt

Only the latest attempt of a call can be at the transport or wait for its outcome: when the next one
begins, every earlier one was resolved and has returned.

    an attempt that begins finds the transport free and every earlier attempt resolved
                                                                        (Sane.free_at_begin)
    an attempt at the transport, or without an outcome, is the latest   (Reachable.ordered)
-/

namespace RequestFlow

/-- The attempt is the latest of the call. -/
def World.IsLast (w : World) (c a : Nat) : Prop :=
  a < w.attempts.size ∧ w.callOf a = c ∧ ∀ b < w.attempts.size, w.callOf b = c → b ≤ a

instance (w : World) (c a : Nat) : Decidable (w.IsLast c a) :=
  inferInstanceAs (Decidable (_ ∧ _ ∧ ∀ b < w.attempts.size, _))

/-- Attempts at the transport and attempts without an outcome are the latest of their calls. -/
structure Network.Ordered (s : Network) : Prop where
  sending : ∀ t ∈ s.threads, ∀ a, .sending a ∈ t.stack → s.world.IsLast (s.world.callOf a) a
  unresolved : ∀ a < s.world.attempts.size, (s.world.attemptAt a).resolved = false →
    s.world.IsLast (s.world.callOf a) a

/-! ## Lemmas -/

theorem World.IsLast.eq {w : World} {c a b : Nat} (ha : w.IsLast c a) (hb : w.IsLast c b) : a = b :=
  Nat.le_antisymm (hb.2.2 a ha.1 ha.2.1) (ha.2.2 b hb.1 hb.2.1)

theorem Meanwhile.isLast {w w' : World} (hm : Meanwhile w w') {c a : Nat} (h : w.IsLast c a) :
    w'.IsLast c a := by
  obtain ⟨ha, hc, last⟩ := h
  refine ⟨?_, ?_, ?_⟩
  · rw [hm.attempts]
    exact ha
  · rw [hm.callOf]
    exact hc
  · intro b hb hbc
    rw [hm.attempts] at hb
    rw [hm.callOf] at hbc
    exact last b hb hbc

theorem World.unresolved_eq_zero {w : World} {c : Nat} (h : w.unresolved c = 0) {a : Nat}
    (ha : a < w.attempts.size) (hc : w.callOf a = c) : (w.attemptAt a).resolved = true := by
  have at' : w.attemptAt a = w.attempts[a] := by simp [World.attemptAt, ha]
  have := List.countP_eq_zero.1 h w.attempts[a] (Array.getElem_mem_toList ha)
  rw [World.callOf, at'] at hc
  rw [at']
  simpa [hc] using this

theorem mem_sending_lt {w : World} {stack : List Frame} (h : StackFits w stack) {a : Nat}
    (ha : .sending a ∈ stack) : a < w.attempts.size := by
  induction stack with
  | nil => cases ha
  | cons f stack ih =>
    rcases List.mem_cons.1 ha with rfl | ha
    · exact h.1.1
    · exact ih h.2 ha

namespace Machine

variable {past : List Machine} {m m' : Machine} (hs : m.Sound past m')
include hs

/-- An attempt stays the latest of its call until the next one begins. -/
theorem Sound.isLast {c a : Nat} (h : m.world.IsLast c a) (hb : m.act ≠ .begin c) :
    m'.world.IsLast c a := by
  obtain ⟨ha, hc, last⟩ := h
  refine ⟨Nat.lt_of_lt_of_le ha hs.grows.attempts, ?_, ?_⟩
  · rw [hs.grows.callOf a ha]
    exact hc
  · intro b hb' hbc
    by_cases old : b < m.world.attempts.size
    · exact last b old (by rw [← hs.grows.callOf b old]; exact hbc)
    · obtain ⟨-, act⟩ := hs.opened b hb' (Nat.not_lt.1 old)
      exact absurd (hbc ▸ act) hb

/-- An attempt that a step opens is the latest of its call. -/
theorem Sound.isLast_opened {a : Nat} (ha : a < m'.world.attempts.size)
    (new : m.world.attempts.size ≤ a) : m'.world.IsLast (m'.world.callOf a) a := by
  refine ⟨ha, rfl, ?_⟩
  intro b hb _
  obtain ⟨rfl, -⟩ := hs.opened a ha new
  by_cases old : b < m.world.attempts.size
  · exact Nat.le_of_lt old
  · exact Nat.le_of_eq (hs.opened b hb (Nat.not_lt.1 old)).1

end Machine

namespace Network

variable {s : Network}

/-- An attempt begins when the transport is free of its call and all attempts before are resolved. -/
theorem Sane.free_at_begin (h : s.Sane) {t : Thread} (ht : t ∈ s.threads) {c : Nat}
    (hb : (t.on s.world).act = .begin c) :
    s.total (fun m => m.atTransport c) = 0 ∧ s.world.unresolved c = 0 := by
  have begins := le_total ht fun m => m.does (.begin c)
  rw [Machine.does_of_eq hb] at begins
  have below := h.atTransport_add_begins_le c
  have loops := h.loops_le_one c
  have one := h.one c
  have performed := s.world.performed_le_one c
  unfold waiting at one
  refine ⟨by omega, by omega⟩

theorem total_atTransport_pos {t : Thread} (ht : t ∈ s.threads) {a : Nat}
    (ha : .sending a ∈ t.stack) : 0 < s.total fun m => m.atTransport (s.world.callOf a) := by
  have := le_total ht fun m => m.atTransport (s.world.callOf a)
  have pos : 0 < (t.on s.world).atTransport (s.world.callOf a) :=
    List.countP_pos_iff.2 ⟨_, ha, by simp [Frame.isSendOf]⟩
  omega

theorem Ordered.move {w : World} {l r : List Thread} {t : Thread} {past : List Machine} {m : Machine}
    (h : Ordered ⟨w, l ++ t :: r, past⟩) (sane : Sane ⟨w, l ++ t :: r, past⟩)
    (hs : (t.on w).Sound past m) : Ordered ⟨m.world, l ++ m.thread :: r, t.on w :: past⟩ := by
  have kept {u : Thread} (hu : u ∈ l ++ t :: r) {a : Nat} (ha : .sending a ∈ u.stack) :
      m.world.IsLast (m.world.callOf a) a := by
    have last : w.IsLast (w.callOf a) a := h.sending u hu a ha
    rw [hs.grows.callOf a last.1]
    refine hs.isLast last ?_
    intro hb
    have free := sane.free_at_begin (t := t) (by simp) hb
    exact absurd free.1 (Nat.ne_of_gt (total_atTransport_pos hu ha))
  constructor
  · intro u hu a ha
    simp only [List.mem_append, List.mem_cons] at hu
    rcases hu with hu | rfl | hu
    · exact kept (List.mem_append_left _ hu) ha
    · rcases hs.sending a ha with old | rfl
      · exact kept (by simp) old
      · exact hs.isLast_opened (mem_sending_lt hs.fits.stack ha) (Nat.le_refl _)
    · exact kept (List.mem_append_right _ (List.mem_cons_of_mem _ hu)) ha
  · intro a ha hr
    by_cases old : a < w.attempts.size
    · have open' : (w.attemptAt a).resolved = false := by
        by_contra resolved
        have := hs.grows.resolved a old (by simpa using resolved)
        rw [this] at hr
        cases hr
      have last : w.IsLast (w.callOf a) a := h.unresolved a old open'
      show m.world.IsLast (m.world.callOf a) a
      rw [hs.grows.callOf a old]
      refine hs.isLast last ?_
      intro hb
      have free := sane.free_at_begin (t := t) (by simp) hb
      have := World.unresolved_eq_zero free.2 old rfl
      rw [open'] at this
      cases this
    · exact hs.isLast_opened ha (Nat.not_lt.1 old)

theorem Reachable.ordered (h : Reachable s) : s.Ordered := by
  induction h with
  | start w h => exact ⟨by simp, by simp [h.attempts]⟩
  | step hr hs ih =>
    cases hs with
    | move w l t r past m hm => exact ih.move hr.sane (hr.sane.sound hm)
    | arrive _ t ht =>
      refine ⟨?_, ih.unresolved⟩
      intro u hu a ha
      rcases List.mem_cons.1 hu with rfl | hu
      · cases ht <;> simp at ha
      · exact ih.sending u hu a ha
    | meanwhile _ w hm =>
      constructor
      · intro t ht a ha
        show w.IsLast (w.callOf a) a
        rw [hm.callOf]
        exact hm.isLast (ih.sending t ht a ha)
      · intro a ha hr
        have ha : a < w.attempts.size := ha
        have hr : (w.attemptAt a).resolved = false := hr
        rw [hm.attempts] at ha
        rw [hm.attemptAt] at hr
        show w.IsLast (w.callOf a) a
        rw [hm.callOf]
        exact hm.isLast (ih.unresolved a ha hr)

end Network

end RequestFlow
