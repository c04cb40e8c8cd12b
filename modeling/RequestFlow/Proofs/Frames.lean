import RequestFlow.Proofs.Instructions

/-!
# What frames move

A frame that its instruction returns to, or that a fault passes.  Only the loop of attempts counts:
an attempt that returns is taken off the count of its call, and a fault that passes the loop leaves
the count as it is.  A fault reaches a loop through an attempt that was resolved before, or the call
of the loop was answered.

    a step neither loses nor doubles anything                (step_sound)
-/

namespace RequestFlow.Machine

section

variable {past : List Machine} {w : World} {stack : List Frame} (hw : w.Valid)
include hw

theorem nextAttempt_sound {a : Answer} {c : Nat}
    (hm : Fits past ⟨w, .done a, .attempts c :: stack⟩)
    (hr : Ready ⟨w, .done a, .attempts c :: stack⟩) :
    Sound past ⟨w, .done a, .attempts c :: stack⟩ (nextAttempt w c stack) := by
  have hc : c < w.calls.size := hm.stack.1.1
  have recount := setCall_recount hw ((w.callAt c).retire).2 hc rfl
  have busy : w.pendingOf c ≠ 0 := by
    intro h
    have := hr.idle c h
    simp [loops, Frame.isLoopOf] at this
  have retires (d : Nat) :
      does ⟨w, .done a, .attempts c :: stack⟩ (.retire d) = if c = d then 1 else 0 := by
    simp [does, act]
  have opens (d : Nat) : opens ⟨w, .done a, .attempts c :: stack⟩ d = 0 := by
    simp [Machine.opens, act]
  have registers (d : Nat) : does ⟨w, .done a, .attempts c :: stack⟩ (.register d) = 0 :=
    does_of_ne (by simp [act])
  have pending (d : Nat) : (w.setCall c ((w.callAt c).retire).2).pendingOf d +
      does ⟨w, .done a, .attempts c :: stack⟩ (.retire d) =
      w.pendingOf d + does ⟨w, .done a, .attempts c :: stack⟩ (.register d) := by
    rw [retires, registers, World.pendingOf, w.callAt_setCall _ hc]
    split
    · next h =>
      rw [← h]
      show (w.pendingOf c - 1) + 1 = w.pendingOf c
      omega
    · rfl
  unfold nextAttempt Call.retire
  dsimp only
  split
  · next more =>
    have more : w.pendingOf c ≠ 1 := by simpa [World.pendingOf] using more
    have closes (d : Nat) : closes ⟨w, .done a, .attempts c :: stack⟩ d = 0 := by
      simp only [Machine.closes, act, Act.retire.injEq]
      refine if_neg ?_
      rintro ⟨rfl, h⟩
      exact more h
    refine .of_recount recount (by simp [act]) pending ?_ (by simp [act, doing]) ?_ ?_
      (fun _ h => h) ⟨hm.stack.mono recount.grows, stack, rfl⟩
    · intro d
      rw [registers]
      rfl
    · intro d
      rw [closes, opens]
      rfl
    · intro d
      rw [closes, opens, retires]
      simp [does, act, doing]
  · next last =>
    have last : w.pendingOf c = 1 := by simpa [World.pendingOf] using last
    have closes (d : Nat) : closes ⟨w, .done a, .attempts c :: stack⟩ d = if c = d then 1 else 0 := by
      simp only [Machine.closes, act, Act.retire.injEq]
      by_cases h : c = d
      · subst h
        simp [last]
      · simp [h]
    have plain := @act_of_plain (finished (w.setCall c ((w.callAt c).retire).2) stack) trivial
    refine .of_recount recount (by simp [act]) pending ?_ (fun d => (plain d).2) ?_ ?_
      (fun _ h => List.mem_cons_of_mem _ h) ⟨hm.stack.2.mono recount.grows, trivial⟩
    · intro d
      rw [registers]
      rfl
    · intro d
      rw [closes, opens]
      simp [loops, finished, Frame.isLoopOf, List.countP_cons]
    · intro d
      rw [closes, opens, retires, Nat.zero_add]
      exact Nat.add_eq_right.2 (does_of_ne (plain d).1)

/-- Leaving a frame that is no loop of attempts. -/
theorem pop {w' : World} {m' : Machine} {control : Control} {f : Frame} (hk : w.Keeps w')
    (hw' : m'.world = w') (hstack : m'.stack = stack)
    (hcontrol : ∀ i, control ≠ .run i) (hf : ∀ c, f ≠ .attempts c)
    (hp : m'.control.IsPlain) (hh : ∀ c, m'.inHand c = 0)
    (hm : Fits past ⟨w, control, f :: stack⟩)
    (hc : m'.control.Fits (⟨w, control, f :: stack⟩ :: past) w' stack) :
    Sound past ⟨w, control, f :: stack⟩ m' := by
  subst hw' hstack
  refine .of_keeps hk hw ?_ hp ?_ ?_ (fun _ h => List.mem_cons_of_mem _ h)
    ⟨hm.stack.2.mono hk.grows, hc⟩
  · cases control with
    | run i => exact absurd rfl (hcontrol i)
    | done a => cases f <;> first | rfl | exact absurd rfl (hf _)
    | raised fault => cases f <;> first | rfl | exact absurd rfl (hf _)
  · intro c
    cases f <;> first | exact absurd rfl (hf _) | simp [loops, Frame.isLoopOf]
  · intro c
    rw [hh]
    cases control with
    | run i => exact absurd rfl (hcontrol i)
    | done a => rfl
    | raised fault => rfl

theorem resume_sound {a : Answer} {f : Frame} (hm : Fits past ⟨w, .done a, f :: stack⟩)
    (hr : Ready ⟨w, .done a, f :: stack⟩) :
    Sound past ⟨w, .done a, f :: stack⟩ (resume w f stack) := by
  have fits := hm.stack.1
  have run (i : Instr) : Control.done a ≠ .run i := by simp
  cases f with
  | attempts c => exact nextAttempt_sound hw hm hr
  | sending b => exact pop hw (.refl w) rfl rfl run (by simp) trivial (fun _ => rfl) hm trivial
  | nested => exact pop hw (.transport w _) rfl rfl run (by simp) trivial (fun _ => rfl) hm trivial
  | turn b t => exact pop hw (.refl w) rfl rfl run (by simp) trivial (fun _ => rfl) hm fits
  | holding s =>
    exact pop hw (.closeStream w s) rfl rfl run (by simp) trivial (fun _ => rfl) hm trivial
  | submitting k fails => exact fits.elim
  | reacting fault =>
    cases fault with
    | none => exact pop hw (.refl w) rfl rfl run (by simp) trivial (fun _ => rfl) hm trivial
    | some message =>
      have clear : w.Clear stack := fits
      exact pop hw (.refl w) rfl rfl run (by simp) trivial (fun _ => rfl) hm
        fun c hc => Or.inl (clear c hc)
  | answering b => exact pop hw (.refl w) rfl rfl run (by simp) trivial (fun _ => rfl) hm trivial
  | queue n => exact pop hw (.refl w) rfl rfl run (by simp) trivial (fun _ => rfl) hm fits
  | worker => exact pop hw (.refl w) rfl rfl run (by simp) trivial (fun _ => rfl) hm fits

/-- A fault that no attempt of the call was sent for resolves the attempt. -/
theorem catch_sound {fault : Fault} {a : Nat}
    (hm : Fits past ⟨w, .raised fault, .sending a :: stack⟩)
    (hr : (w.attemptAt a).resolved = false) (context : FailureContext) :
    Sound past ⟨w, .raised fault, .sending a :: stack⟩
      ⟨w.resolve a, .run (.fail ((w.resolve a).callOf a) context), stack⟩ := by
  have below : a < w.attempts.size ∧ ∃ rest, stack = .attempts (w.callOf a) :: rest := hm.stack.1
  obtain ⟨ha, rest, rfl⟩ := below
  rw [w.callOf_resolve]
  have even := resolve_even hw (a := a)
  refine .aside even rfl trivial ?_ ?_ (fun _ h => List.mem_cons_of_mem _ h)
    ⟨hm.stack.2.mono even.grows, ?_⟩
  · intro c
    simp [loops, Frame.isLoopOf, List.countP_cons]
  · intro c
    exact resolve_live ha hr c
  · refine World.HoldsCall.mono even.grows ⟨hw.attempts a ha, ?_⟩
    intro d hd
    exact Or.inl (Option.some.inj hd).symm

/-- A fault that comes after the attempt was resolved goes on to the loop. -/
theorem escape_sound {fault : Fault} {a : Nat}
    (hm : Fits past ⟨w, .raised fault, .sending a :: stack⟩)
    (hr : (w.attemptAt a).resolved = true) :
    Sound past ⟨w, .raised fault, .sending a :: stack⟩ (raising w fault stack) := by
  have below : a < w.attempts.size ∧ ∃ rest, stack = .attempts (w.callOf a) :: rest := hm.stack.1
  obtain ⟨ha, rest, rfl⟩ := below
  refine pop hw (.refl w) rfl rfl (by simp) (by simp) trivial (fun _ => rfl) hm ?_
  intro c hc
  obtain rfl : w.callOf a = c := Option.some.inj hc
  by_cases answered : 0 < w.answers (w.callOf a)
  · exact Or.inl answered
  · refine Or.inr ⟨_, List.mem_cons_self, a, throwsLate_iff.2 ⟨fault, _, rfl, rfl, hr⟩, rfl, ?_⟩
    show w.answers (w.callOf a) = 0
    omega

/-- A fault leaves a loop, and reaches no other loop but that of an answered call. -/
theorem leave_sound {fault : Fault} {c : Nat}
    (hm : Fits past ⟨w, .raised fault, .attempts c :: stack⟩) :
    Sound past ⟨w, .raised fault, .attempts c :: stack⟩ (raising w fault stack) := by
  have clear : w.Clear stack := hm.stack.1.2
  have leaves (d : Nat) :
      does ⟨w, .raised fault, .attempts c :: stack⟩ (.leave d) = if c = d then 1 else 0 := by
    simp [does, act]
  have other {a : Act} (ha : a ≠ .leave c) :
      does ⟨w, .raised fault, .attempts c :: stack⟩ a = 0 := does_of_ne ha.symm
  have closes (d : Nat) : closes ⟨w, .raised fault, .attempts c :: stack⟩ d = 0 := by
    simp [Machine.closes, act]
  have opens (d : Nat) : opens ⟨w, .raised fault, .attempts c :: stack⟩ d = 0 := by
    simp [Machine.opens, act]
  have plain := @act_of_plain (raising w fault stack) trivial
  refine ⟨(World.Keeps.refl w).grows, hw, ⟨hm.stack.2, fun d hd => Or.inl (clear d hd)⟩, ?_, ?_, ?_,
    ?_, ?_, ?_, fun _ => rfl, ?_, ?_, fun d hb => by simp [act] at hb,
    fun _ h => Or.inl (List.mem_cons_of_mem _ h)⟩
  · intro d
    rw [other (by simp), other (by simp)]
    rfl
  · intro d
    rw [other (by simp), other (by simp)]
    rfl
  · intro d
    rw [leaves, closes, opens]
    simp [loops, raising, Frame.isLoopOf, List.countP_cons]
  · intro d
    rw [closes, opens, other (by simp), does_of_ne (plain d).1]
  · intro d
    rw [other (by simp), does_of_ne (plain d).2.1]
    rfl
  · intro d
    rw [other (by simp), does_of_ne (plain d).2.2]
    rfl
  · intro d
    rw [other (by simp)]
    rfl
  · intro a ha hb
    exact absurd ha (Nat.not_lt.2 hb)

theorem unwind_sound {fault : Fault} {f : Frame}
    (hm : Fits past ⟨w, .raised fault, f :: stack⟩) :
    Sound past ⟨w, .raised fault, f :: stack⟩ (unwind w fault f stack) := by
  have fits := hm.stack.1
  have run (i : Instr) : Control.raised fault ≠ .run i := by simp
  have on (h : ownLoop (f :: stack) = ownLoop stack) (c : Nat) (hc : ownLoop stack = some c) :
      0 < w.answers c ∨
        ∃ m ∈ ⟨w, .raised fault, f :: stack⟩ :: past, Machine.LeavesUnanswered m c := by
    rcases hm.control c (h ▸ hc) with ha | ⟨m, hm, hu⟩
    · exact Or.inl ha
    · exact Or.inr ⟨m, List.mem_cons_of_mem _ hm, hu⟩
  cases f with
  | attempts c => exact leave_sound hw hm
  | sending a =>
    unfold unwind
    dsimp only
    split
    · next hr => exact escape_sound hw hm hr
    · next hr => exact catch_sound hw hm (by simpa using hr) _
  | holding s =>
    have hk := World.Keeps.closeStream w s
    refine pop hw hk rfl rfl run (by simp) trivial (fun _ => rfl) hm ?_
    intro c hc
    rcases on rfl c hc with ha | hu
    · exact Or.inl (Nat.lt_of_lt_of_le ha (hk.grows.answers c))
    · exact Or.inr hu
  | submitting k fails => exact fits.elim
  | worker =>
    have hk : w.Keeps (w.note (.log ⟨.error, text "Uncaught exception in ThreadPool task: " ++
      fault.message⟩)) := .note w fun _ => rfl
    exact pop hw hk rfl rfl run (by simp) trivial (fun _ => rfl) hm fits
  | nested | turn _ _ | reacting _ | answering _ | queue _ =>
    exact pop hw (.refl w) rfl rfl run (by simp) trivial (fun _ => rfl) hm (on rfl)

end

theorem idle_sound {past : List Machine} {m : Machine} (hw : m.world.Valid) (hm : m.Fits past)
    (ho : m.act = .other) (hp : m.control.IsPlain) : Sound past m m := by
  refine .of_keeps (.refl _) hw ho hp (fun _ => rfl) (fun _ => rfl) (fun _ h => h) ?_
  exact hm.mono (World.Keeps.refl _).grows (List.subset_cons_self _ _)

/-- A step neither loses nor doubles anything that is under way. -/
theorem step_sound {past : List Machine} {m : Machine} (hw : m.world.Valid) (hm : m.Fits past)
    (hr : m.Ready) : Sound past m m.step := by
  obtain ⟨w, control, stack⟩ := m
  cases control with
  | run i => exact exec_sound hw hm hr
  | done a =>
    cases stack with
    | nil => exact idle_sound hw hm rfl trivial
    | cons f stack => exact resume_sound hw hm hr
  | raised fault =>
    cases stack with
    | nil => exact idle_sound hw hm rfl trivial
    | cons f stack => exact unwind_sound hw hm

/-- So does a classifier, whatever it answers. -/
theorem Moves.sound {past : List Machine} {m m' : Machine} (h : m.Moves m') (hw : m.world.Valid)
    (hm : m.Fits past) (hr : m.Ready) : Sound past m m' := by
  cases h with
  | step => exact step_sound hw hm hr
  | judge w c context answer stack => exact judge_sound hw answer hm

end RequestFlow.Machine
