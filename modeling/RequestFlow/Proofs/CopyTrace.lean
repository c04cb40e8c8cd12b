import RequestFlow.BodyCopy

/-!
# The events of a body copy

A copy leases and releases buffers, reads its stream, closes it, and logs a close that failed; it
does nothing else that a trace would show.

    every event of copyBody s .. is an event of a copy of stream s         (copyBody_events)
-/

namespace RequestFlow

/-- What copying the body of the given stream may add to a trace. -/
def Event.isCopyOf (stream : Nat) : Event → Bool
  | .lease .. | .release .. | .log _ => true
  | .read s _ _ | .readFault s _ _ | .close s => s == stream
  | _ => false

variable {S P : Type} [ByteSource S] [BufferPool P]

omit [ByteSource S] in
theorem Copying.enlarge_events (stream : Nat) (c : Copying S P) (more : Nat)
    (h : ∀ e ∈ c.trace, e.isCopyOf stream = true) :
    ∀ e ∈ (c.enlarge more).2.trace, e.isCopyOf stream = true := by
  intro e he
  unfold enlarge at he
  simp only at he
  split at he
  · exact h e he
  · simp only [Array.mem_push] at he
    rcases he with (he | rfl) | rfl
    · exact h e he
    · rfl
    · rfl

omit [ByteSource S] [BufferPool P] in
theorem Copying.noteRead_events {stream : Nat} {c : Copying S P} (rest : S) (elapsed : Int)
    (read : Event) (h : ∀ e ∈ c.trace, e.isCopyOf stream = true)
    (hr : read.isCopyOf stream = true) :
    ∀ e ∈ (c.noteRead rest elapsed read).trace, e.isCopyOf stream = true := by
  intro e he
  simp only [noteRead, Array.mem_push] at he
  rcases he with he | rfl
  · exact h e he
  · exact hr

theorem Copying.drain_events (stream : Nat) (c : Copying S P)
    (h : ∀ e ∈ c.trace, e.isCopyOf stream = true) :
    ∀ e ∈ (c.drain stream).2.trace, e.isCopyOf stream = true := by
  fun_induction Copying.drain stream c with
  | case1 c f rest t hr => exact noteRead_events rest t _ h (by simp [Event.isCopyOf])
  | case2 c rest t hr => exact noteRead_events rest t _ h (by simp [Event.isCopyOf])
  | case3 c b bs rest t hr decreases full read hf f failed hg =>
    have hn := noteRead_events rest t (.read stream c.room (b :: bs).length) h
      (by simp [Event.isCopyOf])
    have := enlarge_events stream read (b :: bs).length hn
    rwa [hg] at this
  | case4 c b bs t full hf larger hr decreases read hg ih =>
    have hn := noteRead_events larger.source t (.read stream c.room (b :: bs).length) h
      (by simp [Event.isCopyOf])
    have := enlarge_events stream read (b :: bs).length hn
    rw [hg] at this
    exact ih this
  | case5 c b bs rest t hr decreases full read hf ih =>
    exact ih (noteRead_events rest t _ h (by simp [Event.isCopyOf]))

omit [BufferPool P] in
theorem closeEvents_events (stream : Nat) (s : S) :
    ∀ e ∈ closeEvents stream s, e.isCopyOf stream = true := by
  intro e he
  simp only [closeEvents, List.mem_cons, List.mem_map] at he
  rcases he with rfl | ⟨r, -, rfl⟩
  · simp [Event.isCopyOf]
  · rfl

/-- Every event of a copy is an event of a copy of its stream. -/
theorem copyBody_events (stream : Nat) (source : S) (length : Int) (pool : P) (size : Nat) :
    ∀ e ∈ (copyBody stream source length pool size).trace, e.isCopyOf stream = true := by
  simp only [copyBody]
  split
  · intro e he
    exact closeEvents_events stream source e (List.mem_toArray.1 he)
  · next buffer pool' _ =>
    intro e he
    simp only [List.foldl_push_eq_append', Array.mem_append, Array.mem_push, List.mem_toArray] at he
    rcases he with (he | rfl) | he
    · refine Copying.drain_events stream _ ?_ e he
      intro e he
      simp only [List.mem_toArray, List.mem_singleton] at he
      subst he
      rfl
    · rfl
    · exact closeEvents_events stream _ e he

end RequestFlow
