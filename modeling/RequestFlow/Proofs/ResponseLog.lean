import RequestFlow.Proofs.Receptions

/-!
# Responses that are logged

An attempt has one complete response at most.  With all responses logged, the network logs a complete
response with the step that looks at it, and so not the ones that tell that nothing has changed.

    every look is at a complete response, and every news is looked at          (Receiving.tracked)
    a complete response is logged once, if it tells of a change                (logged_once_iff)
-/

namespace RequestFlow

/-- What others may do between two steps: anything but to touch attempts, to add or double tasks, and
to log as information. -/
structure World.Respects (w w' : World) : Prop where
  attempts : w'.attempts = w.attempts
  queued : w'.queued.Subperm w.queued
  infos : w'.infos = w.infos

namespace Network

/-- Every run, with executors of any mode, in which threads begin as they should. -/
inductive Receiving : Network → Prop
  | start (w : World) (attempts : w.attempts = #[]) (queued : w.queued = []) (infos : w.infos = []) :
    Receiving { world := w }
  | move {w : World} {l r : List Thread} {t : Thread} {past : List Machine} {m : Machine}
    (h : Receiving ⟨w, l ++ t :: r, past⟩) (hm : (t.on w).Moves m) :
    Receiving ⟨m.world, l ++ m.thread :: r, t.on w :: past⟩
  | arrive {s : Network} (h : Receiving s) (t : Thread) (ht : Arrival s.world t) :
    Receiving { s with threads := t :: s.threads }
  | meanwhile {s : Network} (h : Receiving s) (w : World) (hw : s.world.Respects w) :
    Receiving { s with world := w }

/-- The lines on responses for the attempt, in order. -/
def lines (s : Network) (a : Nat) : List LogRecord :=
  s.past.reverse.filterMap fun m => (m.looks?.filter (·.attempt == a)).map m.line

/-- Somebody has the task. -/
def Bears (s : Network) (k : CopyTask) : Prop :=
  k ∈ s.world.queued ∨ ∃ t ∈ s.threads, (t.on s.world).body? = some k

/-- What holds of the responses in every run. -/
structure Tracked (s : Network) : Prop where
  turns : ∀ t ∈ s.threads, ∀ a ∈ (t.on s.world).turns, a < s.world.attempts.size
  hands : ∀ t ∈ s.threads, ∀ a, (t.on s.world).hands a ≠ 0 → a < s.world.attempts.size
  news : ∀ k, s.Bears k → k.status ≠ StatusCode.notModified
  /-- A complete response with news was looked at, or is looked at next. -/
  looked : ∀ p : Delivered → Bool, s.past.countP (fun m => m.looks?.any p) + s.total (·.looking p) =
    s.past.countP fun m => m.completes?.any fun d => d.isNews && p d
  /-- What there is of an attempt is in one place. -/
  once : ∀ a, s.past.countP (fun m => m.completes?.any (·.attempt == a)) + s.world.unsettled a +
    s.world.tasksOf a + s.total (·.bearing a) ≤ s.world.made a
  infos : s.world.infos = s.past.reverse.flatMap Machine.informs

/-! ## Runs -/

section

variable {w : World} {l r : List Thread} {t : Thread} {past : List Machine} {m : Machine}
  (h : Tracked ⟨w, l ++ t :: r, past⟩)
include h

theorem Tracked.news_own (k : CopyTask) (hk : (t.on w).body? = some k) :
    k.status ≠ StatusCode.notModified :=
  h.news k (.inr ⟨t, by simp, hk⟩)

variable (hm : (t.on w).Moves m)
include hm

/-- A body that somebody has after the step was somebody's before, or came with news. -/
theorem Tracked.news_move (k : CopyTask) (hk : Bears ⟨m.world, l ++ m.thread :: r, t.on w :: past⟩ k) :
    k.status ≠ StatusCode.notModified := by
  have scheduled (hc : (t.on w).control = .run (.schedule k)) : k.status ≠ StatusCode.notModified :=
    h.news_own k (by rw [Machine.body?, hc])
  rcases hk with hk | ⟨u, hu, hk⟩
  · rcases hm.passes.queued k hk with hk | hc
    · exact h.news k (.inl hk)
    · exact scheduled hc
  · rcases mem_moved hu with rfl | hu
    · have hk : m.body? = some k := hk
      unfold Machine.body? at hk
      split at hk <;> cases hk
      · next hc => exact hm.schedules_news hc
      · next hc =>
        rcases (hm.passes.copies k hc).2 with hk | hc
        · exact h.news k (.inl hk)
        · exact scheduled hc
    · exact h.news k (.inr ⟨u, mem_others hu, hk⟩)

theorem Tracked.looked_move (p : Delivered → Bool) :
    (t.on w :: past).countP (fun m => m.looks?.any p) +
        total ⟨m.world, l ++ m.thread :: r, t.on w :: past⟩ (·.looking p) =
      (t.on w :: past).countP fun m => m.completes?.any fun d => d.isNews && p d := by
  have looks := hm.looks (h.news_own)
  have before := h.looked p
  have moved : total ⟨m.world, l ++ m.thread :: r, t.on w :: past⟩ (·.looking p) +
      (t.on w).looking p = total ⟨w, l ++ t :: r, past⟩ (·.looking p) + m.looking p :=
    total_move (·.looking p) fun _ _ => rfl
  have next : m.looking p =
      if (t.on w).completes?.any (fun d => d.isNews && p d) then 1 else 0 := by
    rw [Machine.looking, looks]
    cases (t.on w).completes? with
    | none => rfl
    | some d => by_cases news : d.isNews <;> simp [news]
  have own : (t.on w).looking p = if (t.on w).looks?.any p then 1 else 0 := rfl
  dsimp only at before
  rw [List.countP_cons, List.countP_cons]
  omega

theorem Tracked.once_move (a : Nat) :
    (t.on w :: past).countP (fun m => m.completes?.any (·.attempt == a)) + m.world.unsettled a +
        m.world.tasksOf a + total ⟨m.world, l ++ m.thread :: r, t.on w :: past⟩ (·.bearing a) ≤
      m.world.made a := by
  have places := hm.places (h.turns t (by simp)) a
  have before := h.once a
  have moved : total ⟨m.world, l ++ m.thread :: r, t.on w :: past⟩ (·.bearing a) +
      (t.on w).bearing a = total ⟨w, l ++ t :: r, past⟩ (·.bearing a) + m.bearing a :=
    total_move (·.bearing a) fun _ _ => rfl
  have own : (t.on w).completing a =
      if (t.on w).completes?.any (·.attempt == a) then 1 else 0 := rfl
  rw [Machine.Places, Thread.on_world] at places
  dsimp only at before
  rw [List.countP_cons]
  omega

theorem Tracked.move : Tracked ⟨m.world, l ++ m.thread :: r, t.on w :: past⟩ := by
  have grows := hm.attempts_size
  refine ⟨?_, ?_, h.news_move hm, h.looked_move hm, h.once_move hm, ?_⟩
  · intro u hu a ha
    rcases mem_moved hu with rfl | hu
    · refine Nat.lt_of_lt_of_le ?_ grows
      rcases hm.turns ha with old | handed
      · exact h.turns t (by simp) a old
      · exact h.hands t (by simp) a (ne_of_eq_of_ne handed Nat.one_ne_zero)
    · exact Nat.lt_of_lt_of_le (h.turns u (mem_others hu) a ha) grows
  · intro u hu a ha
    rcases mem_moved hu with rfl | hu
    · exact hm.hands_inside ha
    · exact Nat.lt_of_lt_of_le (h.hands u (mem_others hu) a ha) grows
  · show m.world.infos = (t.on w :: past).reverse.flatMap Machine.informs
    rw [hm.infos, List.reverse_cons, List.flatMap_append, ← h.infos]
    simp

end

theorem Tracked.arrive {s : Network} {t : Thread} (h : s.Tracked) (ht : Arrival s.world t) :
    Tracked { s with threads := t :: s.threads } := by
  have idle : (t.on s.world).looks? = none ∧ (t.on s.world).body? = none ∧
      ∀ a, (t.on s.world).hands a = 0 := by
    cases ht <;> exact ⟨rfl, rfl, fun _ => rfl⟩
  have turns : ∀ a ∈ (t.on s.world).turns, a < s.world.attempts.size := by
    cases ht with
    | turn b turn answer hb =>
      intro a ha
      obtain rfl : a = b := by simpa [Machine.turns, Control.turn?, Frame.turn?, Thread.on] using ha
      exact hb
    | perform _ | runQueue | serve => rintro a ⟨⟩
  refine ⟨?_, ?_, ?_, ?_, ?_, h.infos⟩
  · intro u hu
    rcases List.mem_cons.1 hu with rfl | hu
    · exact turns
    · exact h.turns u hu
  · intro u hu a ha
    rcases List.mem_cons.1 hu with rfl | hu
    · exact absurd (idle.2.2 a) ha
    · exact h.hands u hu a ha
  · rintro k (hk | ⟨u, hu, hk⟩)
    · exact h.news k (.inl hk)
    · rcases List.mem_cons.1 hu with rfl | hu
      · cases idle.2.1.symm.trans hk
      · exact h.news k (.inr ⟨u, hu, hk⟩)
  · intro p
    have none : (t.on s.world).looking p = 0 := by simp [Machine.looking, idle.1]
    rw [total_arrive, none, Nat.zero_add]
    exact h.looked p
  · intro a
    rw [total_arrive, Machine.bearing_of_none idle.2.1, Nat.zero_add]
    exact h.once a

theorem Tracked.meanwhile {s : Network} {w : World} (h : s.Tracked) (hw : s.world.Respects w) :
    Tracked { s with world := w } := by
  have size : w.attempts.size = s.world.attempts.size := congrArg Array.size hw.attempts
  refine ⟨?_, ?_, ?_, h.looked, ?_, hw.infos.trans h.infos⟩
  · show ∀ t ∈ s.threads, ∀ a ∈ (t.on w).turns, a < w.attempts.size
    rw [size]
    exact h.turns
  · show ∀ t ∈ s.threads, ∀ a, (t.on w).hands a ≠ 0 → a < w.attempts.size
    rw [size]
    exact h.hands
  · rintro k (hk | held)
    · exact h.news k (.inl (hw.queued.subset hk))
    · exact h.news k (.inr held)
  · intro a
    have tasks : w.tasksOf a ≤ s.world.tasksOf a := hw.queued.countP_le _
    have once := h.once a
    show s.past.countP _ + w.unsettled a + w.tasksOf a + s.total (·.bearing a) ≤ w.made a
    rw [World.unsettled_of_attempts hw.attempts, World.made_of_size size]
    omega

theorem Receiving.tracked {s : Network} (h : s.Receiving) : s.Tracked := by
  induction h with
  | start w attempts queued infos =>
    refine ⟨by simp, by simp, ?_, by simp [total], ?_, infos⟩
    · rintro k (hk | ⟨t, ht, -⟩)
      · simp [queued] at hk
      · simp at ht
    · intro a
      simp [total, World.unsettled, World.tasksOf, queued, attempts]
  | move _ hm ih => exact ih.move hm
  | arrive _ t ht ih => exact ih.arrive ht
  | meanwhile _ w hw ih => exact ih.meanwhile hw

/-! ## Lines on a response -/

theorem length_lines (s : Network) (a : Nat) :
    (s.lines a).length = s.past.countP fun m => m.looks?.any (·.attempt == a) := by
  rw [lines, List.length_filterMap_eq_countP, List.countP_reverse]
  refine List.countP_congr fun m _ => ?_
  cases m.looks? with
  | none => simp
  | some d => by_cases own : d.attempt = a <;> simp [own]

namespace Tracked

variable {s : Network} (h : s.Tracked)
include h

/-- An attempt has one complete response at most. -/
theorem completed_le_one (a : Nat) :
    s.past.countP (fun m => m.completes?.any (·.attempt == a)) ≤ 1 := by
  have once := h.once a
  have : s.world.made a ≤ 1 := by
    unfold World.made
    split <;> omega
  omega

/-- All complete responses for an attempt are one. -/
theorem completed_unique {m m' : Machine} (hm : m ∈ s.past) (hm' : m' ∈ s.past) {d d' : Delivered}
    (hd : m.completes? = some d) (hd' : m'.completes? = some d') (own : d'.attempt = d.attempt) :
    d' = d := by
  by_contra other
  have one := h.completed_le_one d.attempt
  rw [List.countP_eq_countP_filter_add _ _ fun m => m.completes? == some d] at one
  have first : 0 < (s.past.filter fun m => m.completes? == some d).countP
      fun m => m.completes?.any (·.attempt == d.attempt) :=
    List.countP_pos_iff.2 ⟨m, List.mem_filter.2 ⟨hm, by simp [hd]⟩, by simp [hd]⟩
  have second : 0 < (s.past.filter fun m => !(m.completes? == some d)).countP
      fun m => m.completes?.any (·.attempt == d.attempt) :=
    List.countP_pos_iff.2 ⟨m', List.mem_filter.2 ⟨hm', by simp [hd', other]⟩, by simp [hd', own]⟩
  omega

/-- Only complete responses with news are looked at. -/
theorem completed_of_looked {n : Machine} (hn : n ∈ s.past) {d : Delivered}
    (hd : n.looks? = some d) :
    d.status ≠ StatusCode.notModified ∧ ∃ m ∈ s.past, m.completes? = some d := by
  have looked := h.looked (· == d)
  have some : 0 < s.past.countP fun m => m.looks?.any (· == d) :=
    List.countP_pos_iff.2 ⟨n, hn, by simp [hd]⟩
  obtain ⟨m, hm, complete⟩ :=
    List.countP_pos_iff.1 (Nat.lt_of_lt_of_le some (looked ▸ Nat.le_add_right _ _))
  obtain ⟨e, he, both⟩ := (Option.any_eq_true _ _).1 complete
  rw [Bool.and_eq_true] at both
  obtain ⟨news, same⟩ := both
  obtain rfl := eq_of_beq same
  exact ⟨bne_iff_ne.1 news, m, hm, he⟩

/-- A complete response with news was looked at, or a thread is about to. -/
theorem looked_of_completed {m : Machine} (hm : m ∈ s.past) {d : Delivered}
    (hd : m.completes? = some d) (news : d.status ≠ StatusCode.notModified)
    (calm : ∀ t ∈ s.threads, (t.on s.world).looks? ≠ some d) : ∃ n ∈ s.past, n.looks? = some d := by
  have looked := h.looked (· == d)
  have none : s.total (·.looking (· == d)) = 0 := by
    refine total_eq_zero fun t ht => if_neg fun looks => calm t ht ?_
    obtain ⟨e, he, same⟩ := (Option.any_eq_true _ _).1 looks
    rw [he, eq_of_beq same]
  have some : 0 < s.past.countP fun m => m.completes?.any fun e => e.isNews && e == d :=
    List.countP_pos_iff.2 ⟨m, hm, by simp [hd, Delivered.isNews, news]⟩
  rw [← looked, none, Nat.add_zero] at some
  obtain ⟨n, hn, looks⟩ := List.countP_pos_iff.1 some
  obtain ⟨e, he, same⟩ := (Option.any_eq_true _ _).1 looks
  exact ⟨n, hn, by rw [he, eq_of_beq same]⟩

/-- An attempt has one line at most. -/
theorem length_lines_le_one (a : Nat) : (s.lines a).length ≤ 1 := by
  have looked := h.looked (·.attempt == a)
  have news : s.past.countP (fun m => m.completes?.any fun d => d.isNews && d.attempt == a) ≤
      s.past.countP fun m => m.completes?.any (·.attempt == a) := by
    refine List.countP_mono_left fun m _ complete => ?_
    obtain ⟨d, hd, both⟩ := (Option.any_eq_true _ _).1 complete
    exact (Option.any_eq_true _ _).2 ⟨d, hd, (Bool.and_eq_true _ _ ▸ both).2⟩
  have := h.completed_le_one a
  rw [length_lines]
  omega

theorem lines_of_looked {n : Machine} (hn : n ∈ s.past) {d : Delivered} (hd : n.looks? = some d) :
    s.lines d.attempt = [n.line d] := by
  have there : n.line d ∈ s.lines d.attempt :=
    List.mem_filterMap.2 ⟨n, List.mem_reverse.2 hn, by simp [hd]⟩
  have one : (s.lines d.attempt).length = 1 :=
    Nat.le_antisymm (h.length_lines_le_one _) (List.length_pos_of_mem there)
  obtain ⟨line, only⟩ := List.length_eq_one_iff.1 one
  rw [only] at there ⊢
  rw [List.mem_singleton.1 there]

/-- An attempt whose response tells that nothing has changed has no line. -/
theorem lines_of_unchanged {m : Machine} (hm : m ∈ s.past) {d : Delivered}
    (hd : m.completes? = some d) (same : d.status = StatusCode.notModified) :
    s.lines d.attempt = [] := by
  rw [lines, List.filterMap_eq_nil_iff]
  intro n hn
  cases looks : n.looks? with
  | none => rfl
  | some e =>
    obtain ⟨news, m', hm', he⟩ := h.completed_of_looked (List.mem_reverse.1 hn) looks
    have other : e.attempt ≠ d.attempt := by
      intro own
      rw [h.completed_unique hm hm' hd he own] at news
      exact news same
    simp [other]

/-- With all responses logged, what is for information are the lines on what was looked at. -/
theorem infos_eq (logAll : ∀ m ∈ s.past, m.world.config.logAll = true) :
    s.world.infos = s.past.reverse.filterMap fun m => m.looks?.map m.line := by
  rw [h.infos, List.filterMap_eq_flatMap_toList]
  refine List.flatMap_congr fun m hm => ?_
  exact m.informs_of_logAll (logAll m (List.mem_reverse.1 hm))

end Tracked

/-! ## Results -/

/-- A step looked at the response, and the line that it logged is the only one for the attempt. -/
def LoggedOnce (s : Network) (d : Delivered) : Prop :=
  ∃ n ∈ s.past, n.looks? = some d ∧ s.lines d.attempt = [n.line d]

/-- **Which responses are logged.**  With all responses logged, the lines for information are those on
the responses that were looked at, and these were complete.  An attempt has one complete response at
most.  It is logged once, with the lifetime of the attempt, its size, its status and the retries so far,
exactly if it does not tell that nothing has changed; otherwise it is not logged at all. -/
theorem Receiving.logged_once_iff {s : Network} (h : s.Receiving)
    (logAll : ∀ m ∈ s.past, m.world.config.logAll = true) :
    s.world.infos = (s.past.reverse.filterMap fun m => m.looks?.map m.line) ∧
    (∀ n ∈ s.past, ∀ d, n.looks? = some d → ∃ m ∈ s.past, m.completes? = some d) ∧
    ∀ m ∈ s.past, ∀ d, m.completes? = some d →
      s.past.countP (fun m => m.completes?.any (·.attempt == d.attempt)) = 1 ∧
      ((∀ t ∈ s.threads, (t.on s.world).looks? ≠ some d) →
        (s.LoggedOnce d ↔ d.status ≠ StatusCode.notModified)) ∧
      (d.status = StatusCode.notModified → s.lines d.attempt = []) := by
  have tracked := h.tracked
  refine ⟨tracked.infos_eq logAll, fun n hn d hd => (tracked.completed_of_looked hn hd).2, ?_⟩
  intro m hm d hd
  have there : 0 < s.past.countP fun m => m.completes?.any (·.attempt == d.attempt) :=
    List.countP_pos_iff.2 ⟨m, hm, by simp [hd]⟩
  refine ⟨Nat.le_antisymm (tracked.completed_le_one _) there, fun calm => ⟨?_, ?_⟩,
    tracked.lines_of_unchanged hm hd⟩
  · rintro ⟨n, hn, looks, -⟩
    exact (tracked.completed_of_looked hn looks).1
  · intro news
    obtain ⟨n, hn, looks⟩ := tracked.looked_of_completed hm hd news calm
    exact ⟨n, hn, looks, tracked.lines_of_looked hn looks⟩

theorem Receiving.run {l r : List Thread} {past : List Machine} (n : Nat) (m : Machine)
    (h : Receiving ⟨m.world, l ++ m.thread :: r, past⟩) :
    Receiving ⟨(Machine.run n m).world, l ++ (Machine.run n m).thread :: r, trail n m ++ past⟩ :=
  run_induction (fun _ m h => .move (t := m.thread) h (.step m)) n m h

/-- A world in which all responses are logged, with the reply to its first attempt. -/
def answering (r : Reply Source) : World where
  config := { logAll := true }
  requests := #[some { url := text "u", method := text "GET" }]
  transport := { script := [.deliver (.reply r)] }

/-- The network after its request was performed. -/
def answered (r : Reply Source) : Network :=
  alone 40 (Machine.doing (answering r) (.perform ⟨0, .rest, .rest⟩) [])

theorem answered_receiving (r : Reply Source) : Receiving (answered r) := by
  have first : Receiving ⟨answering r, [⟨.run (.perform ⟨0, .rest, .rest⟩), []⟩], []⟩ :=
    (Receiving.start (answering r) rfl rfl rfl).arrive _ (.perform _)
  have := Receiving.run (l := []) (r := []) 40
    (Machine.doing (answering r) (.perform ⟨0, .rest, .rest⟩) []) first
  rwa [List.append_nil] at this

theorem logged_once_iff_ofBytes :
    Receiving (answered (.ofBytes 200 [] (text "ok"))) ∧
      LoggedOnce (answered (.ofBytes 200 [] (text "ok"))) ⟨0, 200, text "ok"⟩ := by
  have receiving := answered_receiving (.ofBytes 200 [] (text "ok"))
  obtain ⟨-, -, complete⟩ := receiving.logged_once_iff (by decide +kernel)
  have completed : ∃ m ∈ (answered (.ofBytes 200 [] (text "ok"))).past,
      m.completes? = some ⟨0, 200, text "ok"⟩ := by decide +kernel
  obtain ⟨m, hm, hd⟩ := completed
  obtain ⟨-, logged, -⟩ := complete m hm _ hd
  exact ⟨receiving, (logged (by decide +kernel)).2 (by decide)⟩

/-- The network logs all responses, its one call is at rest, and it logged nothing of its one response. -/
theorem unchanged_unlogged : ∃ s : Network, s.Receiving ∧
    (∀ m ∈ s.past, m.world.config.logAll = true) ∧ (∀ t ∈ s.threads, (t.on s.world).isIdle = true) ∧
    (∃ m ∈ s.past, m.completes? = some ⟨0, StatusCode.notModified, []⟩) ∧ s.world.infos = [] := by
  refine ⟨answered (.withoutBody StatusCode.notModified []), answered_receiving _, ?_⟩
  decide +kernel

end Network

end RequestFlow
