import RequestFlow.Buffer.Pool
import RequestFlow.Proofs.Delivery

/-!
# What a source has in store

A source of the library gives the same bytes, ends in the same way and takes the same time, into
whatever rooms it is read.  So the copies of one source that are refused no lease differ in their
dealings only: in the rooms of the reads, in the buffers and in the pool.

    what the readings gave, and how long they took                              (Deals.stored)
    the body, the time and the close of a copy that is refused no lease         (Dealt.stored)
-/

namespace RequestFlow

/-! ## Algorithm -/

/-- The bytes still to come, how they end, and the nanoseconds that pass till then. -/
structure Store where
  content : Bytes
  ending : Except Fault Unit
  time : Int
  deriving Repr

namespace Store

def later (s : Store) (t : Int) : Store := { s with time := t + s.time }

/-- What was in store before a reading, by what it gave and what is in store after it. -/
def before (result : Except Fault Bytes) (elapsed : Int) (after : Store) : Store :=
  match result with
  | .error f => ⟨[], .error f, elapsed⟩
  | .ok [] => ⟨[], .ok (), elapsed⟩
  | .ok (b :: bs) => ⟨b :: bs ++ after.content, after.ending, elapsed + after.time⟩

end Store

def StreamItem.store : List StreamItem → Store
  | [] => ⟨[], .ok (), 0⟩
  | pause t :: rest => (store rest).later t
  | fault message :: _ => ⟨[], .error (.runtime message), 0⟩
  | bytes [] :: _ => ⟨[], .ok (), 0⟩
  | bytes (b :: bs) :: rest => .before (.ok (b :: bs)) 0 (store rest)

/-- A source that serves its content in empty chunks is at its end from the start. -/
def Source.store : Source → Store
  | chunked content chunk _ => ⟨if chunk = 0 then [] else content, .ok (), 0⟩
  | failing content chunk =>
    ⟨if chunk = 0 then [] else content,
      if content ≠ [] ∧ chunk = 0 then .ok ()
      else .error (.runtime (text "connection reset by peer")), 0⟩
  | scripted items _ => StreamItem.store items

/-- The copy is refused no lease. -/
def Granted {S P : Type} [ByteSource S] [BufferPool P] (stream : Nat) (source : S) (length : Int)
    (pool : P) (defaultSize : Nat) : Prop :=
  ∃ l last r, Dealt stream source pool l last r
    (copyBody stream source length pool defaultSize) ∧ l.filterMap Dealing.refusal? = []

/-! ## Lemmas -/

theorem Store.before_later (result : Except Fault Bytes) (elapsed t : Int) (s : Store) :
    before result (t + elapsed) s = (before result elapsed s).later t := by
  rcases result with f | _ | ⟨b, bs⟩
  · rfl
  · rfl
  · simp [before, later, Int.add_assoc]

theorem StreamItem.store_read (items : List StreamItem) {n : Nat} (hn : 0 < n) :
    store items = .before (read items n).result (read items n).elapsed
      (store (read items n).rest) := by
  fun_induction read items n with
  | case1 n => rfl
  | case2 n t rest r ih =>
    rw [store, Store.before_later, ← ih hn]
  | case3 n message rest => rfl
  | case4 content rest n hc => cases content <;> rfl
  | case5 content rest n hc =>
    -- both the part that fits and the part that stays are not empty
    obtain ⟨b, bs, front⟩ : ∃ b bs, content.take n = b :: bs :=
      List.exists_cons_of_length_pos (by rw [List.length_take]; omega)
    obtain ⟨x, xs, back⟩ : ∃ x xs, content.drop n = x :: xs :=
      List.exists_cons_of_length_pos (by rw [List.length_drop]; omega)
    have whole : content = b :: (bs ++ x :: xs) := by
      rw [← List.take_append_drop n content, front, back]
      rfl
    rw [front, back, whole]
    simp [store, Store.before]

/-- Every reading takes what it gives and its time off the store. -/
theorem Source.store_read (s : Source) {n : Nat} (hn : 0 < n) :
    store s = .before (read s n).result (read s n).elapsed (store (read s n).rest) := by
  -- a chunk, and the content without it
  have chunk (content : Bytes) {size : Nat} (hs : 0 < size) (hc : content ≠ []) :
      ∃ b bs, (chunkOf content size n).1 = b :: bs ∧
        content = b :: (bs ++ (chunkOf content size n).2) := by
    obtain ⟨b, bs, front⟩ : ∃ b bs, content.take (min n size) = b :: bs := by
      refine List.exists_cons_of_length_pos ?_
      have := List.length_pos_iff.2 hc
      rw [List.length_take]
      omega
    refine ⟨b, bs, front, ?_⟩
    rw [← List.cons_append, ← front]
    exact (List.take_append_drop _ _).symm
  cases s with
  | chunked content size fails =>
    by_cases hs : size = 0
    · simp [store, read, chunkOf, hs, Store.before]
    by_cases hc : content = []
    · simp [store, read, chunkOf, hc, Store.before]
    obtain ⟨b, bs, front, whole⟩ := chunk content (Nat.pos_of_ne_zero hs) hc
    simp only [store, read, if_neg hs, front, Store.before, List.cons_append, ← whole]
    rfl
  | failing content size =>
    by_cases hc : content = []
    · simp [store, read, hc, Store.before]
    by_cases hs : size = 0
    · simp [store, read, chunkOf, hs, hc, Store.before]
    obtain ⟨b, bs, front, whole⟩ := chunk content (Nat.pos_of_ne_zero hs) hc
    simp only [store, read, List.isEmpty_iff, if_neg hc, hs, and_false, if_false, front,
      Store.before, List.cons_append, ← whole]
    rfl
  | scripted items fails => exact StreamItem.store_read items hn

theorem Source.closeFault_read (s : Source) (n : Nat) : closeFault (read s n).rest = closeFault s := by
  cases s with
  | chunked content chunk fails => rfl
  | failing content chunk => cases content <;> rfl
  | scripted items fails => rfl

section

variable {P : Type} [BufferPool P] {s t : Source} {p q : P} {l : List Dealing}

theorem spent_eq_zero {S : Type} [ByteSource S] (s : S) {l : List Dealing}
    (h : l.filterMap Dealing.reading? = []) : spent s l = 0 := by
  induction l with
  | nil => rfl
  | cons d l ih =>
    cases d with
    | read room result => cases h
    | lease size result => exact ih h
    | release b => exact ih h

theorem Deals.closeFault (h : Deals s p l t q) : t.closeFault = s.closeFault := by
  induction h with
  | nil => rfl
  | @read s t _ _ _ _ room _ _ h _ ih =>
    have after : (Source.read s room).rest = t := congrArg Reading.rest h
    rw [ih, ← after, Source.closeFault_read]
  | lease _ _ ih | release _ _ ih => exact ih

/-- What the readings gave up to the last one, and how long they took, is what was in store. -/
theorem Deals.stored (h : Deals s p l t q) (rooms : ∀ d ∈ l, d.HasRoom) {pieces : List Bytes}
    {r : Except Fault Unit} (solid : ∀ p ∈ pieces, p ≠ [])
    (readings : l.filterMap Dealing.reading? = pieces.map .ok ++ [r.map fun _ => []]) :
    s.store = ⟨pieces.flatten, r, spent s l⟩ := by
  induction h generalizing pieces with
  | nil => simp at readings
  | @read s t _ _ _ l room result elapsed h _ ih =>
    have took : s.store = .before result elapsed t.store := by
      have := s.store_read (rooms _ List.mem_cons_self)
      rwa [show Source.read s room = ⟨result, t, elapsed⟩ from h] at this
    have time : spent s (.read room result :: l) = elapsed + spent t l := by rw [spent, h]
    have later : ∀ d ∈ l, d.HasRoom := fun d hd => rooms d (List.mem_cons_of_mem _ hd)
    have readings : result :: l.filterMap Dealing.reading? =
      pieces.map .ok ++ [r.map fun _ => []] := readings
    rw [took, time]
    cases pieces with
    | nil =>
      obtain ⟨rfl, others⟩ := List.cons.inj readings
      rw [spent_eq_zero t others, Int.add_zero]
      cases r <;> rfl
    | cons piece pieces =>
      obtain ⟨rfl, others⟩ := List.cons.inj readings
      obtain ⟨b, bs, rfl⟩ := List.exists_cons_of_ne_nil (solid piece List.mem_cons_self)
      rw [ih later (fun p hp => solid p (List.mem_cons_of_mem _ hp)) others]
      rfl
  | lease _ _ ih | release _ _ ih =>
    exact ih (fun d hd => rooms d (List.mem_cons_of_mem _ hd)) solid readings

theorem ComesTo.stored {body : Except Fault Bytes} (h : ComesTo l body) (deals : Deals s p l t q)
    (rooms : ∀ d ∈ l, d.HasRoom) (granted : l.filterMap Dealing.refusal? = []) :
    body = s.store.ending.map (fun _ => s.store.content) ∧ spent s l = s.store.time := by
  cases h with
  | reached solid readings refusals =>
    rw [deals.stored (r := .ok ()) rooms solid readings]
    exact ⟨rfl, rfl⟩
  | @broken pieces f solid readings refusals =>
    rw [deals.stored (r := .error f) rooms solid readings]
    exact ⟨rfl, rfl⟩
  | refused solid readings refusals =>
    rw [granted] at refusals
    cases refusals

/-- A copy that is refused no lease comes to what its source has in store. -/
theorem Dealt.stored [LawfulBufferPool P] {stream : Nat} {r : Except Fault Bytes} {copied : Copied P}
    (h : Dealt stream s p l t r copied) (granted : l.filterMap Dealing.refusal? = []) :
    copied.body = s.store.ending.map (fun _ => s.store.content) ∧
      copied.elapsed = s.store.time ∧ closeEvents stream t = closeEvents stream s := by
  have close : t.closeFault = s.closeFault := h.deals.closeFault
  obtain ⟨body, time⟩ := h.ending.stored h.deals (h.rooms inferInstance) granted
  refine ⟨(h.body inferInstance).trans body, h.elapsed.trans time, ?_⟩
  show Event.close stream :: (closeRecords t.closeFault).map .log =
    .close stream :: (closeRecords s.closeFault).map .log
  rw [close]

end

/-! ## Leases -/

theorem Pool.lease_error {p : Pool} {n : Nat} {f : Fault} (h : (p.lease n).1 = .error f) :
    f = .outOfMemory := by
  have allocated {id size : Nat} (h : Buffer.allocate id size = .error f) : f = .outOfMemory := by
    unfold Buffer.allocate at h
    split at h
    · cases h
      rfl
    · cases h
  cases p with
  | bestFit p =>
    simp only [lease, BestFit.lease] at h
    split at h
    · unfold BestFit.make at h
      split at h
      · next made =>
        cases h
        exact allocated made
      · cases h
    · cases h
  | counting p => exact allocated h

theorem Deals.refusal {S : Type} [ByteSource S] {s t : S} {p q : Pool} {l : List Dealing} {f : Fault}
    (h : Deals s p l t q) (hf : f ∈ l.filterMap Dealing.refusal?) : f = .outOfMemory := by
  induction h with
  | nil => simp at hf
  | @lease _ _ p _ _ _ size result leased _ ih =>
    cases result with
    | ok b => exact ih hf
    | error g =>
      rcases List.mem_cons.1 hf with rfl | hf
      · exact Pool.lease_error (congrArg Prod.fst leased)
      · exact ih hf
  | read _ _ ih | release _ _ ih => exact ih hf

/-- A copy that has not run out of memory was refused no lease. -/
theorem granted_of_ne {S : Type} [ByteSource S] {stream : Nat} {source : S} {length : Int}
    {pool : Pool} {defaultSize : Nat}
    (h : (copyBody stream source length pool defaultSize).body ≠ .error .outOfMemory) :
    Granted stream source length pool defaultSize := by
  obtain ⟨l, last, r, dealt⟩ := copyBody_dealt stream source length pool defaultSize
  refine ⟨l, last, r, dealt, ?_⟩
  rw [dealt.body inferInstance] at h
  cases dealt.ending with
  | reached solid readings refusals | broken solid readings refusals => exact refusals
  | @refused pieces f solid readings refusals =>
    have memory : f = .outOfMemory :=
      dealt.deals.refusal (by rw [refusals]; exact List.mem_singleton_self f)
    exact absurd (congrArg Except.error memory) h

end RequestFlow
