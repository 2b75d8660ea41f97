import SimEng.Assertions
import SimEng.Pipeline.Placement
import SimEng.Pipeline.Retirement

/-!
# SimEng — the load/store queue mirrors the reorder buffer

The reorder buffer commits a load or a store by calling `commitLoad` or
`commitStore`, which assert that the instruction is at the front of its
queue. That holds while the load queue is the list of loads of the reorder
buffer and the store queue the list of its stores, in order (`Mirrors`).

Renaming, the execution units, writeback, `commit`, `flush` with
`purgeFlushed`, and the queue's tick all keep this, provided no instruction is
both a load and a store (`commit` would only call `commitStore` for it) and no
load or store carries an exception: `ReorderBuffer::commit` pops an
instruction that carries an exception without telling the load/store queue,
and `purgeFlushed` only removes instructions that a flush marked, which the
popped one is not. A load that retires with an exception therefore stays at
the front of the load queue (`commitLoad_assertion_fails`), and the next load
to commit fails the assertion.

Main results:

* `commitLoop_mirrors` — under the mirror, `commit` passes its assertions and
  keeps the mirror;
* `step_mirrors` / `run_mirrors` — every event that keeps loads and stores
  free of exceptions (`tame`) keeps the mirror;
* `loadStoreQueue_mirrors_buffer` — over every such run: the mirror, every
  `commit` passes its assertions, and a flush after `a` marks flushed every
  instruction of the reorder buffer younger than `a` and leaves none in the
  buffer, the two queues, `requestedLoads_` or the confliction lists;
* `commitLoad_assertion_fails` — a load that retires with an exception breaks
  the mirror.
-/

namespace SimEng.Pipeline

/-! ## The mirror -/

/-- The load queue holds the loads of `buffer` and the store queue its stores,
in order; no instruction of `buffer` is both, and one that carries an
exception is neither. -/
structure Mirrors (heap : Heap) (buffer : List Nat) (lsq : LoadStoreQueue) : Prop where
  loads : lsq.loadQueue = buffer.filter fun q => (heap q).isLoad
  stores : lsq.storeQueue.map Prod.fst = buffer.filter fun q => (heap q).isStore
  kind : ∀ q ∈ buffer, (heap q).isLoad = false ∨ (heap q).isStore = false
  exception : ∀ q ∈ buffer, (heap q).exceptionEncountered = true →
    (heap q).isLoad = false ∧ (heap q).isStore = false

/-- `startLoad` changes neither the kind nor the exception of any
instruction. -/
theorem LoadStoreQueue.startLoad_kind (heap : Heap) (uop : Nat) (s : LoadStoreQueue) (q : Nat) :
    ((s.startLoad heap uop).1 q).isStore = (heap q).isStore ∧
      ((s.startLoad heap uop).1 q).exceptionEncountered = (heap q).exceptionEncountered := by
  have h : (s.startLoad heap uop).1 = heap.execute uop ∨ (s.startLoad heap uop).1 = heap := by
    unfold LoadStoreQueue.startLoad
    by_cases ha : (heap uop).generatedAddresses = []
    · simp [ha]
    · simp only [ha, if_false]; right; split <;> rfl
  rcases h with h | h <;> rw [h]
  · rw [Heap.execute_apply]; split <;> exact ⟨rfl, rfl⟩
  · exact ⟨rfl, rfl⟩

/-- Replacing one instruction by a copy of the same kind keeps the kind of
every instruction. -/
theorem update_kind (heap : Heap) {uop : Nat} {insn : Instruction} (hl : insn.isLoad = (heap uop).isLoad)
    (hs : insn.isStore = (heap uop).isStore) (q : Nat) :
    (Function.update heap uop insn q).isLoad = (heap q).isLoad ∧
      (Function.update heap uop insn q).isStore = (heap q).isStore := by
  rw [Function.update_apply]
  split
  · subst q; exact ⟨hl, hs⟩
  · exact ⟨rfl, rfl⟩

namespace Mirrors

variable {heap heap' : Heap} {buffer rest : List Nat} {lsq lsq' : LoadStoreQueue} {uop : Nat}

/-- The mirror survives a change of the instructions that keeps the kind of
each one in the buffer and records an exception only on one that is neither a
load nor a store, and a change of the queue that keeps both lists. -/
theorem congr (hm : Mirrors heap buffer lsq) (hl : lsq'.loadQueue = lsq.loadQueue)
    (hs : lsq'.storeQueue.map Prod.fst = lsq.storeQueue.map Prod.fst)
    (hkind : ∀ q ∈ buffer, (heap' q).isLoad = (heap q).isLoad ∧ (heap' q).isStore = (heap q).isStore)
    (hx : ∀ q ∈ buffer, (heap' q).exceptionEncountered = true →
      (heap q).exceptionEncountered = true ∨ ((heap q).isLoad = false ∧ (heap q).isStore = false)) :
    Mirrors heap' buffer lsq' where
  loads := by rw [hl, hm.loads]; exact List.filter_congr fun q hq => (hkind q hq).1.symm
  stores := by rw [hs, hm.stores]; exact List.filter_congr fun q hq => (hkind q hq).2.symm
  kind q hq := by rw [(hkind q hq).1, (hkind q hq).2]; exact hm.kind q hq
  exception q hq he := by
    rw [(hkind q hq).1, (hkind q hq).2]
    exact (hx q hq he).elim (hm.exception q hq) id

/-- An instruction that is neither a load nor a store leaves the head of the
buffer without touching the queue. -/
theorem tail_of_plain (hm : Mirrors heap (uop :: rest) lsq) (hl : (heap uop).isLoad = false)
    (hs : (heap uop).isStore = false) : Mirrors heap rest lsq where
  loads := by rw [hm.loads]; simp [List.filter_cons, hl]
  stores := by rw [hm.stores]; simp [List.filter_cons, hs]
  kind q hq := hm.kind q (List.mem_cons_of_mem _ hq)
  exception q hq := hm.exception q (List.mem_cons_of_mem _ hq)

/-- A store at the head of the buffer is the front of the store queue:
`commitStore` passes its assertion and leaves the mirror of the rest. -/
theorem commitStore (hm : Mirrors heap (uop :: rest) lsq) (hs : (heap uop).isStore = true) :
    ∃ v lsq', lsq.commitStore heap uop = .ok (v, lsq') ∧ Mirrors heap rest lsq' := by
  have hl : (heap uop).isLoad = false := by simpa [hs] using hm.kind uop (List.mem_cons_self _ _)
  have hfront : lsq.storeQueue.map Prod.fst = uop :: rest.filter fun q => (heap q).isStore := by
    rw [hm.stores]; simp [List.filter_cons, hs]
  obtain ⟨⟨front, d⟩, tl, hq, hf, htl⟩ : ∃ e tl, lsq.storeQueue = e :: tl ∧ e.1 = uop ∧
      tl.map Prod.fst = rest.filter fun q => (heap q).isStore := by
    rcases hsq : lsq.storeQueue with _ | ⟨e, tl⟩
    · simp [hsq] at hfront
    · simp only [hsq, List.map_cons, List.cons.injEq] at hfront
      exact ⟨e, tl, rfl, hfront⟩
  cases hf
  cases hc : lsq.commitStore heap front with
  | error e =>
    unfold LoadStoreQueue.commitStore at hc
    simp only [hq, ne_eq, not_true_eq_false, if_false] at hc
    split at hc <;> cases hc
  | ok r =>
    obtain ⟨v, lsq'⟩ := r
    obtain ⟨d', tl', hq', hsq', hlq', -⟩ := LoadStoreQueue.commitStore_spec hc
    rw [hq] at hq'
    cases hq'
    refine ⟨v, lsq', rfl, ⟨?_, by rw [hsq', htl], ?_, ?_⟩⟩
    · rw [hlq', hm.loads]; simp [List.filter_cons, hl]
    · exact fun q hq => hm.kind q (List.mem_cons_of_mem _ hq)
    · exact fun q hq => hm.exception q (List.mem_cons_of_mem _ hq)

/-- A load at the head of the buffer is the front of the load queue:
`commitLoad` passes its assertion and leaves the mirror of the rest. -/
theorem commitLoad (hm : Mirrors heap (uop :: rest) lsq) (hl : (heap uop).isLoad = true) :
    ∃ lsq', lsq.commitLoad heap uop = .ok lsq' ∧ Mirrors heap rest lsq' := by
  have hs : (heap uop).isStore = false := by simpa [hl] using hm.kind uop (List.mem_cons_self _ _)
  have hfront : lsq.loadQueue = uop :: rest.filter fun q => (heap q).isLoad := by
    rw [hm.loads]; simp [List.filter_cons, hl]
  have hloads : ∀ q ∈ lsq.loadQueue, (heap q).isLoad = true := fun q hq => by
    rw [hm.loads] at hq; exact (List.mem_filter.1 hq).2
  cases hc : lsq.commitLoad heap uop with
  | error e =>
    unfold LoadStoreQueue.commitLoad at hc
    simp [hfront, hl] at hc
  | ok lsq' =>
    obtain ⟨tl, hq, hlq', -, hsq', -⟩ := LoadStoreQueue.commitLoad_spec hc hloads
    rw [hfront, List.cons.injEq] at hq
    refine ⟨lsq', rfl, ⟨by rw [hlq', ← hq.2], ?_, ?_, ?_⟩⟩
    · rw [hsq', hm.stores]; simp [List.filter_cons, hs]
    · exact fun q hq => hm.kind q (List.mem_cons_of_mem _ hq)
    · exact fun q hq => hm.exception q (List.mem_cons_of_mem _ hq)

end Mirrors

/-! ## `commit` -/

/-- **`commit` passes its assertions.** Under the mirror, every iteration of
`commit`'s loop calls `commitLoad` and `commitStore` on the front of their
queues, so the loop returns, and it leaves the mirror of what remains. -/
theorem commitLoop_mirrors (heap : Heap) (k : Nat) :
    ∀ (n : Nat) (rob : ReorderBuffer) (lsq : LoadStoreQueue), Mirrors heap rob.buffer lsq →
      ∃ r, ReorderBuffer.commitLoop heap k n (rob, lsq) = .ok r ∧ Mirrors heap r.2.1.buffer r.2.2 := by
  induction k with
  | zero => exact fun n rob lsq hm => ⟨_, rfl, hm⟩
  | succ k ih =>
    intro n rob lsq hm₀
    rcases hb : rob.buffer with _ | ⟨uop, rest⟩
    · exact ⟨(n, rob, lsq), by simp only [ReorderBuffer.commitLoop, hb], hm₀⟩
    have hm : Mirrors heap (uop :: rest) lsq := hb ▸ hm₀
    simp only [ReorderBuffer.commitLoop, hb]
    by_cases hc : (heap uop).canCommit = true
    swap
    · simp only [hc, Bool.not_false, if_true]
      exact ⟨_, rfl, hm₀⟩
    simp only [hc, Bool.not_true, Bool.false_eq_true, if_false]
    by_cases he : (heap uop).exceptionEncountered = true
    · -- an instruction with an exception is neither a load nor a store
      obtain ⟨hl, hs⟩ := hm.exception uop (List.mem_cons_self _ _) he
      simp only [he, if_true]
      exact ⟨_, rfl, hm.tail_of_plain hl hs⟩
    simp only [he, Bool.false_eq_true, if_false]
    by_cases hs : (heap uop).isStore = true
    · obtain ⟨v, lsq', hcs, hm'⟩ := hm.commitStore hs
      simp only [hs, if_true, hcs, bind, Except.bind]
      split
      · exact ⟨_, rfl, hm'⟩
      · exact ih _ _ _ hm'
    simp only [hs, Bool.false_eq_true, if_false]
    by_cases hl : (heap uop).isLoad = true
    · obtain ⟨lsq', hcl, hm'⟩ := hm.commitLoad hl
      simp only [hl, if_true, hcl, bind, Except.bind]
      exact ih _ _ _ hm'
    · simp only [hl, Bool.false_eq_true, if_false]
      exact ih _ _ _ (hm.tail_of_plain (Bool.eq_false_iff.2 hl) (Bool.eq_false_iff.2 hs))

namespace Backend

/-! ## Runs that keep loads and stores free of exceptions -/

/-- An event that keeps loads and stores free of exceptions: decode hands
over no instruction that is both a load and a store, nor a load or a store
that carries an exception, and writeback records an exception only on an
instruction that is neither. -/
def tame (s : Backend) : Action → Bool
  | .rename insn =>
    !(insn.isLoad && insn.isStore) && !(insn.exceptionEncountered && (insn.isLoad || insn.isStore))
  | .complete uop e => !(e && ((s.heap uop).isLoad || (s.heap uop).isStore))
  | _ => true

/-- Every event of the run is tame in the state it meets. -/
def tameRun (s : Backend) : List Action → Bool
  | [] => true
  | a :: rest => s.tame a && match s.step a with
    | .ok s' => tameRun s' rest
    | .error _ => true

variable {s s' : Backend}

theorem mirrors_init (maxSize : Nat) (config : LoadStoreQueue.Config) :
    Mirrors (init maxSize config).heap (init maxSize config).rob.buffer (init maxSize config).lsq :=
  ⟨rfl, rfl, (fun _ h => nomatch h), fun _ h => nomatch h⟩

/-- Renaming appends the instruction to the buffer and to the queue of its
kind. -/
theorem rename_mirrors (hp : s.book.Placement) (hm : Mirrors s.heap s.rob.buffer s.lsq)
    {insn : Instruction} (ht : s.tame (.rename insn) = true) (h : s.step (.rename insn) = .ok s') :
    Mirrors s'.heap s'.rob.buffer s'.lsq := by
  simp only [tame] at ht
  have hk : insn.isLoad = false ∨ insn.isStore = false := by
    revert ht; cases insn.isLoad <;> cases insn.isStore <;> simp
  have hx : insn.exceptionEncountered = true → insn.isLoad = false ∧ insn.isStore = false := by
    revert ht; cases insn.exceptionEncountered <;> cases insn.isLoad <;> cases insn.isStore <;> simp
  simp only [step] at h
  split at h
  · cases h; exact hm
  unfold rename at h
  split at h
  · cases h; exact hm
  by_cases hlen : s.rob.buffer.length < s.rob.maxSize
  swap
  · simp [ReorderBuffer.reserve, hlen, Except.map] at h
  simp only [ReorderBuffer.reserve, hlen, if_true, Except.map, Except.ok.injEq] at h
  subst h
  -- the new sequence id is not in the buffer, whose instructions keep their kind
  have hold : ∀ q ∈ s.rob.buffer, Function.update s.heap s.rob.seqId insn q = s.heap q :=
    fun q hq => Function.update_noteq (hp.buffer_lt q hq).ne _ _
  have hl : s.rob.buffer.filter (fun q => (Function.update s.heap s.rob.seqId insn q).isLoad) =
      s.rob.buffer.filter fun q => (s.heap q).isLoad := List.filter_congr fun q hq => by rw [hold q hq]
  have hs : s.rob.buffer.filter (fun q => (Function.update s.heap s.rob.seqId insn q).isStore) =
      s.rob.buffer.filter fun q => (s.heap q).isStore := List.filter_congr fun q hq => by rw [hold q hq]
  refine ⟨?_, ?_, fun q hq => ?_, fun q hq => ?_⟩
  · rcases hL : insn.isLoad <;> rcases hS : insn.isStore <;>
      simp [LoadStoreQueue.addLoad, LoadStoreQueue.addStore, List.filter_append, hl, hm.loads, hL, hS]
  · rcases hL : insn.isLoad <;> rcases hS : insn.isStore <;>
      simp [LoadStoreQueue.addLoad, LoadStoreQueue.addStore, List.filter_append, hs, hm.stores, hL, hS]
  · dsimp only at hq ⊢
    rcases List.mem_append.1 hq with hq | hq
    · rw [hold q hq]; exact hm.kind q hq
    · rw [List.mem_singleton.1 hq, Function.update_same]; exact hk
  · dsimp only at hq ⊢
    rcases List.mem_append.1 hq with hq | hq
    · rw [hold q hq]; exact hm.exception q hq
    · rw [List.mem_singleton.1 hq, Function.update_same]; exact hx

/-- A flush after `a` leaves the instructions up to `a` in the buffer, marks
the others flushed, and `purgeFlushed` drops exactly those from the queues. -/
theorem flush_mirrors (hp : s.book.Placement) (hm : Mirrors s.heap s.rob.buffer s.lsq) {a : Nat}
    (h : s.step (.flush a) = .ok s') : Mirrors s'.heap s'.rob.buffer s'.lsq := by
  simp only [step, Except.ok.injEq] at h
  subst h
  have hf := ReorderBuffer.flush_spec' s.heap a hp.buffer_sorted
  obtain ⟨hlq, hsq, -⟩ := @LoadStoreQueue.purgeFlushed_spec (ReorderBuffer.flush a (s.heap, s.rob)).1 s.lsq
  set H := (ReorderBuffer.flush a (s.heap, s.rob)).1
  have hH : ∀ q, H q = if q ∈ s.rob.buffer ∧ a < q then { s.heap q with flushed := true } else s.heap q :=
    hf.flushed
  have hflag : ∀ q, (H q).isLoad = (s.heap q).isLoad ∧ (H q).isStore = (s.heap q).isStore ∧
      (H q).exceptionEncountered = (s.heap q).exceptionEncountered := fun q => by
    rw [hH q]; split <;> exact ⟨rfl, rfl, rfl⟩
  -- an instruction of the buffer is flushed exactly when it is younger than `a`
  have hgone : ∀ q ∈ s.rob.buffer, (!(H q).flushed) = decide (q ≤ a) := fun q hq => by
    rw [hH q]
    by_cases ha : a < q
    · simp [hq, ha]
    · have hlive : (s.heap q).flushed = false := hp.buffer_live q hq
      simp [hq, ha, hlive, Nat.le_of_not_lt ha]
  have hkept : ∀ q ∈ (ReorderBuffer.flush a (s.heap, s.rob)).2.buffer, q ∈ s.rob.buffer := fun q hq => by
    rw [hf.buffer] at hq; exact (List.mem_filter.1 hq).1
  refine ⟨?_, ?_, fun q hq => ?_, fun q hq => ?_⟩
  · rw [hlq, hm.loads, hf.buffer, List.filter_filter, List.filter_filter]
    exact List.filter_congr fun q hq => by rw [hgone q hq, (hflag q).1, Bool.and_comm]
  · have hmap : (s.lsq.storeQueue.filter fun e => !(H e.1).flushed).map Prod.fst =
        (s.lsq.storeQueue.map Prod.fst).filter fun q => !(H q).flushed := by
      rw [List.filter_map]; rfl
    rw [hsq, hmap, hm.stores, hf.buffer, List.filter_filter, List.filter_filter]
    exact List.filter_congr fun q hq => by
      simp only [Function.comp_apply]; rw [hgone q hq, (hflag q).2.1, Bool.and_comm]
  · rw [(hflag q).1, (hflag q).2.1]; exact hm.kind q (hkept q hq)
  · rw [(hflag q).1, (hflag q).2.1, (hflag q).2.2]; exact hm.exception q (hkept q hq)

/-- **Every tame event keeps the mirror.** -/
theorem step_mirrors (hp : s.book.Placement) (hm : Mirrors s.heap s.rob.buffer s.lsq) {a : Action}
    (ht : s.tame a = true) (h : s.step a = .ok s') : Mirrors s'.heap s'.rob.buffer s'.lsq := by
  cases a with
  | rename insn => exact rename_mirrors hp hm ht h
  | generateAddresses uop addresses =>
    simp only [step] at h
    split at h <;> cases h
    · dsimp only
      exact hm.congr rfl rfl (fun q _ => update_kind s.heap (by rfl) (by rfl) q) fun q _ he => .inl (by
        rw [Function.update_apply] at he; split at he <;> simp_all)
    · exact hm
  | startLoad uop =>
    simp only [step] at h
    split at h <;> cases h
    · obtain ⟨hl, hs, hflags, -⟩ := @LoadStoreQueue.startLoad_spec s.heap uop s.lsq
      exact hm.congr hl (by rw [hs])
        (fun q _ => ⟨(hflags q).2.2.1, (LoadStoreQueue.startLoad_kind s.heap uop s.lsq q).1⟩)
        fun q _ he => .inl (by rwa [(LoadStoreQueue.startLoad_kind s.heap uop s.lsq q).2] at he)
    · exact hm
  | complete uop e =>
    simp only [step] at h
    split at h <;> cases h
    · dsimp only
      refine hm.congr rfl rfl (fun q _ => update_kind s.heap (by rfl) (by rfl) q) fun q _ he => ?_
      rw [Function.update_apply] at he
      split at he
      · -- writeback records an exception only on an instruction that is neither kind
        subst q
        cases he
        right
        simpa [tame] using ht
      · exact .inl he
    · exact hm
  | commit k =>
    obtain ⟨r, hr, hm'⟩ := commitLoop_mirrors s.heap (min k s.rob.buffer.length) 0
      { s.rob with shouldFlush := false } s.lsq hm
    simp only [step, ReorderBuffer.commit, hr, Except.map, Except.ok.injEq] at h
    subst h
    exact hm'
  | flush a => exact flush_mirrors hp hm h
  | tick answers =>
    simp only [step, Except.ok.injEq] at h
    subst h
    exact hm.congr rfl rfl (fun _ _ => ⟨rfl, rfl⟩) fun _ _ he => .inl he

/-- Every tame run keeps the placement of started loads and the mirror. -/
theorem run_mirrors {actions : List Action} (hp : s.book.Placement) (hm : Mirrors s.heap s.rob.buffer s.lsq)
    (ht : s.tameRun actions = true) (h : s.run actions = .ok s') :
    s'.book.Placement ∧ Mirrors s'.heap s'.rob.buffer s'.lsq := by
  induction actions generalizing s with
  | nil => cases h; exact ⟨hp, hm⟩
  | cons a rest ih =>
    obtain ⟨s₁, h₁, h⟩ := bind_eq_ok.1 h
    simp only [tameRun, h₁, Bool.and_eq_true] at ht
    exact ih (step_placement hp h₁) (step_mirrors hp hm ht.1 h₁) ht.2 h

/-- **The load/store queue mirrors the reorder buffer.** Over every run from a
new back end in which no instruction is both a load and a store and no load or
store carries an exception, the load queue is the list of loads of the
reorder buffer and the store queue the list of its stores, in order; every
`commit` passes the assertions of `commitLoad` and `commitStore`; and a flush
after `a` marks flushed every instruction of the buffer younger than `a`, and
leaves no instruction younger than `a` in the buffer, the two queues,
`requestedLoads_` or the confliction lists. -/
theorem loadStoreQueue_mirrors_buffer {maxSize : Nat} {config : LoadStoreQueue.Config}
    {actions : List Action} (ht : (init maxSize config).tameRun actions = true)
    (h : (init maxSize config).run actions = .ok s) :
    s.lsq.loadQueue = s.rob.buffer.filter (fun q => (s.heap q).isLoad) ∧
    s.lsq.storeQueue.map Prod.fst = s.rob.buffer.filter (fun q => (s.heap q).isStore) ∧
    (∀ k, ∃ s', s.step (.commit k) = .ok s') ∧
    ∀ a s', s.step (.flush a) = .ok s' →
      (∀ q ∈ s.rob.buffer, a < q → (s'.heap q).flushed = true) ∧
      ∀ q, q ∈ s'.rob.buffer ∨ q ∈ s'.lsq.loadQueue ∨ q ∈ s'.lsq.storeQueue.map Prod.fst ∨
        q ∈ s'.lsq.requestedLoads.keys ∨ q ∈ s'.lsq.conflictionMap.values → q ≤ a := by
  obtain ⟨hp, hm⟩ := run_mirrors (placement_init maxSize config) (mirrors_init maxSize config) ht h
  refine ⟨hm.loads, hm.stores, fun k => ?_, fun a s' hf => ?_⟩
  · obtain ⟨r, hr, -⟩ := commitLoop_mirrors s.heap (min k s.rob.buffer.length) 0
      { s.rob with shouldFlush := false } s.lsq hm
    exact ⟨{ s with rob := r.2.1, lsq := r.2.2 }, by simp only [step, ReorderBuffer.commit, hr, Except.map]⟩
  have hp' := step_placement hp hf
  have hm' := flush_mirrors hp hm hf
  simp only [step, Except.ok.injEq] at hf
  subst hf
  have hspec := ReorderBuffer.flush_spec' s.heap a hp.buffer_sorted
  have hbuf : ∀ q ∈ (ReorderBuffer.flush a (s.heap, s.rob)).2.buffer, q ≤ a := fun q hq => by
    rw [hspec.buffer] at hq; simpa using (List.mem_filter.1 hq).2
  refine ⟨fun q hq haq => by dsimp only; rw [hspec.flushed q, if_pos ⟨hq, haq⟩], fun q hq => hbuf q ?_⟩
  rcases hq with hq | hq | hq | hq | hq
  · exact hq
  · rw [hm'.loads] at hq; exact (List.mem_filter.1 hq).1
  · rw [hm'.stores] at hq; exact (List.mem_filter.1 hq).1
  · have hq := hp'.requested_queued q hq
    rw [book_loadQueue, hm'.loads] at hq
    exact (List.mem_filter.1 hq).1
  · exact hp'.parked_buffered q hq

/-- A store and a load, neither with addresses, retire together. -/
def mirrorRun : List Action :=
  [.rename { isStore := true }, .rename { isLoad := true }, .complete 0 false, .complete 1 false, .commit 4]

theorem mirrorRun_mirrors : ∃ s, (init 8 smallQueues).run mirrorRun = .ok s ∧
    (init 8 smallQueues).tameRun mirrorRun = true ∧
    s.lsq.loadQueue = s.rob.buffer.filter (fun q => (s.heap q).isLoad) ∧
    s.lsq.storeQueue.map Prod.fst = s.rob.buffer.filter (fun q => (s.heap q).isStore) ∧
    (∀ k, ∃ s', s.step (.commit k) = .ok s') ∧
    ∀ a s', s.step (.flush a) = .ok s' →
      (∀ q ∈ s.rob.buffer, a < q → (s'.heap q).flushed = true) ∧
      ∀ q, q ∈ s'.rob.buffer ∨ q ∈ s'.lsq.loadQueue ∨ q ∈ s'.lsq.storeQueue.map Prod.fst ∨
        q ∈ s'.lsq.requestedLoads.keys ∨ q ∈ s'.lsq.conflictionMap.values → q ≤ a :=
  ⟨_, rfl, rfl, loadStoreQueue_mirrors_buffer (show (init 8 smallQueues).tameRun mirrorRun = true from rfl) rfl⟩

/-! ## A load that retires with an exception -/


/-- After `loadExceptionRun`, load 2 is renamed, sent to memory and becomes
commit-ready, and the core commits. -/
def staleLoadFrontRun : List Action :=
  loadExceptionRun ++
    [.rename { isLoad := true, instructionAddress := 0x108 }, .generateAddresses 2 [access40],
     .startLoad 2, .complete 2 false, .commit 4]

/-- Once load 1 retires with an exception, the reorder buffer is empty while
the load queue still holds load 1; the next load to commit fails
`commitLoad`'s assertion. -/
theorem commitLoad_assertion_fails :
    (∃ s, run (init 8 smallQueues) loadExceptionRun = .ok s ∧
      s.rob.buffer = [] ∧ s.lsq.loadQueue = [1]) ∧
    run (init 8 smallQueues) staleLoadFrontRun =
      .error "Attempted to commit a load that wasn't present at the front of the load queue" :=
  ⟨⟨_, rfl, by decide, by decide⟩, rfl⟩

end Backend

end SimEng.Pipeline
