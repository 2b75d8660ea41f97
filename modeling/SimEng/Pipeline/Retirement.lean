import Mathlib.Data.List.Sort
import SimEng.Assertions
import SimEng.Pipeline.QueueSteps

/-!
# SimEng — the reorder buffer retires in program order

`outoforder::ReorderBuffer` (outoforder/ReorderBuffer.cc) is driven by three
calls: `reserve`, `commit(k)` and `flush(a)`. Between the calls the other units
of the core change the shared instructions (writeback marks them commit-ready,
an execution unit records an exception) and the load/store queue.

One iteration of `commit`'s loop is split into what it does to the load/store
queue and whether the loop stops after it (`retireEntry`), and what it records
on the register alias table and the core (`retireCalls`). `CommitSpec` then
says what a whole `commit` does: it retires a prefix of the buffer, each entry
commit-ready, each but the last retiring without stopping the loop, and it
stops at the bound, at an entry that is not ready, or just after an entry that
raised an exception or a store for which `commitStore` reported a violation.
`FlushSpec` says what `flush` does.

Main results:

* `commit_spec` — every `commit`, from any state, meets `CommitSpec`;
* `flush_spec'` — every `flush` of a buffer in program order meets `FlushSpec`;
* `reorderBuffer_retires_in_order` — along every run of the three calls,
  interleaved with any change of the shared instructions and the load/store
  queue, the buffer stays within `maxSize` entries in program order, and each
  `commit` and `flush` from the states reached meets its spec.
-/

namespace SimEng.Pipeline

namespace ReorderBuffer

/-! ## What one iteration of `commit` does -/

section Commit

variable (heap : Heap)

/-- The calls `commit` makes for an entry it retires: `raiseException` for an
entry with an exception, `rat.commit` on each destination register otherwise. -/
def retireCalls (uop : Nat) : List RobCall :=
  if (heap uop).exceptionEncountered then [.raiseException uop]
  else (heap uop).destinationRegisters.map .ratCommit

/-- What one iteration of `commit` does to the load/store queue for a
commit-ready entry, and whether the loop stops after it: on an exception, or on
a store for which `commitStore` reports a violation. -/
def retireEntry (uop : Nat) (lsq : LoadStoreQueue) : Except String (Bool × LoadStoreQueue) :=
  if (heap uop).exceptionEncountered then .ok (true, lsq)
  else if (heap uop).isStore then
    (lsq.commitStore heap uop).map fun r => (r.1 && r.2.getViolatingLoad.isSome, r.2)
  else if (heap uop).isLoad then (lsq.commitLoad heap uop).map fun l => (false, l)
  else .ok (false, lsq)

/-- The entries `us`, retired in order, none of them stopping the loop, take
the load/store queue from `lsq` to `lsq'`. -/
inductive Retires : List Nat → LoadStoreQueue → LoadStoreQueue → Prop
  | nil (lsq : LoadStoreQueue) : Retires [] lsq lsq
  | cons {uop : Nat} {us : List Nat} {lsq lsq₁ lsq₂ : LoadStoreQueue} :
      retireEntry heap uop lsq = .ok (false, lsq₁) → Retires us lsq₁ lsq₂ →
      Retires (uop :: us) lsq lsq₂

/-- What `commit(k)` does to a reorder buffer `rob` and a load/store queue
`lsq` when it returns `n` with `rob'` and `lsq'`. It removes the first `n`
entries, at most `k`, each commit-ready, and makes their calls in order. Either
every removed entry retired without stopping the loop, which then ran out of
its bound or met an entry that is not ready; or the last removed entry stopped
it, and the flush it requests is the one of a store's violation. -/
structure CommitSpec (k : Nat) (rob : ReorderBuffer) (lsq : LoadStoreQueue)
    (n : Nat) (rob' : ReorderBuffer) (lsq' : LoadStoreQueue) : Prop where
  count_le : n ≤ k ∧ n ≤ rob.buffer.length
  buffer : rob'.buffer = rob.buffer.drop n
  ready : ∀ u ∈ rob.buffer.take n, (heap u).canCommit = true
  calls : rob'.calls = rob.calls ++ (rob.buffer.take n).flatMap (retireCalls heap)
  seqId : rob'.seqId = rob.seqId
  maxSize : rob'.maxSize = rob.maxSize
  stop : (Retires heap (rob.buffer.take n) lsq lsq' ∧ rob'.shouldFlush = false ∧
      (n = k ∨ n = rob.buffer.length ∨
        ∃ u, rob.buffer[n]? = some u ∧ (heap u).canCommit = false)) ∨
    (∃ u lsq₁, 0 < n ∧ rob.buffer[n - 1]? = some u ∧
      Retires heap (rob.buffer.take (n - 1)) lsq lsq₁ ∧
      retireEntry heap u lsq₁ = .ok (true, lsq') ∧
      rob'.shouldFlush = !(heap u).exceptionEncountered)
  flushAt : rob'.shouldFlush = true → ∃ load, lsq'.getViolatingLoad = some load ∧
    rob'.flushAfter = uint64Pred load ∧ rob'.pc = (heap load).instructionAddress

variable {heap}

/-- `commit` retires nothing. -/
theorem CommitSpec.none {k : Nat} {rob : ReorderBuffer} {lsq : LoadStoreQueue}
    (hf : rob.shouldFlush = false)
    (hstop : 0 = k ∨ 0 = rob.buffer.length ∨
      ∃ u, rob.buffer[0]? = some u ∧ (heap u).canCommit = false) :
    CommitSpec heap k rob lsq 0 rob lsq where
  count_le := ⟨Nat.zero_le _, Nat.zero_le _⟩
  buffer := rfl
  ready := by simp
  calls := by simp
  seqId := rfl
  maxSize := rfl
  stop := .inl ⟨.nil lsq, hf, hstop⟩
  flushAt := by simp [hf]

/-- `commit` stops just after its first entry, which raised an exception or
reported a violation. -/
theorem CommitSpec.first {k : Nat} {rob rob' : ReorderBuffer} {lsq lsq' : LoadStoreQueue}
    {uop : Nat} {rest : List Nat} (hb : rob.buffer = uop :: rest)
    (hc : (heap uop).canCommit = true) (hr : retireEntry heap uop lsq = .ok (true, lsq'))
    (hbuf : rob'.buffer = rest) (hcalls : rob'.calls = rob.calls ++ retireCalls heap uop)
    (hseq : rob'.seqId = rob.seqId) (hmax : rob'.maxSize = rob.maxSize)
    (hf : rob'.shouldFlush = !(heap uop).exceptionEncountered)
    (hat : rob'.shouldFlush = true → ∃ load, lsq'.getViolatingLoad = some load ∧
      rob'.flushAfter = uint64Pred load ∧ rob'.pc = (heap load).instructionAddress) :
    CommitSpec heap (k + 1) rob lsq 1 rob' lsq' where
  count_le := by simp [hb]
  buffer := by simp [hb, hbuf]
  ready := by simp [hb, hc]
  calls := by simp [hb, hcalls]
  seqId := hseq
  maxSize := hmax
  stop := .inr ⟨uop, lsq, Nat.one_pos, by simp [hb], by simpa using Retires.nil lsq, hr, hf⟩
  flushAt := hat

/-- An entry that retires without stopping the loop extends what the rest of
the loop does by one. -/
theorem CommitSpec.cons {k n : Nat} {rob rob₁ rob' : ReorderBuffer}
    {lsq lsq₁ lsq' : LoadStoreQueue} {uop : Nat} {rest : List Nat}
    (hb : rob.buffer = uop :: rest) (hc : (heap uop).canCommit = true)
    (hr : retireEntry heap uop lsq = .ok (false, lsq₁)) (hbuf : rob₁.buffer = rest)
    (hcalls : rob₁.calls = rob.calls ++ retireCalls heap uop)
    (hseq : rob₁.seqId = rob.seqId) (hmax : rob₁.maxSize = rob.maxSize)
    (h : CommitSpec heap k rob₁ lsq₁ n rob' lsq') :
    CommitSpec heap (k + 1) rob lsq (n + 1) rob' lsq' where
  count_le := by have := h.count_le; simp only [hb, hbuf] at this ⊢; simp; omega
  buffer := by rw [h.buffer, hbuf, hb, List.drop_succ_cons]
  ready := by
    rw [hb, List.take_succ_cons]
    rintro u (_ | ⟨_, hu⟩)
    exacts [hc, h.ready u (by rwa [hbuf])]
  calls := by rw [h.calls, hcalls, hbuf, hb, List.take_succ_cons, List.flatMap_cons,
    List.append_assoc]
  seqId := h.seqId.trans hseq
  maxSize := h.maxSize.trans hmax
  stop := by
    have hs := h.stop
    rw [hbuf] at hs
    rcases hs with ⟨hR, hf, hs⟩ | ⟨u, l, hn, hu, hR, hl, hf⟩
    · refine .inl ⟨by rw [hb, List.take_succ_cons]; exact .cons hr hR, hf, ?_⟩
      simpa [hb] using hs
    · obtain ⟨n, rfl⟩ := Nat.exists_eq_add_of_lt hn
      refine .inr ⟨u, l, Nat.succ_pos _, by simpa [hb] using hu, ?_, hl, hf⟩
      simpa [hb] using Retires.cons hr hR
  flushAt := h.flushAt

end Commit

/-! ## `commit` -/

/-- The loop of `commit` meets `CommitSpec` for the iterations it was given. -/
theorem commitLoop_spec (heap : Heap) {k n n' : Nat} {rob rob' : ReorderBuffer}
    {lsq lsq' : LoadStoreQueue} (hf : rob.shouldFlush = false)
    (h : commitLoop heap k n (rob, lsq) = .ok (n', rob', lsq')) :
    ∃ m, n' = n + m ∧ CommitSpec heap k rob lsq m rob' lsq' := by
  induction k generalizing n rob lsq with
  | zero =>
    simp only [commitLoop, Except.ok.injEq, Prod.mk.injEq] at h
    obtain ⟨rfl, rfl, rfl⟩ := h
    exact ⟨0, rfl, .none hf (.inl rfl)⟩
  | succ k ih =>
    rcases hb : rob.buffer with _ | ⟨uop, rest⟩
    · simp only [commitLoop, hb, Except.ok.injEq, Prod.mk.injEq] at h
      obtain ⟨rfl, rfl, rfl⟩ := h
      exact ⟨0, rfl, .none hf (.inr (.inl (by simp [hb])))⟩
    simp only [commitLoop, hb] at h
    by_cases hc : (heap uop).canCommit = true
    swap
    · simp only [hc, Bool.not_false, if_true, Except.ok.injEq, Prod.mk.injEq] at h
      obtain ⟨rfl, rfl, rfl⟩ := h
      exact ⟨0, rfl, .none hf (.inr (.inr ⟨uop, by simp [hb], by simpa using hc⟩))⟩
    simp only [hc, Bool.not_true, Bool.false_eq_true, if_false] at h
    -- the entry raised an exception
    by_cases he : (heap uop).exceptionEncountered = true
    · simp only [he, if_true, Except.ok.injEq, Prod.mk.injEq] at h
      obtain ⟨rfl, rfl, rfl⟩ := h
      exact ⟨1, rfl, .first hb hc (by simp [retireEntry, he]) rfl (by simp [retireCalls, he])
        rfl rfl (by simpa [he] using hf) (by simp [hf])⟩
    simp only [he, Bool.false_eq_true, if_false] at h
    -- the loop goes on with the rest of the buffer
    have next : ∀ {lsq₁ : LoadStoreQueue} {rob₁ : ReorderBuffer},
        commitLoop heap k (n + 1) (rob₁, lsq₁) = .ok (n', rob', lsq') → rob₁.buffer = rest →
        rob₁.calls = rob.calls ++ (heap uop).destinationRegisters.map RobCall.ratCommit →
        rob₁.seqId = rob.seqId → rob₁.maxSize = rob.maxSize → rob₁.shouldFlush = false →
        retireEntry heap uop lsq = .ok (false, lsq₁) →
        ∃ m, n' = n + m ∧ CommitSpec heap (k + 1) rob lsq m rob' lsq' :=
      fun h hbuf hcalls hseq hmax hf₁ hr => by
        obtain ⟨m, rfl, hm⟩ := ih hf₁ h
        exact ⟨m + 1, by omega, .cons hb hc hr hbuf (by simp [hcalls, retireCalls, he]) hseq hmax hm⟩
    by_cases hs : (heap uop).isStore = true
    · simp only [hs, if_true] at h
      cases hcs : lsq.commitStore heap uop with
      | error e => simp [hcs, bind, Except.bind] at h
      | ok r =>
        obtain ⟨v, lsq₁⟩ := r
        simp only [hcs, bind, Except.bind] at h
        split at h
        · rename_i load hv
          simp only [Except.ok.injEq, Prod.mk.injEq] at h
          obtain ⟨rfl, rfl, rfl⟩ := h
          exact ⟨1, rfl, .first hb hc (by simp [retireEntry, he, hs, hcs, hv, Except.map]) rfl
            (by simp [retireCalls, he]) rfl rfl (by simp [he]) fun _ => ⟨load, hv, rfl, rfl⟩⟩
        · rename_i hv
          refine next h rfl rfl rfl rfl hf ?_
          cases hl : lsq₁.getViolatingLoad <;> simp_all [retireEntry, Except.map]
    · simp only [hs, Bool.false_eq_true, if_false] at h
      by_cases hl : (heap uop).isLoad = true
      · simp only [hl, if_true] at h
        cases hcl : lsq.commitLoad heap uop with
        | error e => simp [hcl, bind, Except.bind] at h
        | ok lsq₁ =>
          simp only [hcl, bind, Except.bind] at h
          exact next h rfl rfl rfl rfl hf (by simp [retireEntry, he, hs, hl, hcl, Except.map])
      · simp only [hl, Bool.false_eq_true, if_false] at h
        exact next h rfl rfl rfl rfl hf (by simp [retireEntry, he, hs, hl])

/-- Every `commit(k)`, from any reorder buffer and load/store queue, meets
`CommitSpec`. -/
theorem commit_spec (heap : Heap) {k n : Nat} {rob rob' : ReorderBuffer}
    {lsq lsq' : LoadStoreQueue} (h : commit heap k (rob, lsq) = .ok (n, rob', lsq')) :
    CommitSpec heap k rob lsq n rob' lsq' := by
  obtain ⟨m, rfl, hm⟩ := commitLoop_spec heap rfl h
  have hle := hm.count_le
  simp only [Nat.zero_add, Nat.le_min] at hle ⊢
  exact
    { count_le := ⟨hle.1.1, hle.2⟩
      buffer := hm.buffer
      ready := hm.ready
      calls := hm.calls
      seqId := hm.seqId
      maxSize := hm.maxSize
      stop := by
        rcases hm.stop with ⟨hR, hf, hs⟩ | hs
        · refine .inl ⟨hR, hf, ?_⟩
          rcases hs with hs | hs | hs
          · rcases Nat.le_total k rob.buffer.length with hk | hk
            · exact .inl (by simpa [hk] using hs)
            · exact .inr (.inl (by simpa [hk] using hs))
          exacts [.inr (.inl hs), .inr (.inr hs)]
        · exact .inr hs
      flushAt := hm.flushAt }

/-! ## `flush` -/

/-- The calls of the flush loop: `rat.rewind` on the destinations of each
instruction it removes, from the tail. -/
theorem flushLoop_calls (a : Nat) (l : List Nat) (heap : Heap) (calls : List RobCall) :
    (flushLoop a l (heap, calls)).2.2 =
      calls ++ (l.takeWhile (a < ·)).flatMap
        fun q => (heap q).destinationRegisters.map RobCall.ratRewind := by
  induction l generalizing heap calls with
  | nil => simp [flushLoop]
  | cons uop older ih =>
    by_cases hu : uop ≤ a
    · simp [flushLoop, hu, Nat.not_lt.2 hu]
    · simp [flushLoop, hu, Nat.lt_of_not_le hu, ih]

/-- In a list in decreasing order, the leading entries above `a` are all the
entries above `a`. -/
theorem takeWhile_lt_of_decreasing (a : Nat) {l : List Nat} (hl : l.Pairwise (· > ·)) :
    l.takeWhile (a < ·) = l.filter (a < ·) := by
  induction l with
  | nil => rfl
  | cons uop older ih =>
    rw [List.pairwise_cons] at hl
    by_cases hu : a < uop
    · simp [hu, ih hl.2]
    · have : older.filter (a < ·) = [] :=
        List.filter_eq_nil_iff.2 fun q hq => by have := hl.1 q hq; simp only [decide_eq_true_eq]; omega
      simp [hu, this]

/-- A buffer in program order is the entries up to `a` followed by those
after `a`. -/
theorem filter_le_append_filter_lt (a : Nat) {l : List Nat} (hl : l.Pairwise (· < ·)) :
    l.filter (· ≤ a) ++ l.filter (a < ·) = l := by
  induction l with
  | nil => rfl
  | cons uop younger ih =>
    rw [List.pairwise_cons] at hl
    by_cases hu : uop ≤ a
    · simp [hu, Nat.not_lt.2 hu, ih hl.2]
    · have h₁ : younger.filter (· ≤ a) = [] :=
        List.filter_eq_nil_iff.2 fun q hq => by have := hl.1 q hq; simp only [decide_eq_true_eq]; omega
      have h₂ : younger.filter (a < ·) = younger :=
        List.filter_eq_self.2 fun q hq => by have := hl.1 q hq; simp only [decide_eq_true_eq]; omega
      simp [hu, Nat.lt_of_not_le hu, h₁, h₂]

/-- What `flush(a)` does to the shared instructions and the reorder buffer:
it removes the suffix of entries younger than `a` and keeps the others in
order, marks each removed one flushed, and calls `rat.rewind` on their
destinations from the youngest to the oldest. -/
structure FlushSpec (heap : Heap) (a : Nat) (rob : ReorderBuffer)
    (r : Heap × ReorderBuffer) : Prop where
  buffer : r.2.buffer = rob.buffer.filter (· ≤ a)
  suffix : rob.buffer = r.2.buffer ++ rob.buffer.filter (a < ·)
  flushed : ∀ q, r.1 q = if q ∈ rob.buffer ∧ a < q then { heap q with flushed := true } else heap q
  calls : r.2.calls = rob.calls ++ (rob.buffer.filter (a < ·)).reverse.flatMap
    fun q => (heap q).destinationRegisters.map RobCall.ratRewind
  seqId : r.2.seqId = rob.seqId
  maxSize : r.2.maxSize = rob.maxSize

/-- Every `flush(a)` of a buffer in program order meets `FlushSpec`. -/
theorem flush_spec' (heap : Heap) (a : Nat) {rob : ReorderBuffer}
    (hs : rob.buffer.Pairwise (· < ·)) : FlushSpec heap a rob (flush a (heap, rob)) := by
  obtain ⟨h₁, h₂, h₃⟩ := flush_spec a heap rob hs
  refine ⟨h₁, by rw [h₁, filter_le_append_filter_lt a hs], h₃, ?_, h₂, rfl⟩
  simp only [flush]
  rw [flushLoop_calls, takeWhile_lt_of_decreasing a (List.pairwise_reverse.2 hs),
    List.filter_reverse]

/-! ## Runs -/

/-- The buffer is well formed: at most `maxSize` entries, with sequence ids
strictly increasing from head to tail, each below the next id to assign. -/
structure Wf (rob : ReorderBuffer) : Prop where
  bounded : rob.buffer.length ≤ rob.maxSize
  sorted : rob.buffer.Pairwise (· < ·)
  reserved : ∀ q ∈ rob.buffer, q < rob.seqId

/-- The entries of a well-formed buffer are ids already given out, in the
order they were given out. -/
theorem Wf.sublist_range {rob : ReorderBuffer} (hw : rob.Wf) : rob.buffer.Sublist (List.range rob.seqId) :=
  List.sublist_of_subperm_of_sorted
    (List.subperm_of_subset (hw.sorted.imp ne_of_lt) fun q hq => List.mem_range.2 (hw.reserved q hq))
    hw.sorted (List.pairwise_lt_range _)

/-- `unsigned int` subtraction does not wrap when it does not go below zero. -/
theorem unsignedDiff_of_le {a b : Nat} (h : b ≤ a) (ha : a < 2 ^ 32) :
    LoadStoreQueue.unsignedDiff a b = a - b := by
  unfold LoadStoreQueue.unsignedDiff
  rw [Int.emod_eq_of_lt (by omega) (by omega)]
  omega

/-- `getFreeSpace` of a well-formed buffer is the number of free entries. -/
theorem getFreeSpace_add_length {rob : ReorderBuffer} (hw : rob.Wf) (hm : rob.maxSize < 2 ^ 32) :
    rob.getFreeSpace + rob.buffer.length = rob.maxSize := by
  rw [getFreeSpace, unsignedDiff_of_le hw.bounded hm]
  have := hw.bounded
  omega

theorem Wf.reserve {rob : ReorderBuffer} (hw : rob.Wf) {insn : Instruction} {heap heap' : Heap}
    {rob' : ReorderBuffer} (h : reserve insn (heap, rob) = .ok (heap', rob')) : rob'.Wf := by
  simp only [ReorderBuffer.reserve] at h
  split at h
  · simp only [Except.ok.injEq, Prod.mk.injEq] at h
    obtain ⟨-, rfl⟩ := h
    refine ⟨by simpa [Nat.succ_le] using ‹_›,
      List.pairwise_append.2 ⟨hw.sorted, List.pairwise_singleton _ _, by simpa using hw.reserved⟩,
      ?_⟩
    simp only [List.mem_append, List.mem_singleton]
    rintro q (hq | rfl)
    exacts [Nat.lt_succ_of_lt (hw.reserved q hq), Nat.lt_succ_self _]
  · cases h

theorem Wf.commit {rob : ReorderBuffer} (hw : rob.Wf) {heap : Heap} {k n : Nat}
    {lsq lsq' : LoadStoreQueue} {rob' : ReorderBuffer}
    (h : commit heap k (rob, lsq) = .ok (n, rob', lsq')) : rob'.Wf := by
  have hs := commit_spec heap h
  refine ⟨?_, ?_, fun q hq => ?_⟩
  · rw [hs.buffer, hs.maxSize, List.length_drop]
    exact le_trans (Nat.sub_le _ _) hw.bounded
  · rw [hs.buffer]
    exact hw.sorted.sublist (List.drop_sublist _ _)
  · rw [hs.buffer] at hq
    exact hs.seqId ▸ hw.reserved q (List.mem_of_mem_drop hq)

theorem Wf.flush {rob : ReorderBuffer} (hw : rob.Wf) (heap : Heap) (a : Nat) :
    (flush a (heap, rob)).2.Wf := by
  have hs := flush_spec' heap a hw.sorted
  refine ⟨?_, ?_, fun q hq => ?_⟩
  · rw [hs.buffer, hs.maxSize]
    exact le_trans (List.length_filter_le _ _) hw.bounded
  · rw [hs.buffer]
    exact hw.sorted.filter _
  · rw [hs.buffer] at hq
    exact hs.seqId ▸ hw.reserved q (List.mem_of_mem_filter hq)

end ReorderBuffer

/-- A call on the reorder buffer, or what the other units of the core do
between two calls: writeback and the execution units change the shared
instructions, and the rename unit, the execution units and the memory system
change the load/store queue. -/
inductive RobOp
  | reserve (insn : Instruction)
  | commit (maxCommitSize : Nat)
  | flush (afterSeqId : Nat)
  | update (heap : Heap) (lsq : LoadStoreQueue)

namespace RobOp

/-- Whether the call is `reserve`. -/
def isReserve : RobOp → Bool
  | .reserve _ => true
  | _ => false

/-- The effect of one call on the shared instructions, the reorder buffer and
the load/store queue; an assertion that fails is an error. -/
def step : Heap × ReorderBuffer × LoadStoreQueue → RobOp →
    Except String (Heap × ReorderBuffer × LoadStoreQueue)
  | (heap, rob, lsq), .reserve insn => (ReorderBuffer.reserve insn (heap, rob)).map fun r => (r.1, r.2, lsq)
  | (heap, rob, lsq), .commit k => (ReorderBuffer.commit heap k (rob, lsq)).map fun r => (heap, r.2.1, r.2.2)
  | (heap, rob, lsq), .flush a =>
    let r := ReorderBuffer.flush a (heap, rob)
    .ok (r.1, r.2, lsq)
  | (_, rob, _), .update heap lsq => .ok (heap, rob, lsq)

/-- A run: the calls in order, stopping at a failed assertion. -/
def run (s : Heap × ReorderBuffer × LoadStoreQueue) : List RobOp →
    Except String (Heap × ReorderBuffer × LoadStoreQueue)
  | [] => .ok s
  | op :: rest => (step s op).bind fun s' => run s' rest

theorem step_wf {s s' : Heap × ReorderBuffer × LoadStoreQueue} {op : RobOp} (hw : s.2.1.Wf)
    (h : step s op = .ok s') : s'.2.1.Wf ∧ s'.2.1.maxSize = s.2.1.maxSize := by
  obtain ⟨heap, rob, lsq⟩ := s
  cases op with
  | reserve insn =>
    cases hr : ReorderBuffer.reserve insn (heap, rob) with
    | error e => simp [step, hr, Except.map] at h
    | ok r =>
      simp only [step, hr, Except.map, Except.ok.injEq] at h
      subst h
      refine ⟨hw.reserve hr, ?_⟩
      simp only [ReorderBuffer.reserve] at hr
      split at hr <;> simp only [Except.ok.injEq, reduceCtorEq] at hr
      simp [← hr]
  | commit k =>
    cases hc : ReorderBuffer.commit heap k (rob, lsq) with
    | error e => simp [step, hc, Except.map] at h
    | ok r =>
      simp only [step, hc, Except.map, Except.ok.injEq] at h
      subst h
      exact ⟨hw.commit hc, (ReorderBuffer.commit_spec heap hc).maxSize⟩
  | flush a =>
    simp only [step, Except.ok.injEq] at h
    subst h
    exact ⟨hw.flush heap a, (ReorderBuffer.flush_spec' heap a hw.sorted).maxSize⟩
  | update heap' lsq' =>
    simp only [step, Except.ok.injEq] at h
    subst h
    exact ⟨hw, rfl⟩

/-- Only `reserve` gives out a sequence id, one per call. -/
theorem step_seqId {s s' : Heap × ReorderBuffer × LoadStoreQueue} {op : RobOp} (h : step s op = .ok s') :
    s'.2.1.seqId = s.2.1.seqId + if op.isReserve then 1 else 0 := by
  obtain ⟨heap, rob, lsq⟩ := s
  cases op with
  | reserve insn =>
    obtain ⟨r, hr, rfl⟩ := map_eq_ok.1 h
    simp only [ReorderBuffer.reserve] at hr
    split at hr <;> cases hr
    rfl
  | commit k =>
    obtain ⟨r, hr, rfl⟩ := map_eq_ok.1 h
    exact (ReorderBuffer.commit_spec heap hr).seqId
  | flush a => cases h; rfl
  | update heap' lsq' => cases h; rfl

theorem run_seqId {s s' : Heap × ReorderBuffer × LoadStoreQueue} {ops : List RobOp} (h : run s ops = .ok s') :
    s'.2.1.seqId = s.2.1.seqId + (ops.filter isReserve).length := by
  induction ops generalizing s with
  | nil => cases h; rfl
  | cons op rest ih =>
    obtain ⟨s₁, h₁, h⟩ := bind_eq_ok.1 h
    rw [ih h, step_seqId h₁]
    cases op <;> simp [isReserve, Nat.add_assoc, Nat.add_comm 1]

theorem run_wf {s s' : Heap × ReorderBuffer × LoadStoreQueue} {ops : List RobOp}
    (hw : s.2.1.Wf) (h : run s ops = .ok s') : s'.2.1.Wf ∧ s'.2.1.maxSize = s.2.1.maxSize := by
  induction ops generalizing s with
  | nil => simp only [run, Except.ok.injEq] at h; exact h ▸ ⟨hw, rfl⟩
  | cons op rest ih =>
    cases hs : step s op with
    | error e => simp [run, hs, Except.bind] at h
    | ok s₁ =>
      simp only [run, hs, Except.bind] at h
      obtain ⟨hw₁, hm₁⟩ := step_wf hw hs
      exact (ih hw₁ h).imp_right (·.trans hm₁)

end RobOp

/-- Along every run of `reserve`, `commit` and `flush` from an empty buffer of
`maxSize` entries, interleaved with any change of the shared instructions and
the load/store queue: the buffer holds at most `maxSize` entries, with sequence
ids strictly increasing from head to tail; the `k`-th `reserve` gave out id
`k`, and the buffer lists ids in the order they were given out. So
`getFreeSpace` is the number of free entries, and while it is positive
`reserve` succeeds, giving the instruction the next id and appending it at the
tail; and every `commit` and `flush` from the state reached meets its spec. -/
theorem reorderBuffer_retires_in_order {maxSize : Nat} (hmax : maxSize < 2 ^ 32) (heap₀ : Heap)
    (lsq₀ : LoadStoreQueue) (ops : List RobOp) {heap : Heap} {rob : ReorderBuffer}
    {lsq : LoadStoreQueue} (h : RobOp.run (heap₀, { maxSize := maxSize }, lsq₀) ops = .ok (heap, rob, lsq)) :
    rob.Wf ∧ rob.seqId = (ops.filter RobOp.isReserve).length ∧ rob.buffer.Sublist (List.range rob.seqId) ∧
    rob.getFreeSpace + rob.buffer.length = maxSize ∧
    (∀ insn, 0 < rob.getFreeSpace → ReorderBuffer.reserve insn (heap, rob) =
      .ok (Function.update heap rob.seqId insn,
        { rob with seqId := rob.seqId + 1, buffer := rob.buffer ++ [rob.seqId] })) ∧
    (∀ k n rob' lsq', ReorderBuffer.commit heap k (rob, lsq) = .ok (n, rob', lsq') →
      ReorderBuffer.CommitSpec heap k rob lsq n rob' lsq') ∧
    ∀ a, ReorderBuffer.FlushSpec heap a rob (ReorderBuffer.flush a (heap, rob)) := by
  obtain ⟨hw, hm⟩ : rob.Wf ∧ rob.maxSize = maxSize := RobOp.run_wf ⟨by simp, by simp, by simp⟩ h
  have hfree := ReorderBuffer.getFreeSpace_add_length hw (hm ▸ hmax)
  rw [hm] at hfree
  refine ⟨hw, by simpa using RobOp.run_seqId h, hw.sublist_range, hfree, fun insn hpos => ?_,
    fun k n rob' lsq' => ReorderBuffer.commit_spec heap, fun a => ReorderBuffer.flush_spec' heap a hw.sorted⟩
  simp only [ReorderBuffer.reserve, if_pos (show rob.buffer.length < rob.maxSize by omega)]

/-- Three instructions are reserved, the oldest, ready, is committed, and the
youngest is flushed. -/
def robRun : List RobOp :=
  [.reserve { commitReady := true }, .reserve {}, .reserve {}, .commit 2, .flush 1]

theorem robRun_retires_in_order : (4 : Nat) < 2 ^ 32 ∧ ∃ heap rob lsq,
    RobOp.run (fun _ => default, { maxSize := 4 }, LoadStoreQueue.combinedQueue 4 .INORDER) robRun =
      .ok (heap, rob, lsq) ∧ rob.buffer = [1] ∧ rob.Wf ∧ rob.seqId = (robRun.filter RobOp.isReserve).length ∧
      rob.buffer.Sublist (List.range rob.seqId) ∧ rob.getFreeSpace + rob.buffer.length = 4 ∧
      (∀ insn, 0 < rob.getFreeSpace → ReorderBuffer.reserve insn (heap, rob) =
        .ok (Function.update heap rob.seqId insn,
          { rob with seqId := rob.seqId + 1, buffer := rob.buffer ++ [rob.seqId] })) ∧
      (∀ k n rob' lsq', ReorderBuffer.commit heap k (rob, lsq) = .ok (n, rob', lsq') →
        ReorderBuffer.CommitSpec heap k rob lsq n rob' lsq') ∧
      ∀ a, ReorderBuffer.FlushSpec heap a rob (ReorderBuffer.flush a (heap, rob)) :=
  ⟨by decide, _, _, _, rfl, rfl, @reorderBuffer_retires_in_order 4 (by decide) (fun _ => default)
    (LoadStoreQueue.combinedQueue 4 .INORDER) robRun _ _ _ rfl⟩

end SimEng.Pipeline
