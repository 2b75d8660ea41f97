import SimEng.InOrder.Core

/-!
# SimEng — the in-order core's pending exception

`models::inorder::Core` keeps one pending exception: `exceptionGenerated_`
and `exceptionGeneratingInstruction_`. The execution units and writeback
report exceptions through `raiseException`, which keeps the older (lower
sequence id) of the pending and the new instruction; a flush in
`flushIfNeeded` drops the pending exception if its instruction was flushed;
and `handleException` registers it with the exception handler once its
instruction is the next to be written back, flushes the pipeline, and
`processException` clears `exceptionGenerated_` when the handler is done.

The model runs these functions of `Core` on a `Tracked` state, which adds
two ghost fields to the core: the number of instructions created so far
(their sequence ids are `0, 1, …`) and the instructions passed to
`raiseException` since the last exception was handled. A run is admissible
when each new instruction has an instruction id no lower than the earlier
ones (sequence order agrees with instruction-id order) and no flushed
instruction raises; `flushIfNeeded` flushes every instruction younger than
its target, a suffix in instruction-id order.

Main results:

* `Tracked.Reachable.inv` — the invariant `Tracked.Inv` holds in every state
  of every admissible run;
* `pendingException_oldest` — in every such state the pending exception
  belongs to the oldest unflushed instruction raised since the last handled
  exception; a flush clears it exactly when that instruction is flushed, and
  then every instruction raised since is flushed; and the exception that
  `handleException` registers is that oldest one.
-/

namespace SimEng.InOrder

namespace Core

/-- `handleException`, with `processException` run until the exception
handler is done. The exception is registered only if its instruction is the
next to be written back (`staging_.getNextSeqID()`); the pipeline units are
flushed (`issueUnit_.flush()`, `staging_.flush()`, `eu.flush()`), and
`exceptionGenerated_` is cleared. The handler's result (the new PC, the state
change, halting) is not modelled. Returns the registered instruction. -/
def handleException (nextSeqId : Nat) (s : Core) : Option Nat × Core :=
  match s.exceptionGeneratingInstruction with
  | some insn =>
    if nextSeqId < insn then (none, s)
    else (some insn, { s with heap := fun q => { s.heap q with flushed := true }, exceptionGenerated := false })
  | none => (none, s)

@[simp] theorem flushUnits_instructionId (afterInsnId : Nat) (heap : Heap) (q : Nat) :
    (flushUnits afterInsnId heap q).instructionId = (heap q).instructionId := by
  unfold flushUnits; split <;> rfl

theorem flushUnits_flushed (afterInsnId : Nat) (heap : Heap) (q : Nat) :
    (flushUnits afterInsnId heap q).flushed = ((heap q).flushed || decide (afterInsnId < (heap q).instructionId)) := by
  unfold flushUnits; split <;> simp [*]

@[simp] theorem raiseException_heap (insn : Nat) (s : Core) : (s.raiseException insn).heap = s.heap := by
  unfold raiseException; split
  · split <;> rfl
  · rfl

@[simp] theorem raiseException_exceptionGenerated (insn : Nat) (s : Core) :
    (s.raiseException insn).exceptionGenerated = true := by
  unfold raiseException; split
  · split
    · assumption
    · assumption
  · rfl

@[simp] theorem clearFlushedException_heap (s : Core) : (clearFlushedException s).heap = s.heap := by
  unfold clearFlushedException; split
  · split <;> rfl
  · rfl

/-- `flushIfNeeded` either leaves the heap and the pending exception alone,
or flushes the instructions younger than some target and then drops the
pending exception if its instruction was flushed. -/
theorem flushIfNeeded_cases (requests : List FlushRequest) (decodeFlush : Option Nat) (s : Core) :
    ((flushIfNeeded requests decodeFlush s).heap = s.heap ∧
      (flushIfNeeded requests decodeFlush s).exceptionGenerated = s.exceptionGenerated ∧
      (flushIfNeeded requests decodeFlush s).exceptionGeneratingInstruction = s.exceptionGeneratingInstruction) ∨
    ∃ afterInsnId c, flushIfNeeded requests decodeFlush s = clearFlushedException c ∧
      c.heap = flushUnits afterInsnId s.heap ∧ c.exceptionGenerated = s.exceptionGenerated ∧
      c.exceptionGeneratingInstruction = s.exceptionGeneratingInstruction := by
  unfold flushIfNeeded
  generalize hs : (if s.loadViolation = true then { s with loadViolations := s.loadViolations + 1 } else s) = s₁
  -- counting a violation touches neither the heap nor the pending exception
  have hfields : s₁.heap = s.heap ∧ s₁.exceptionGenerated = s.exceptionGenerated ∧
      s₁.exceptionGeneratingInstruction = s.exceptionGeneratingInstruction := by
    subst hs; split <;> exact ⟨rfl, rfl, rfl⟩
  simp only
  split
  · exact Or.inr ⟨_, _, rfl, by rw [hfields.1], hfields.2.1, hfields.2.2⟩
  · split <;> exact Or.inl hfields

theorem clearFlushedException_of_not_generated {s : Core} (h : s.exceptionGenerated = false) :
    clearFlushedException s = s := by
  unfold clearFlushedException; rw [h]

theorem clearFlushedException_of_not_flushed {s : Core} {insn : Nat} (hg : s.exceptionGenerated = true)
    (hp : s.exceptionGeneratingInstruction = some insn) (hf : (s.heap insn).flushed = false) :
    clearFlushedException s = s := by
  unfold clearFlushedException; rw [hg, hp]; simp [hf]

theorem clearFlushedException_of_flushed {s : Core} {insn : Nat} (hg : s.exceptionGenerated = true)
    (hp : s.exceptionGeneratingInstruction = some insn) (hf : (s.heap insn).flushed = true) :
    (clearFlushedException s).exceptionGenerated = false := by
  unfold clearFlushedException; rw [hg, hp]; simp [hf]

theorem clearFlushedException_of_generated {s : Core} (h : (clearFlushedException s).exceptionGenerated = true) :
    clearFlushedException s = s := by
  cases hg : s.exceptionGenerated
  · exact clearFlushedException_of_not_generated hg
  · cases hp : s.exceptionGeneratingInstruction with
    | none => unfold clearFlushedException; rw [hg, hp]
    | some insn =>
      cases hf : (s.heap insn).flushed
      · exact clearFlushedException_of_not_flushed hg hp hf
      · rw [clearFlushedException_of_flushed hg hp hf] at h; cases h

/-- A flush that keeps the pending exception keeps its instruction. -/
theorem flushIfNeeded_pending {requests : List FlushRequest} {decodeFlush : Option Nat} {s : Core}
    (h : (flushIfNeeded requests decodeFlush s).exceptionGenerated = true) :
    (flushIfNeeded requests decodeFlush s).exceptionGeneratingInstruction = s.exceptionGeneratingInstruction := by
  rcases flushIfNeeded_cases requests decodeFlush s with ⟨-, -, hpend⟩ | ⟨_, c, heq, -, -, hpend⟩
  · exact hpend
  · rw [heq] at h ⊢
    rw [clearFlushedException_of_generated h, hpend]

end Core

/-! ## Runs that raise, flush and handle exceptions -/

/-- The core with two ghost fields: `fetched` instructions exist, with
sequence ids `0, …, fetched - 1`, and `raised` lists the instructions passed
to `raiseException` since the last exception was handled. -/
structure Tracked where
  core : Core
  fetched : Nat
  raised : List Nat

/-- What changes the pending exception or the instructions it concerns. -/
inductive ExceptionEvent
  /-- A new instruction, with the next sequence id, enters the pipeline. -/
  | fetch (insn : Instruction)
  /-- An execution unit or writeback calls `raiseException`. -/
  | raise (insn : Nat)
  /-- `Core::tick` calls `flushIfNeeded`. -/
  | flushIfNeeded (requests : List FlushRequest) (decodeFlush : Option Nat)
  /-- `Core::tick` calls `handleException`, as it does while
  `exceptionGenerated_` is set. -/
  | handleException (nextSeqId : Nat)

namespace ExceptionEvent

/-- One event on the tracked core. -/
def step : ExceptionEvent → Tracked → Tracked
  | fetch insn, t =>
    { t with
      core := { t.core with heap := Function.update t.core.heap t.fetched insn }
      fetched := t.fetched + 1 }
  | raise insn, t => { t with core := t.core.raiseException insn, raised := t.raised ++ [insn] }
  | flushIfNeeded requests decodeFlush, t => { t with core := t.core.flushIfNeeded requests decodeFlush }
  | handleException nextSeqId, t =>
    if t.core.exceptionGenerated then
      match t.core.handleException nextSeqId with
      | (some _, c) => ⟨c, t.fetched, []⟩
      | (none, c) => { t with core := c }
    else t

/-- The conditions of an admissible run: a new instruction is not flushed and
has an instruction id no lower than every earlier one, and only an existing,
unflushed instruction raises. -/
def Allowed : ExceptionEvent → Tracked → Prop
  | fetch insn, t => insn.flushed = false ∧ ∀ q < t.fetched, (t.core.heap q).instructionId ≤ insn.instructionId
  | raise insn, t => insn < t.fetched ∧ (t.core.heap insn).flushed = false
  | flushIfNeeded _ _, _ => True
  | handleException _, _ => True

instance (e : ExceptionEvent) (t : Tracked) : Decidable (e.Allowed t) := by
  cases e <;> unfold Allowed <;> infer_instance

end ExceptionEvent

namespace Tracked

/-- The states of admissible runs from a core with no pending exception and
no instruction yet. -/
inductive Reachable : Tracked → Prop
  | init (core : Core) : core.exceptionGenerated = false → Reachable ⟨core, 0, []⟩
  | step {t : Tracked} (e : ExceptionEvent) : Reachable t → e.Allowed t → Reachable (e.step t)

/-- `insn` is the oldest unflushed instruction raised since the last handled
exception. -/
def OldestPending (t : Tracked) (insn : Nat) : Prop :=
  insn ∈ t.raised ∧ (t.core.heap insn).flushed = false ∧
    ∀ q ∈ t.raised, (t.core.heap q).flushed = false → insn ≤ q

/-- The invariant of admissible runs. -/
structure Inv (t : Tracked) : Prop where
  raised_lt : ∀ q ∈ t.raised, q < t.fetched
  ordered : ∀ a b, a < b → b < t.fetched → (t.core.heap a).instructionId ≤ (t.core.heap b).instructionId
  flushed_of_idle : t.core.exceptionGenerated = false → ∀ q ∈ t.raised, (t.core.heap q).flushed = true
  pending : t.core.exceptionGenerated = true →
    ∃ insn, t.core.exceptionGeneratingInstruction = some insn ∧ t.OldestPending insn

/-- A run of events, one after the other. -/
def run (t : Tracked) : List ExceptionEvent → Tracked
  | [] => t
  | e :: es => run (e.step t) es

/-- Every event of the run is allowed in the state it meets. -/
def Admissible : Tracked → List ExceptionEvent → Prop
  | _, [] => True
  | t, e :: es => e.Allowed t ∧ Admissible (e.step t) es

instance decAdmissible : ∀ (t : Tracked) (es : List ExceptionEvent), Decidable (Admissible t es)
  | _, [] => isTrue trivial
  | t, e :: es =>
    haveI := decAdmissible (e.step t) es
    inferInstanceAs (Decidable (_ ∧ _))

theorem Reachable.run {t : Tracked} (ht : t.Reachable) : ∀ {es}, Admissible t es → (t.run es).Reachable
  | [], _ => ht
  | e :: _, ⟨he, hes⟩ => (Reachable.step e ht he).run hes

/-! ## The invariant, one event at a time -/

theorem Inv.init (core : Core) (h : core.exceptionGenerated = false) : Tracked.Inv ⟨core, 0, []⟩ where
  raised_lt _ hq := absurd hq (List.not_mem_nil _)
  ordered _ _ _ hb := absurd hb (Nat.not_lt_zero _)
  flushed_of_idle _ _ hq := absurd hq (List.not_mem_nil _)
  pending hg := by rw [h] at hg; cases hg

section Steps

variable {t : Tracked} (h : t.Inv)
include h

/-- Sequence order gives instruction-id order up to a raised instruction. -/
theorem Inv.instructionId_le {a b : Nat} (hab : a ≤ b) (hb : b ∈ t.raised) :
    (t.core.heap a).instructionId ≤ (t.core.heap b).instructionId := by
  rcases Nat.lt_or_eq_of_le hab with hlt | rfl
  · exact h.ordered a b hlt (h.raised_lt b hb)
  · exact Nat.le_refl _

/-- A core with the same heap and the same pending exception keeps the
invariant. -/
theorem Inv.congr {c : Core} (hheap : c.heap = t.core.heap) (hgen : c.exceptionGenerated = t.core.exceptionGenerated)
    (hpend : c.exceptionGeneratingInstruction = t.core.exceptionGeneratingInstruction) :
    ({ t with core := c } : Tracked).Inv := by
  obtain ⟨h₁, h₂, h₃, h₄⟩ := h
  refine ⟨h₁, by rwa [hheap], by rwa [hheap, hgen], ?_⟩
  simpa only [OldestPending, hheap, hgen, hpend] using h₄

theorem Inv.fetch {insn : Instruction} (ha : (ExceptionEvent.fetch insn).Allowed t) :
    ((ExceptionEvent.fetch insn).step t).Inv := by
  obtain ⟨-, hid⟩ := ha
  -- the new instruction takes a sequence id no raised instruction has
  have hkeep : ∀ q ∈ t.raised, Function.update t.core.heap t.fetched insn q = t.core.heap q :=
    fun q hq => Function.update_noteq (Nat.ne_of_lt (h.raised_lt q hq)) _ _
  refine ⟨fun q hq => Nat.lt_succ_of_lt (h.raised_lt q hq), fun a b hab hb => ?_, fun hg q hq => ?_, fun hg => ?_⟩
  · simp only [ExceptionEvent.step, Function.update_apply]
    rcases Nat.lt_succ_iff_lt_or_eq.1 hb with hb | rfl
    · rw [if_neg (Nat.ne_of_lt (Nat.lt_trans hab hb)), if_neg (Nat.ne_of_lt hb)]
      exact h.ordered a b hab hb
    · rw [if_neg (Nat.ne_of_lt hab), if_pos rfl]
      exact hid a hab
  · simp only [ExceptionEvent.step, hkeep q hq] at hg ⊢
    exact h.flushed_of_idle hg q hq
  · obtain ⟨m, hm, hr, hmf, hmin⟩ := h.pending hg
    refine ⟨m, hm, hr, by simp only [ExceptionEvent.step, hkeep m hr, hmf], fun q hq hqf => hmin q hq ?_⟩
    simpa only [ExceptionEvent.step, hkeep q hq] using hqf

theorem Inv.raise {insn : Nat} (ha : (ExceptionEvent.raise insn).Allowed t) :
    ((ExceptionEvent.raise insn).step t).Inv := by
  obtain ⟨hlt, hf⟩ := ha
  refine ⟨fun q hq => ?_, by simpa [ExceptionEvent.step] using h.ordered, fun hg => by simp [ExceptionEvent.step] at hg,
    fun _ => ?_⟩
  · rcases List.mem_append.1 hq with hq | hq
    · exact h.raised_lt q hq
    · rw [List.mem_singleton.1 hq]; exact hlt
  -- the new pending instruction is the older of the two
  have hnew : ∀ m, (t.core.heap m).flushed = false → (∀ q ∈ t.raised, (t.core.heap q).flushed = false → m ≤ q) →
      m ≤ insn → m ∈ t.raised ++ [insn] → ((ExceptionEvent.raise insn).step t).OldestPending m := by
    intro m hmf hmin hle hr
    refine ⟨hr, by simpa [ExceptionEvent.step] using hmf, fun q hq hqf => ?_⟩
    simp only [ExceptionEvent.step, Core.raiseException_heap] at hqf
    rcases List.mem_append.1 hq with hq | hq
    · exact hmin q hq hqf
    · rw [List.mem_singleton.1 hq]; exact hle
  cases hg : t.core.exceptionGenerated
  · refine ⟨insn, by simp [ExceptionEvent.step, Core.raiseException, hg], hnew insn hf (fun q hq hqf => ?_)
      (Nat.le_refl _) (List.mem_append_right _ (List.mem_singleton_self _))⟩
    rw [h.flushed_of_idle hg q hq] at hqf; cases hqf
  · obtain ⟨m, hm, hr, hmf, hmin⟩ := h.pending hg
    by_cases hlt' : m < insn
    · exact ⟨m, by simp [ExceptionEvent.step, Core.raiseException, hg, hm, hlt'],
        hnew m hmf hmin (Nat.le_of_lt hlt') (List.mem_append_left _ hr)⟩
    · exact ⟨insn, by simp [ExceptionEvent.step, Core.raiseException, hg, hm, hlt'],
        hnew insn hf (fun q hq hqf => Nat.le_trans (Nat.le_of_not_lt hlt') (hmin q hq hqf)) (Nat.le_refl _)
          (List.mem_append_right _ (List.mem_singleton_self _))⟩

/-- A flush of the instructions younger than `afterInsnId`, then
`clearFlushedException`, keeps the invariant. -/
theorem Inv.flushAt {c : Core} (afterInsnId : Nat) (hheap : c.heap = Core.flushUnits afterInsnId t.core.heap)
    (hgen : c.exceptionGenerated = t.core.exceptionGenerated)
    (hpend : c.exceptionGeneratingInstruction = t.core.exceptionGeneratingInstruction) :
    ({ t with core := c.clearFlushedException } : Tracked).Inv := by
  have hflushed : ∀ q, (c.heap q).flushed =
      ((t.core.heap q).flushed || decide (afterInsnId < (t.core.heap q).instructionId)) := fun q => by
    rw [hheap, Core.flushUnits_flushed]
  have hord : ∀ a b, a < b → b < t.fetched → (c.heap a).instructionId ≤ (c.heap b).instructionId := by
    simpa only [hheap, Core.flushUnits_instructionId] using h.ordered
  cases hg : t.core.exceptionGenerated
  -- no pending exception: the flush only flushes more
  · rw [Core.clearFlushedException_of_not_generated (hgen.trans hg)]
    refine ⟨h.raised_lt, hord, fun _ q hq => ?_, fun hg' => ?_⟩
    · rw [hflushed, h.flushed_of_idle hg q hq, Bool.true_or]
    · rw [hgen, hg] at hg'; cases hg'
  obtain ⟨m, hm, hr, hmf, hmin⟩ := h.pending hg
  cases hfm : (c.heap m).flushed
  -- the pending instruction survives, and is still the oldest unflushed one
  · rw [Core.clearFlushedException_of_not_flushed (hgen.trans hg) (hpend.trans hm) hfm]
    refine ⟨h.raised_lt, hord, fun hg' => ?_, fun _ => ⟨m, hpend.trans hm, hr, hfm, fun q hq hqf => hmin q hq ?_⟩⟩
    · rw [hgen, hg] at hg'; cases hg'
    · rw [hflushed, Bool.or_eq_false_iff] at hqf
      exact hqf.1
  -- the pending instruction is flushed: so is every instruction raised since
  · have hcl := Core.clearFlushedException_of_flushed (hgen.trans hg) (hpend.trans hm) hfm
    have hL : afterInsnId < (t.core.heap m).instructionId := by
      simpa [hmf] using (hflushed m).symm.trans hfm
    refine ⟨h.raised_lt, by simpa only [Core.clearFlushedException_heap] using hord, fun _ q hq => ?_,
      fun hg' => by simp only [hcl] at hg'; cases hg'⟩
    simp only [Core.clearFlushedException_heap, hflushed]
    cases hqf : (t.core.heap q).flushed
    · simpa using Nat.lt_of_lt_of_le hL (h.instructionId_le (hmin q hq hqf) hq)
    · rfl

theorem Inv.flushIfNeeded (requests : List FlushRequest) (decodeFlush : Option Nat) :
    ((ExceptionEvent.flushIfNeeded requests decodeFlush).step t).Inv := by
  rcases Core.flushIfNeeded_cases requests decodeFlush t.core with ⟨hheap, hgen, hpend⟩ |
    ⟨afterInsnId, c, heq, hheap, hgen, hpend⟩
  · exact h.congr hheap hgen hpend
  · show ({ t with core := t.core.flushIfNeeded requests decodeFlush } : Tracked).Inv
    rw [heq]
    exact h.flushAt afterInsnId hheap hgen hpend

theorem Inv.handleException (nextSeqId : Nat) : ((ExceptionEvent.handleException nextSeqId).step t).Inv := by
  simp only [ExceptionEvent.step]
  split
  · cases hp : t.core.exceptionGeneratingInstruction with
    | none => simpa only [Core.handleException, hp] using h
    | some m =>
      by_cases hn : nextSeqId < m
      · simpa only [Core.handleException, hp, hn, if_true] using h
      -- handled: nothing is raised since, and the units' flush keeps instruction ids
      · simp only [Core.handleException, hp, hn, if_false]
        exact ⟨fun _ hq => absurd hq (List.not_mem_nil _), fun a b hab hb => h.ordered a b hab hb,
          fun _ _ hq => absurd hq (List.not_mem_nil _), fun hg => by cases hg⟩
  · exact h

end Steps

/-- **The invariant of admissible runs.** -/
theorem Reachable.inv {t : Tracked} (ht : t.Reachable) : t.Inv := by
  induction ht with
  | init core h => exact Inv.init core h
  | step e _ ha ih =>
    cases e with
    | fetch insn => exact ih.fetch ha
    | raise insn => exact ih.raise ha
    | flushIfNeeded requests decodeFlush => exact ih.flushIfNeeded requests decodeFlush
    | handleException nextSeqId => exact ih.handleException nextSeqId

end Tracked

open Tracked in
/-- **The pending exception is the oldest live one.** In every state of every
admissible run: while `exceptionGenerated_` is set, the pending instruction is
the oldest unflushed instruction raised since the last handled exception; a
`flushIfNeeded` clears it exactly when it flushes that instruction, and then
every instruction raised since is flushed; and the instruction
`handleException` registers is that oldest one. -/
theorem pendingException_oldest {t : Tracked} (ht : t.Reachable) :
    (t.core.exceptionGenerated = true →
      ∃ insn, t.core.exceptionGeneratingInstruction = some insn ∧ t.OldestPending insn) ∧
    (∀ requests decodeFlush insn, t.core.exceptionGenerated = true →
      t.core.exceptionGeneratingInstruction = some insn →
      ((t.core.flushIfNeeded requests decodeFlush).exceptionGenerated = false ↔
        ((t.core.flushIfNeeded requests decodeFlush).heap insn).flushed = true) ∧
      ((t.core.flushIfNeeded requests decodeFlush).exceptionGenerated = false →
        ∀ q ∈ t.raised, ((t.core.flushIfNeeded requests decodeFlush).heap q).flushed = true)) ∧
    ∀ nextSeqId insn c, t.core.exceptionGenerated = true →
      t.core.handleException nextSeqId = (some insn, c) → t.OldestPending insn := by
  have h := ht.inv
  refine ⟨h.pending, fun requests decodeFlush insn hg hm => ?_, fun nextSeqId insn c hg hh => ?_⟩
  · -- the state after the flush keeps the invariant
    have h' := h.flushIfNeeded requests decodeFlush
    have hr : insn ∈ t.raised := by
      obtain ⟨m, hm', hold⟩ := h.pending hg
      rw [hm, Option.some.injEq] at hm'
      exact hm' ▸ hold.1
    refine ⟨⟨fun hg' => h'.flushed_of_idle hg' insn hr, fun hf => ?_⟩, h'.flushed_of_idle⟩
    cases hg' : (t.core.flushIfNeeded requests decodeFlush).exceptionGenerated
    · rfl
    · obtain ⟨m, hm', _, hmf, _⟩ := h'.pending hg'
      have := Core.flushIfNeeded_pending hg'
      simp only [ExceptionEvent.step] at hm' hmf
      rw [this, hm, Option.some.injEq] at hm'
      rw [← hm', hf] at hmf
      cases hmf
  · obtain ⟨m, hm, hold⟩ := h.pending hg
    simp only [Core.handleException, hm] at hh
    split at hh
    · cases hh
    · rw [Prod.mk.injEq, Option.some.injEq] at hh
      exact hh.1 ▸ hold

/-- A core with no pending exception and an empty load/store queue. -/
def idleCore : Core := { heap := fun _ => {}, lsq := Pipeline.LoadStoreQueue.combinedQueue 4 .INORDER }

/-- Two instructions enter; the younger raises first, then the older. -/
def raisedOutOfOrder : List ExceptionEvent :=
  [.fetch { instructionId := 1 }, .fetch { instructionId := 2 }, .raise 1, .raise 0]

/-- After `raisedOutOfOrder` the pending exception is instruction 0's. -/
theorem raisedOutOfOrder_oldest :
    (Tracked.run ⟨idleCore, 0, []⟩ raisedOutOfOrder).Reachable ∧
      (Tracked.run ⟨idleCore, 0, []⟩ raisedOutOfOrder).core.exceptionGeneratingInstruction = some 0 ∧
      (Tracked.run ⟨idleCore, 0, []⟩ raisedOutOfOrder).OldestPending 0 :=
  have ht : (Tracked.run ⟨idleCore, 0, []⟩ raisedOutOfOrder).Reachable :=
    (Tracked.Reachable.init idleCore rfl).run (by decide)
  have hp := (pendingException_oldest ht).1 rfl
  ⟨ht, rfl, by
    obtain ⟨insn, hi, hold⟩ := hp
    obtain rfl : insn = 0 := Option.some.inj (hi.symm.trans rfl)
    exact hold⟩

end SimEng.InOrder
