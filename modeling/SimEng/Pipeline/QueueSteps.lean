import SimEng.Pipeline.ReorderBuffer

/-!
# SimEng — what each queue operation does to the load bookkeeping

One lemma per operation of the load/store queue and the reorder buffer,
stating its effect on the structures that track started loads: the load and
store queues, `requestedLoads_`, `conflictionMap_` and `requestLoadQueue_`, and
the `flushed` flags and addresses of the shared instructions. The invariant of
`Pipeline/Placement.lean` is derived from these lemmas alone.

Main results:

* `parkingStore_youngest` — `startLoad` parks a load on the youngest older
  store in the store queue whose addresses overlap its own;
* `startLoad_spec`, `releaseConflictions_spec`, `commitStore_spec`,
  `commitLoad_spec` — the effect of each operation;
* `flush_spec` — a flush over a sorted reorder buffer drops and marks exactly
  the instructions younger than the flush point.
-/

namespace SimEng.Pipeline

namespace LoadStoreQueue

variable (heap : Heap)

/-! ## The parking search of `startLoad` -/

/-- The store the search returns is in the list, older than the load, and
overlaps it. -/
theorem conflictingStore_spec {seqId : Nat} {addrs : List MemoryAccessTarget}
    {l : List (Nat × List RegisterValue)} {S : Nat}
    (h : conflictingStore heap seqId addrs l = some S) :
    S ∈ l.map Prod.fst ∧ S < seqId ∧ anyOverlap (heap S).generatedAddresses addrs = true := by
  induction l with
  | nil => simp [conflictingStore] at h
  | cons e older ih =>
    obtain ⟨st, d⟩ := e
    simp only [conflictingStore] at h
    split at h
    · rename_i hc; cases h; exact ⟨by simp, hc.1, hc.2⟩
    · obtain ⟨h₁, h₂, h₃⟩ := ih h; exact ⟨by simp [h₁], h₂, h₃⟩

/-- Over stores from youngest to oldest, the search returns the youngest
older store that overlaps: no store between it and the load overlaps. -/
theorem conflictingStore_youngest {seqId : Nat} {addrs : List MemoryAccessTarget}
    {l : List (Nat × List RegisterValue)} {S : Nat} (hl : (l.map Prod.fst).Pairwise (· > ·))
    (h : conflictingStore heap seqId addrs l = some S) {S' : Nat} (hS' : S' ∈ l.map Prod.fst)
    (hlt : S < S') (hold : S' < seqId) :
    anyOverlap (heap S').generatedAddresses addrs = false := by
  induction l with
  | nil => simp at hS'
  | cons e older ih =>
    obtain ⟨st, d⟩ := e
    rw [List.map_cons, List.pairwise_cons] at hl
    simp only [conflictingStore] at h
    rw [List.map_cons, List.mem_cons] at hS'
    split at h
    · cases h
      rcases hS' with rfl | hS'
      · omega
      · exact absurd (hl.1 S' hS') (by omega)
    · rename_i hc
      rcases hS' with rfl | hS'
      · simpa [hold] using hc
      · exact ih hl.2 h hS'

variable {heap}

theorem parkingStore_spec {uop S : Nat} {s : LoadStoreQueue} (h : s.parkingStore heap uop = some S) :
    (heap uop).generatedAddresses ≠ [] ∧ S ∈ s.storeQueue.map Prod.fst ∧ S < uop ∧
      anyOverlap (heap S).generatedAddresses (heap uop).generatedAddresses = true := by
  unfold parkingStore at h
  split at h
  · cases h
  · rename_i ha
    obtain ⟨h₁, h₂, h₃⟩ := conflictingStore_spec heap h
    exact ⟨ha, by simpa using h₁, h₂, h₃⟩

/-- **Parking on the youngest conflicting store.** With the store queue in
program order, `startLoad` parks a load on the youngest store older than the
load whose addresses overlap the load's. -/
theorem parkingStore_youngest {uop S : Nat} {s : LoadStoreQueue}
    (hs : (s.storeQueue.map Prod.fst).Pairwise (· < ·)) (h : s.parkingStore heap uop = some S)
    {S' : Nat} (hS' : S' ∈ s.storeQueue.map Prod.fst) (hlt : S < S') (hold : S' < uop) :
    anyOverlap (heap S').generatedAddresses (heap uop).generatedAddresses = false := by
  unfold parkingStore at h
  split at h
  · cases h
  · refine conflictingStore_youngest heap ?_ h (by simpa using hS') hlt hold
    rw [List.map_reverse, List.pairwise_reverse]; exact hs

/-! ## Starting a load -/

/-- `startLoad` leaves the load and store queues, and the flags and addresses
of every instruction but `hasExecuted`; the load is parked on `parkingStore`, or registered and
scheduled when it has addresses and no conflict, or neither. -/
theorem startLoad_spec (uop : Nat) (s : LoadStoreQueue) :
    (s.startLoad heap uop).2.loadQueue = s.loadQueue ∧
    (s.startLoad heap uop).2.storeQueue = s.storeQueue ∧
    (∀ q, ((s.startLoad heap uop).1 q).flushed = (heap q).flushed ∧
      ((s.startLoad heap uop).1 q).generatedAddresses = (heap q).generatedAddresses ∧
      ((s.startLoad heap uop).1 q).isLoad = (heap q).isLoad ∧
      ((s.startLoad heap uop).1 q).commitReady = (heap q).commitReady) ∧
    (s.startLoad heap uop).2.conflictionMap =
      ((s.parkingStore heap uop).map (s.conflictionMap.pushBack · uop)).getD s.conflictionMap ∧
    (if (heap uop).generatedAddresses ≠ [] ∧ s.parkingStore heap uop = none then
      (s.startLoad heap uop).2.requestedLoads = s.requestedLoads.emplace uop () ∧
      (s.startLoad heap uop).2.requestLoadQueue =
        s.requestLoadQueue.pushBack (s.tickCounter + (heap uop).lsqLatency) uop
    else (s.startLoad heap uop).2.requestedLoads = s.requestedLoads ∧
      (s.startLoad heap uop).2.requestLoadQueue = s.requestLoadQueue) := by
  unfold startLoad parkingStore
  by_cases ha : (heap uop).generatedAddresses = []
  · simp only [ha, if_true]
    refine ⟨trivial, trivial, fun q => ?_, by simp, by simp⟩
    simp only [Heap.execute_apply]
    split <;> simp
  · by_cases hio : s.config.completionOrder = .INORDER <;>
      simp only [ha, hio, if_true, if_false, ne_eq, not_false_eq_true, true_and] <;>
      cases hc : conflictingStore heap uop (heap uop).generatedAddresses s.storeQueue.reverse <;>
      simp [hc]

/-! ## Committing a store -/

variable (heap) in
/-- Releasing parked loads one by one: each is registered and scheduled once,
one cycle later than a fresh load. -/
theorem foldl_releaseLoad (ld : List Nat) (s : LoadStoreQueue) :
    let r := ld.foldl (releaseLoad heap) s
    r.loadQueue = s.loadQueue ∧ r.storeQueue = s.storeQueue ∧
    r.conflictionMap = s.conflictionMap ∧ r.requestStoreQueue = s.requestStoreQueue ∧
    (∀ x, x ∈ r.requestedLoads.keys ↔ x ∈ s.requestedLoads.keys ∨ x ∈ ld) ∧
    r.requestLoadQueue.flat.Perm
      (s.requestLoadQueue.flat ++ ld.map fun L => (s.tickCounter + 1 + (heap L).lsqLatency, L)) := by
  induction ld generalizing s with
  | nil => simp
  | cons x rest ih =>
    obtain ⟨h₁, h₂, h₃, h₄, h₅, h₆⟩ := ih (releaseLoad heap s x)
    refine ⟨h₁, h₂, h₃, h₄, fun y => ?_, ?_⟩
    · simp only [List.foldl_cons] at h₅ ⊢
      rw [h₅]; simp only [releaseLoad, OrderedMap.keys_emplace, OrderedMap.mem_insertKey,
        List.mem_cons]; tauto
    · refine h₆.trans ?_
      simpa [releaseLoad] using
        (OrderedMap.flat_pushBack_perm s.requestLoadQueue _ x).append_right
          (rest.map fun L => (s.tickCounter + 1 + (heap L).lsqLatency, L))

variable (heap) in
/-- The confliction release of `commitStore`: the loads parked on the store
are registered and scheduled once each, and only the store's list leaves
`conflictionMap_`. -/
theorem releaseConflictions_spec (uop : Nat) (s : LoadStoreQueue) :
    let r := releaseConflictions heap uop s
    let ld := (s.conflictionMap.find? uop).getD []
    r.loadQueue = s.loadQueue ∧ r.storeQueue = s.storeQueue ∧
    (∀ j, r.conflictionMap.find? j = if j = uop then none else s.conflictionMap.find? j) ∧
    (r.conflictionMap.values ++ ld).Perm s.conflictionMap.values ∧
    (∀ x, x ∈ r.requestedLoads.keys ↔ x ∈ s.requestedLoads.keys ∨ x ∈ ld) ∧
    r.requestLoadQueue.values.Perm (s.requestLoadQueue.values ++ ld) ∧
    r.requestLoadQueue.flat.Perm
      (s.requestLoadQueue.flat ++ ld.map fun L => (s.tickCounter + 1 + (heap L).lsqLatency, L)) ∧
    r.requestStoreQueue = s.requestStoreQueue := by
  dsimp only
  cases hf : s.conflictionMap.find? uop with
  | none =>
    have hr : releaseConflictions heap uop s = s := by simp [releaseConflictions, hf]
    rw [hr]
    refine ⟨rfl, rfl, fun j => ?_, by simp, by simp, by simp, by simp, rfl⟩
    split
    · subst_vars; exact hf
    · rfl
  | some l =>
    obtain ⟨h₁, h₂, h₃, h₄, h₅, h₆⟩ := foldl_releaseLoad heap l s
    have hr : releaseConflictions heap uop s =
        { l.foldl (releaseLoad heap) s with conflictionMap := s.conflictionMap.erase uop } := by
      simp [releaseConflictions, hf, h₃]
    rw [hr]
    refine ⟨h₁, h₂, fun j => by simp, by simpa [hf] using OrderedMap.values_erase_perm s.conflictionMap uop,
      h₅, ?_, h₆, h₄⟩
    rw [OrderedMap.values_eq_flat, OrderedMap.values_eq_flat]
    simpa [Function.comp_def] using h₆.map Prod.snd

/-- `commitStore` pops the front store; with addresses, it releases the loads
parked on it. -/
theorem commitStore_spec {uop : Nat} {s s' : LoadStoreQueue} {b : Bool}
    (h : s.commitStore heap uop = .ok (b, s')) :
    ∃ d rest, s.storeQueue = (uop, d) :: rest ∧ s'.storeQueue = rest ∧ s'.loadQueue = s.loadQueue ∧
      if (heap uop).generatedAddresses = [] then
        s'.requestedLoads = s.requestedLoads ∧ s'.conflictionMap = s.conflictionMap ∧
          s'.requestLoadQueue = s.requestLoadQueue
      else
        s'.requestedLoads = (releaseConflictions heap uop s).requestedLoads ∧
          s'.conflictionMap = (releaseConflictions heap uop s).conflictionMap ∧
          s'.requestLoadQueue = (releaseConflictions heap uop s).requestLoadQueue := by
  unfold commitStore at h
  rcases hq : s.storeQueue with _ | ⟨⟨front, d⟩, rest⟩
  · simp [hq] at h
  · by_cases hf : front = uop
    · subst hf
      by_cases ha : (heap front).generatedAddresses = []
      · simp only [hq, ha, ne_eq, not_true_eq_false, if_false, if_true, Except.ok.injEq,
          Prod.mk.injEq] at h
        obtain ⟨-, rfl⟩ := h
        exact ⟨d, rest, rfl, rfl, rfl, by simp [ha]⟩
      · simp only [hq, ha, ne_eq, not_true_eq_false, if_false, Except.ok.injEq,
          Prod.mk.injEq] at h
        obtain ⟨-, rfl⟩ := h
        have := releaseConflictions_spec heap front s
        exact ⟨d, rest, rfl, rfl, this.1, by simp [ha]⟩
    · simp [hq, hf] at h

/-! ## Committing a load -/

/-- `commitLoad` checks the front of the load queue; when that entry is a
load, it leaves the load queue and `requestedLoads_`. -/
theorem commitLoad_spec {uop : Nat} {s s' : LoadStoreQueue} (h : s.commitLoad heap uop = .ok s')
    (hl : ∀ q ∈ s.loadQueue, (heap q).isLoad = true) :
    ∃ rest, s.loadQueue = uop :: rest ∧ s'.loadQueue = rest ∧
      s'.requestedLoads = s.requestedLoads.erase uop ∧ s'.storeQueue = s.storeQueue ∧
      s'.conflictionMap = s.conflictionMap ∧ s'.requestLoadQueue = s.requestLoadQueue := by
  unfold commitLoad at h
  rcases hq : s.loadQueue with _ | ⟨front, rest⟩
  · simp [hq] at h
  · by_cases hf : front = uop
    · subst hf
      have hfront : (heap front).isLoad = true := hl front (by simp [hq])
      simp only [hq, ne_eq, not_true_eq_false, if_false, List.find?_cons, hfront,
        Except.ok.injEq] at h
      subst h
      exact ⟨rest, rfl, by simp, rfl, rfl, rfl, rfl⟩
    · simp [hq, hf] at h

/-! ## Purging flushed instructions -/

/-- `purgeFlushed` keeps exactly the entries that are not flushed, with two
exceptions: a registered load leaves `requestedLoads_` only when it is also in
the load queue, and a confliction list leaves with its flushed store. -/
theorem purgeFlushed_spec (s : LoadStoreQueue) :
    let r := s.purgeFlushed heap
    r.loadQueue = s.loadQueue.filter (fun q => !(heap q).flushed) ∧
    r.storeQueue = s.storeQueue.filter (fun e => !(heap e.1).flushed) ∧
    (∀ x, x ∈ r.requestedLoads.keys ↔
      x ∈ s.requestedLoads.keys ∧ ¬(x ∈ s.loadQueue ∧ (heap x).flushed = true)) ∧
    r.requestLoadQueue.values = s.requestLoadQueue.values.filter (fun q => !(heap q).flushed) ∧
    (∀ S, r.conflictionMap.find? S =
      if S ∈ s.storeQueue.map Prod.fst ∧ (heap S).flushed = true then none
      else (s.conflictionMap.find? S).map (List.filter fun q => !(heap q).flushed)) ∧
    r.conflictionMap.values.Sublist (s.conflictionMap.values.filter fun q => !(heap q).flushed) := by
  refine ⟨rfl, rfl, fun x => ?_, OrderedMap.values_mapValues_filter _ _, fun S => ?_,
    OrderedMap.values_filter_mapValues_sublist _ _ _⟩
  · rw [purgeFlushed, @OrderedMap.mem_keys_filter _ _
      (fun k => decide (k ∉ s.loadQueue.filter fun q => (heap q).flushed)) x]
    simp only [List.mem_filter, decide_eq_true_eq, not_and]
  · rw [purgeFlushed, @OrderedMap.find?_filter_mapValues _ _
      (fun k => decide (k ∉ (s.storeQueue.filter fun e => (heap e.1).flushed).map Prod.fst))]
    by_cases hS : S ∈ s.storeQueue.map Prod.fst ∧ (heap S).flushed = true
    · rw [if_pos hS, if_neg]
      simpa using hS
    · rw [if_neg hS, if_pos]
      simpa using hS

end LoadStoreQueue

/-! ## Flushing the reorder buffer -/

namespace ReorderBuffer

/-- The flush loop over the buffer from its tail (a decreasing list): it
keeps the instructions up to the flush point and marks the others flushed. -/
theorem flushLoop_spec (a : Nat) (l : List Nat) (heap : Heap) (calls : List RobCall)
    (hl : l.Pairwise (· > ·)) :
    (flushLoop a l (heap, calls)).1 = l.filter (· ≤ a) ∧
      ∀ q, (flushLoop a l (heap, calls)).2.1 q =
        if q ∈ l ∧ a < q then { heap q with flushed := true } else heap q := by
  induction l generalizing heap calls with
  | nil => simp [flushLoop]
  | cons uop older ih =>
    rw [List.pairwise_cons] at hl
    by_cases hu : uop ≤ a
    · simp only [flushLoop, hu, if_true]
      refine ⟨?_, fun q => ?_⟩
      · rw [List.filter_eq_self.2]
        intro q hq
        rcases List.mem_cons.1 hq with rfl | hq
        · simpa using hu
        · have := hl.1 q hq; simp only [decide_eq_true_eq]; omega
      · rw [if_neg]
        rintro ⟨hq, hlt⟩
        rcases List.mem_cons.1 hq with rfl | hq
        · omega
        · have := hl.1 q hq; omega
    · simp only [flushLoop, hu, if_false]
      obtain ⟨h₁, h₂⟩ :=
        ih (heap.setFlushed uop) (calls ++ (heap uop).destinationRegisters.map RobCall.ratRewind) hl.2
      refine ⟨by simp [h₁, hu], fun q => ?_⟩
      rw [h₂, Heap.setFlushed_apply, Heap.setFlushed_flushed]
      by_cases hq : q = uop
      · subst hq
        have : q ∉ older := fun h => by have := hl.1 q h; omega
        have hlt : a < q := by omega
        simp [this, hlt]
      · by_cases ho : q ∈ older ∧ a < q <;> simp_all

/-- `flush(afterSeqId)` over a buffer in program order drops and marks flushed
exactly the instructions younger than `afterSeqId`. -/
theorem flush_spec (a : Nat) (heap : Heap) (rob : ReorderBuffer)
    (hs : rob.buffer.Pairwise (· < ·)) :
    (flush a (heap, rob)).2.buffer = rob.buffer.filter (· ≤ a) ∧
      (flush a (heap, rob)).2.seqId = rob.seqId ∧
      ∀ q, (flush a (heap, rob)).1 q =
        if q ∈ rob.buffer ∧ a < q then { heap q with flushed := true } else heap q := by
  have hr : rob.buffer.reverse.Pairwise (· > ·) := List.pairwise_reverse.2 hs
  obtain ⟨h₁, h₂⟩ := flushLoop_spec a rob.buffer.reverse heap rob.calls hr
  simp only [flush]
  exact ⟨by rw [h₁, List.filter_reverse, List.reverse_reverse], trivial, fun q => by simp [h₂]⟩

end ReorderBuffer

end SimEng.Pipeline
