import SimEng.Pipeline.ReorderBuffer

/-!
# SimEng — memory-order violation detection

`commitStore` scans `requestedLoads_` for loads whose addresses overlap the
committing store. The scan skips every load younger than its current
candidate and otherwise takes any overlapping load other than the store
itself, so whatever the iteration order, it ends on the oldest overlapping
load (`violationScan_spec`). `commitStore_violation` states this for
`commitStore` as a whole: it returns true exactly when some registered load
other than the store overlaps it, and `getViolatingLoad` then names the
oldest one.

The scan does not compare the load with the store's sequence id: it relies on
every registered load being younger than the store at the head of the reorder
buffer. A load that retires with an exception leaves the reorder buffer
without `commitLoad`, so it stays registered; `commitStore_reports_older_load`
replays such a run, in which a later store to the same bytes reports the older
load as violating.
-/

namespace SimEng.Pipeline

namespace LoadStoreQueue

variable (heap : Heap) (uop : Nat) (addresses : List MemoryAccessTarget)

/-- The scan started on `v` ends on the least of `v` and the violating loads
it sees, whatever their order. -/
theorem violationScan_eq (v : Option Nat) (loads : List Nat) :
    violationScan heap uop addresses v loads =
      (v.toList ++ loads.filter (violates heap uop addresses)).min? := by
  induction loads generalizing v with
  | nil => cases v <;> simp [violationScan]
  | cons load rest ih =>
    simp only [violationScan, ih]
    rcases v with _ | w
    · by_cases hl : violates heap uop addresses load = true <;> simp [hl]
    · by_cases hl : violates heap uop addresses load = true
      · rw [List.filter_cons_of_pos hl]
        by_cases hlt : w < load
        · simp only [hlt, decide_True, if_true, Option.toList_some, List.singleton_append,
            List.min?_cons', List.foldl_cons, Nat.min_eq_left (Nat.le_of_lt hlt)]
        · simp only [hlt, hl, decide_False, if_true, Bool.false_eq_true, if_false,
            Option.toList_some, List.singleton_append, List.min?_cons', List.foldl_cons,
            Nat.min_eq_right (Nat.le_of_not_lt hlt)]
      · by_cases hlt : w < load <;> simp [hlt, hl]

/-- **Violation detection.** When `commitStore` succeeds, it reports a
violation exactly when some registered load violates, and `getViolatingLoad`
is then the oldest violating load. -/
theorem commitStore_violation {s s' : LoadStoreQueue} {b : Bool}
    (h : s.commitStore heap uop = .ok (b, s')) :
    let violating := s.requestedLoads.keys.filter (violates heap uop (heap uop).generatedAddresses)
    (b = true ↔ violating ≠ []) ∧ (b = true → s'.getViolatingLoad = violating.min?) := by
  intro violating
  unfold commitStore at h
  rcases hq : s.storeQueue with _ | ⟨front, rest⟩
  · simp [hq] at h
  · by_cases hf : front.1 ≠ uop
    · simp [hq, hf] at h
    by_cases ha : (heap uop).generatedAddresses = []
    · simp only [hq, hf, ha, if_false, if_true, Except.ok.injEq, Prod.mk.injEq] at h
      obtain ⟨rfl, -⟩ := h
      simp [violating, violates, ha, anyOverlap]
    · simp only [hq, hf, ha, if_false, Except.ok.injEq, Prod.mk.injEq] at h
      obtain ⟨rfl, rfl⟩ := h
      have hscan := violationScan_eq heap uop (heap uop).generatedAddresses none s.requestedLoads.keys
      simp only [Option.toList_none, List.nil_append] at hscan
      refine ⟨?_, fun _ => hscan⟩
      rw [hscan, Option.isSome_iff_ne_none, Ne, List.min?_eq_none_iff]

end LoadStoreQueue

/-! ## A load that retires with an exception -/

namespace Backend

/-- Eight bytes at `0x40`. -/
def access40 : MemoryAccessTarget := ⟨0x40, 8, by decide, by decide⟩

/-- A split queue of four loads and four stores. -/
def smallQueues : LoadStoreQueue.Config :=
  { maxLoadQueueSpace := 4, maxStoreQueueSpace := 4, combined := false, completionOrder := .INORDER }

/-- Instruction 0 computes; load 1 reads `access40`, is sent to memory, and
retires with an exception (a data abort). The core then flushes everything
younger than the load. -/
def loadExceptionRun : List Action :=
  [.rename {}, .rename { isLoad := true, instructionAddress := 0x104 },
   .generateAddresses 1 [access40], .startLoad 1, .complete 0 false, .complete 1 true,
   .commit 4, .flush 1]

/-- After `loadExceptionRun`, store 2 writes `access40` and becomes commit-ready. -/
def olderLoadViolationRun : List Action :=
  loadExceptionRun ++
    [.rename { isStore := true, instructionAddress := 0x108 }, .generateAddresses 2 [access40],
     .complete 2 false]

/-- Store 2 heads the reorder buffer and the store queue, and the only
registered load is the retired load 1. `commitStore` reports load 1 as
violating, and the reorder buffer requests a flush after sequence id 0 that
refetches the retired load. -/
theorem commitStore_reports_older_load :
    ∃ s, run (init 8 smallQueues) olderLoadViolationRun = .ok s ∧
      s.rob.buffer = [2] ∧ s.lsq.storeQueue.map Prod.fst = [2] ∧
      s.lsq.requestedLoads.keys = [1] ∧
      (∃ lsq', s.lsq.commitStore s.heap 2 = .ok (true, lsq') ∧ lsq'.getViolatingLoad = some 1) ∧
      ∃ rob' lsq', ReorderBuffer.commit s.heap 4 (s.rob, s.lsq) = .ok (1, rob', lsq') ∧
        rob'.shouldFlush = true ∧ rob'.flushAfter = 0 ∧ rob'.pc = 0x104 :=
  ⟨_, rfl, by decide, by decide, by decide, ⟨_, rfl, by decide⟩, _, _, rfl, by decide, by decide,
    by decide⟩

end Backend

end SimEng.Pipeline
