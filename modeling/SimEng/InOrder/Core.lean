import SimEng.Pipeline.Violation

/-!
# SimEng — memory-order violations in the in-order core

`models::inorder::Core` (inorder/Core.cc) retires instructions at writeback.
A store is split into a store-address micro-op, queued in
`completedStoreAddrUops_` when it retires, and a store-data micro-op, whose
retirement starts and commits the store in the load/store queue
(`retireInstruction`). `Core::tick` also resolves an "active store" and keeps
the result of its `commitStore` in `loadViolation_`, which `flushIfNeeded`
turns into a flush from the violating load.

The model follows these functions over the core's memory-ordering state. The
writeback unit, the execution units, the stager and the exception handler are
not under `src/`: what they pass to these functions is an input of `tick`.

Main results:

* `retireInstruction_loadViolation` — retiring never touches
  `loadViolation_`, `activeStore_`, the flush counter or the violation count;
* `tick_flushes_only_on_request` — a cycle whose start has no recorded
  violation flushes only when an execution unit or decode asks;
* `run_counts_no_violation` — nothing sets `activeStore_`, so over every run
  `loadViolations_` keeps its initial value;
* `retired_store_violation_not_flushed` — a store-data micro-op retires,
  `commitStore` reports a violation, and the cycle ends without a flush.
-/

namespace SimEng.InOrder

open SimEng.Pipeline

/-- A flush that an execution unit requests: the id of the youngest
instruction to keep, and where to fetch from. -/
structure FlushRequest where
  flushInsnId : Nat
  flushAddress : Nat
deriving DecidableEq, Repr

/-- The memory-ordering state of the in-order `Core`. `activeStore_` and
`loadViolation_` are declared in `Core.hh`, which is not under `src/`; both
start false. `pc` is the fetch unit's program counter as `updatePC` sets it,
and `retired` the sequence ids passed to `staging_.recordRetired`. -/
structure Core where
  heap : Heap
  lsq : LoadStoreQueue
  activeStore : Bool := false
  completedStoreAddrUops : List Nat := []
  loadViolation : Bool := false
  loadViolations : Nat := 0
  flushes : Nat := 0
  exceptionGenerated : Bool := false
  exceptionGeneratingInstruction : Option Nat := none
  pc : Nat := 0
  retired : List Nat := []

namespace Core

/-- `raiseException`: keeps the older of the pending and the new exception. -/
def raiseException (insn : Nat) (s : Core) : Core :=
  match s.exceptionGenerated, s.exceptionGeneratingInstruction with
  | true, some pending =>
    if pending < insn then s
    else { s with exceptionGeneratingInstruction := some insn }
  | _, _ => { s with exceptionGenerated := true, exceptionGeneratingInstruction := some insn }

/-- The store-data branch of `retireInstruction`: the matching store-address
micro-op at the front of `completedStoreAddrUops_` is started and committed.
The result of `commitStore` is not kept. -/
def retireStoreData (insn : Nat) (s : Core) : Except String Core :=
  match s.completedStoreAddrUops with
  | [] => .error "[SimEng:Core] Attempted to complete a store macro-op out of program order"
  | front :: rest =>
    if (s.heap front).instructionId = (s.heap insn).instructionId ∧
        (s.heap front).microOpIndex = (s.heap insn).microOpIndex then
      match s.lsq.startStore s.heap front with
      | .error e => .error e
      | .ok (heap, lsq) =>
        match lsq.commitStore heap front with
        | .error e => .error e
        | .ok (_, lsq) => .ok { s with heap := heap, lsq := lsq, completedStoreAddrUops := rest }
    else .error "[SimEng:Core] Attempted to complete a store macro-op out of program order"

/-- The load branch of `retireInstruction`: a load is committed in the
load/store queue. -/
def commitRetiredLoad (insn : Nat) (s : Core) : Except String Core :=
  if (s.heap insn).isLoad then (s.lsq.commitLoad s.heap insn).map fun lsq => { s with lsq := lsq }
  else .ok s

/-- The store-address branch of `retireInstruction`: the micro-op joins
`completedStoreAddrUops_`. -/
def queueStoreAddress (insn : Nat) (s : Core) : Core :=
  if (s.heap insn).isStoreAddress then
    { s with completedStoreAddrUops := s.completedStoreAddrUops ++ [insn] }
  else s

/-- `retireInstruction`. -/
def retireInstruction (insn : Nat) (s : Core) : Except String Core :=
  if (s.heap insn).exceptionEncountered then
    .ok { s.raiseException insn with retired := s.retired ++ [insn] }
  else
    (commitRetiredLoad insn s).bind fun s =>
      let s := queueStoreAddress insn s
      let stored := if (s.heap insn).isStoreData then retireStoreData insn s else .ok s
      stored.map fun s => { s with retired := s.retired ++ [insn] }

/-- The active-store step of `Core::tick`: once the front store-address
micro-op can commit, it is committed and the result kept in `loadViolation_`. -/
def resolveActiveStore (s : Core) : Except String Core :=
  match s.activeStore, s.completedStoreAddrUops with
  | true, front :: rest =>
    if (s.heap front).canCommit then
      match s.lsq.commitStore s.heap front with
      | .error e => .error e
      | .ok (violation, lsq) =>
        .ok { s with
          activeStore := false
          loadViolation := violation
          lsq := lsq
          completedStoreAddrUops := rest }
    else .ok s
  | _, _ => .ok s

/-- The oldest of the execution units' flush requests (`lowestInsnId`, the
first on ties), as the loop of `flushIfNeeded` selects it. -/
def oldestRequest : List FlushRequest → Option FlushRequest
  | [] => none
  | r :: rest =>
    match oldestRequest rest with
    | some o => if o.flushInsnId < r.flushInsnId then some o else some r
    | none => some r

/-- Modelled from the spec: the units that `flushIfNeeded` flushes (the issue
unit, the stager, the execution units; not under `src/`) mark every
instruction with an id greater than `afterInsnId` as flushed (§4.10). -/
def flushUnits (afterInsnId : Nat) (heap : Heap) : Heap :=
  fun q => if afterInsnId < (heap q).instructionId then { heap q with flushed := true } else heap q

/-- The end of a flush in `flushIfNeeded`: an exception raised by a flushed
instruction is dropped. -/
def clearFlushedException (s : Core) : Core :=
  match s.exceptionGenerated, s.exceptionGeneratingInstruction with
  | true, some insn =>
    if (s.heap insn).flushed then
      { s with exceptionGenerated := false, exceptionGeneratingInstruction := none }
    else s
  | _, _ => s

/-- `flushIfNeeded`, given the execution units' requests and the decode
unit's (its flush address, if it asks). -/
def flushIfNeeded (requests : List FlushRequest) (decodeFlush : Option Nat) (s : Core) : Core :=
  let eu := oldestRequest requests
  let s := if s.loadViolation then { s with loadViolations := s.loadViolations + 1 } else s
  let target : Option (Nat × Nat) :=
    match s.loadViolation, s.lsq.getViolatingLoad, eu with
    | true, some load, none => some (uint64Pred (s.heap load).instructionId, (s.heap load).instructionAddress)
    | true, some load, some r =>
      if uint64Pred (s.heap load).instructionId < r.flushInsnId then
        some (uint64Pred (s.heap load).instructionId, (s.heap load).instructionAddress)
      else some (r.flushInsnId, r.flushAddress)
    | _, _, some r => some (r.flushInsnId, r.flushAddress)
    | _, _, none => none
  match target with
  | some (lowestInsnId, targetAddress) =>
    let heap := flushUnits lowestInsnId s.heap
    clearFlushedException { s with
      heap := heap
      pc := targetAddress
      lsq := s.lsq.purgeFlushed heap
      flushes := s.flushes + 1 }
  | none =>
    match decodeFlush with
    | some targetAddress => { s with pc := targetAddress, flushes := s.flushes + 1 }
    | none => s

/-- The memory-ordering part of `Core::tick`, in its order: writeback
retires `written`; the other units tick, `execute` being what the execution
units and the load/store queue's `tick` do to the instructions and the queue;
the active store is resolved; and, unless the stager lets a pending exception
be handled this cycle (`handlesException`), `flushIfNeeded` runs. -/
def tick (written : List Nat) (execute : Heap × LoadStoreQueue → Heap × LoadStoreQueue)
    (requests : List FlushRequest) (decodeFlush : Option Nat) (handlesException : Bool) (s : Core) :
    Except String Core :=
  match written.foldlM (fun s insn => retireInstruction insn s) s with
  | .error e => .error e
  | .ok s =>
    let units := execute (s.heap, s.lsq)
    match resolveActiveStore { s with heap := units.1, lsq := units.2 } with
    | .error e => .error e
    | .ok s =>
      if s.exceptionGenerated ∧ handlesException then .ok s
      else .ok (flushIfNeeded requests decodeFlush s)

/-! ## Which steps record a violation -/

/-- The fields that only the active-store step and `flushIfNeeded` write:
`activeStore_`, `loadViolation_`, `loadViolations_` and `flushes_`. -/
def flushState (s : Core) : Bool × Bool × Nat × Nat :=
  (s.activeStore, s.loadViolation, s.loadViolations, s.flushes)

@[simp] theorem flushState_raiseException (insn : Nat) (s : Core) :
    (s.raiseException insn).flushState = s.flushState := by
  unfold raiseException
  split
  · split <;> rfl
  · rfl

theorem retireStoreData_flushState {insn : Nat} {s s' : Core}
    (h : retireStoreData insn s = .ok s') : s'.flushState = s.flushState := by
  unfold retireStoreData at h
  split at h
  · cases h
  · split at h
    · split at h
      · cases h
      · split at h
        · cases h
        · cases h; rfl
    · cases h

theorem commitRetiredLoad_flushState {insn : Nat} {s s' : Core}
    (h : commitRetiredLoad insn s = .ok s') : s'.flushState = s.flushState := by
  unfold commitRetiredLoad at h
  split at h
  · cases hc : s.lsq.commitLoad s.heap insn <;> simp [hc, Except.map] at h
    cases h; rfl
  · cases h; rfl

@[simp] theorem queueStoreAddress_flushState (insn : Nat) (s : Core) :
    (queueStoreAddress insn s).flushState = s.flushState := by
  unfold queueStoreAddress; split <;> rfl

/-- Retiring an instruction never records a violation: whatever its
`commitStore` returns, `retireInstruction` leaves `activeStore_`,
`loadViolation_`, `loadViolations_` and `flushes_` as they were. -/
theorem retireInstruction_loadViolation {insn : Nat} {s s' : Core}
    (h : retireInstruction insn s = .ok s') : s'.flushState = s.flushState := by
  unfold retireInstruction at h
  split at h
  · cases h; exact flushState_raiseException insn s
  · cases hl : commitRetiredLoad insn s with
    | error e => simp [hl, Except.bind] at h
    | ok s₁ =>
      simp only [hl, Except.bind] at h
      rw [← commitRetiredLoad_flushState hl, ← queueStoreAddress_flushState insn s₁]
      split at h
      · cases hs : retireStoreData insn (queueStoreAddress insn s₁) with
        | error e => simp [hs, Except.map] at h
        | ok s₂ =>
          simp only [hs, Except.map, Except.ok.injEq] at h
          subst h
          have h₂ := retireStoreData_flushState hs
          exact h₂
      · cases h; rfl

theorem retireAll_flushState {written : List Nat} {s s' : Core}
    (h : written.foldlM (fun s insn => retireInstruction insn s) s = .ok s') :
    s'.flushState = s.flushState := by
  induction written generalizing s with
  | nil => cases h; rfl
  | cons insn rest ih =>
    simp only [List.foldlM_cons] at h
    cases hr : retireInstruction insn s with
    | error e => rw [hr] at h; cases h
    | ok s₁ =>
      rw [hr] at h
      exact (ih h).trans (retireInstruction_loadViolation hr)

/-- Without an active store, resolving the active store does nothing. -/
theorem resolveActiveStore_of_not_active {s : Core} (h : s.activeStore = false) :
    resolveActiveStore s = .ok s := by
  unfold resolveActiveStore; rw [h]

@[simp] theorem clearFlushedException_flushState (s : Core) :
    (clearFlushedException s).flushState = s.flushState := by
  unfold clearFlushedException
  split
  · split <;> rfl
  · rfl

/-- With no violation recorded, `flushIfNeeded` flushes exactly when an
execution unit or decode asks, and records no violation. -/
theorem flushIfNeeded_of_no_violation (requests : List FlushRequest) (decodeFlush : Option Nat)
    {s : Core} (h : s.loadViolation = false) :
    (flushIfNeeded requests decodeFlush s).flushState =
      (s.activeStore, false, s.loadViolations,
        s.flushes + if requests ≠ [] ∨ decodeFlush.isSome then 1 else 0) := by
  have hreq : oldestRequest requests = none ↔ requests = [] := by
    cases requests with
    | nil => simp [oldestRequest]
    | cons r rest =>
      simp only [oldestRequest, reduceCtorEq, iff_false]
      split
      · split <;> simp
      · simp
  unfold flushIfNeeded
  simp only [h, Bool.false_eq_true, if_false]
  cases hr : oldestRequest requests with
  | none =>
    have := hreq.1 hr
    cases decodeFlush <;> simp_all [flushState]
  | some r =>
    have : requests ≠ [] := fun he => by simp [hreq.2 he] at hr
    simp only [hr]
    split <;> simp only [clearFlushedException_flushState] <;> simp_all [flushState]

/-- **No flush from a retired store.** In a cycle that starts with no active
store and no recorded violation, the flush count grows exactly when an
execution unit or decode asks for a flush, and no violation is counted, for
any instructions written back, whatever their `commitStore` returns and
whatever the other units do. -/
theorem tick_flushes_only_on_request {written : List Nat}
    {execute : Heap × LoadStoreQueue → Heap × LoadStoreQueue} {requests : List FlushRequest}
    {decodeFlush : Option Nat} {handlesException : Bool} {s s' : Core}
    (ha : s.activeStore = false) (hv : s.loadViolation = false)
    (h : tick written execute requests decodeFlush handlesException s = .ok s') :
    s'.activeStore = false ∧ s'.loadViolation = false ∧ s'.loadViolations = s.loadViolations ∧
      s'.flushes ≤ s.flushes + 1 ∧
      (s'.flushes = s.flushes + 1 → requests ≠ [] ∨ decodeFlush.isSome) := by
  unfold tick at h
  split at h
  · cases h
  · rename_i s₁ hs₁
    have h₁ := retireAll_flushState hs₁
    simp only [flushState, Prod.mk.injEq] at h₁
    obtain ⟨ha₁, hv₁, hc₁, hf₁⟩ := h₁
    generalize execute (s₁.heap, s₁.lsq) = units at h
    dsimp only at h
    rw [resolveActiveStore_of_not_active (s := { s₁ with heap := units.1, lsq := units.2 }) (ha₁.trans ha)] at h
    dsimp only at h
    split at h
    · cases h; exact ⟨ha₁.trans ha, hv₁.trans hv, hc₁, by dsimp only; omega, fun _ => by dsimp only at *; omega⟩
    · cases h
      have := @flushIfNeeded_of_no_violation requests decodeFlush { s₁ with heap := units.1, lsq := units.2 }
        (hv₁.trans hv)
      simp only [flushState, Prod.mk.injEq] at this
      obtain ⟨ha₂, hv₂, hc₂, hf₂⟩ := this
      refine ⟨ha₂.trans (ha₁.trans ha), hv₂, hc₂.trans hc₁, ?_, fun hf => ?_⟩
      · rw [hf₂, hf₁]; split <;> omega
      · rw [hf₂, hf₁] at hf; split at hf
        · assumption
        · omega

/-! ## Runs -/

/-- One cycle of the in-order core: what writeback retires, what the
execution units and the load/store queue do to the instructions and the queue
(address generation, `startLoad`, `supplyStoreData`), and what the execution
units and decode report. None of these units writes `activeStore_` or
`loadViolation_`. -/
structure Cycle where
  execute : Heap × LoadStoreQueue → Heap × LoadStoreQueue
  written : List Nat
  requests : List FlushRequest
  decodeFlush : Option Nat
  handlesException : Bool

/-- Whether a cycle's execution units or decode ask for a flush. -/
def Cycle.asksFlush (c : Cycle) : Bool := c.requests ≠ [] ∨ c.decodeFlush.isSome

/-- A cycle on the core's state. -/
def cycle (c : Cycle) (s : Core) : Except String Core :=
  tick c.written c.execute c.requests c.decodeFlush c.handlesException s

/-- A run of cycles; it stops at the first failed assertion. -/
def run : List Cycle → Core → Except String Core
  | [], s => .ok s
  | c :: cs, s => (cycle c s).bind (run cs)

/-- **No violation is ever counted.** From a state with no active store and
no recorded violation, such as the initial one, every run keeps
`loadViolations_` unchanged, and flushes at most once per cycle that asks for
a flush. -/
theorem run_counts_no_violation {cs : List Cycle} {s s' : Core}
    (ha : s.activeStore = false) (hv : s.loadViolation = false) (h : run cs s = .ok s') :
    s'.activeStore = false ∧ s'.loadViolation = false ∧ s'.loadViolations = s.loadViolations ∧
      s'.flushes ≤ s.flushes + (cs.filter Cycle.asksFlush).length := by
  induction cs generalizing s with
  | nil => cases h; simp [ha, hv]
  | cons c cs ih =>
    simp only [run] at h
    cases hc : cycle c s with
    | error e => rw [hc] at h; cases h
    | ok s₁ =>
      rw [hc] at h
      obtain ⟨ha₁, hv₁, hn₁, hle₁, hask₁⟩ :=
        tick_flushes_only_on_request (by exact ha) (by exact hv) hc
      obtain ⟨ha', hv', hn', hle'⟩ := ih ha₁ hv₁ h
      refine ⟨ha', hv', hn'.trans hn₁, ?_⟩
      by_cases hf : c.asksFlush
      · simp only [List.filter_cons_of_pos hf, List.length_cons]
        omega
      · simp only [List.filter_cons_of_neg hf]
        have : s₁.flushes ≠ s.flushes + 1 := fun he => hf (by simpa [Cycle.asksFlush] using hask₁ he)
        omega

/-! ## A store that retires into a violation -/

/-- Store-address micro-op 1 and store-data micro-op 2 of macro-op 7 write
`access40`; load 3, of the next macro-op, reads it. The store's address is not
yet generated. -/
def storeLoadHeap : Heap := fun q =>
  if q = 1 then { isStore := true, isStoreAddress := true, instructionId := 7, instructionAddress := 0x100 }
  else if q = 2 then
    { isStoreData := true, instructionId := 7, instructionAddress := 0x100, data := [[0, 0, 0, 0, 0, 0, 0, 0]] }
  else if q = 3 then
    { isLoad := true, instructionId := 8, instructionAddress := 0x104, generatedAddresses := [Backend.access40] }
  else {}

/-- Load 3 reaches `startLoad` before the older store generates its address
(its execution unit is faster), so no conflict is seen and the load is sent to
memory. The store then generates its address and its data micro-op supplies
the data. -/
def earlyLoadCycle : Cycle where
  execute units :=
    let started := (units.2.addStore 1 |>.addLoad 3).startLoad units.1 3
    let heap := Function.update started.1 1 { started.1 1 with generatedAddresses := [Backend.access40] }
    (heap, started.2.supplyStoreData heap 2)
  written := []
  requests := []
  decodeFlush := none
  handlesException := false

/-- Writeback retires micro-ops 1 and 2. -/
def retireStoreCycle : Cycle where
  execute := id
  written := [1, 2]
  requests := []
  decodeFlush := none
  handlesException := false

/-- The core before the store retires. -/
def storeRetiringCore : Core :=
  { heap := storeLoadHeap, lsq := LoadStoreQueue.splitQueues 4 4 .INORDER }

/-- In the cycle in which store-data micro-op 2 retires, its `commitStore`
returns true and names load 3 as violating, yet the cycle ends with no flush
and no violation counted. -/
theorem retired_store_violation_not_flushed :
    ∃ s, run [earlyLoadCycle] storeRetiringCore = .ok s ∧
      (∃ heap lsq lsq', s.lsq.startStore s.heap 1 = .ok (heap, lsq) ∧
        lsq.commitStore heap 1 = .ok (true, lsq') ∧ lsq'.getViolatingLoad = some 3) ∧
      ∃ s', run [earlyLoadCycle, retireStoreCycle] storeRetiringCore = .ok s' ∧
        s'.retired = [1, 2] ∧ s'.lsq.getViolatingLoad = some 3 ∧
        s'.flushes = 0 ∧ s'.loadViolations = 0 :=
  ⟨_, rfl, ⟨_, _, _, rfl, rfl, by decide⟩, _, rfl, by decide, by decide, by decide, by decide⟩

end Core

end SimEng.InOrder
