import SimEng.Instruction
import SimEng.OrderedMap

/-!
# SimEng — the load/store queue

`pipeline::LoadStoreQueue` (LoadStoreQueue.cc) orders the in-flight loads and
stores. Loads and stores enter `loadQueue_` and `storeQueue_` at rename, in
program order. A load that reaches `startLoad` either parks on the youngest
older store whose addresses overlap its own (`conflictionMap_`), or is
scheduled in `requestLoadQueue_` and registered in `requestedLoads_`. When a
store commits, `commitStore` reports the oldest registered load that overlaps
it (a memory-order violation) and releases the loads parked on it.

Each operation below follows its source function line by line. The
assertions of the source are errors of the `Except` monad, with the source's
messages. Operations that change the shared instruction objects
(`insn->execute()`, `uop->setCommitReady(false)`) return the updated `Heap`.

The request-dispatch half of `tick` is in `Pipeline/RequestDispatch.lean`.
-/

namespace SimEng.Pipeline

/-- `CompletionOrder`: whether loads complete in program order. -/
inductive CompletionOrder
  | INORDER
  | OUTOFORDER
deriving DecidableEq, Repr

/-- `requestsOverlap`: whether the byte ranges of `a` and `b` intersect. The
sums are `uint64_t` additions. -/
def requestsOverlap (a b : MemoryAccessTarget) : Bool :=
  !(decide ((a.vaddr + a.size) % 2 ^ 64 ≤ b.vaddr) || decide ((b.vaddr + b.size) % 2 ^ 64 ≤ a.vaddr))

/-- Whether some address of `xs` overlaps some address of `ys`: the nested
loops of `startLoad` and `commitStore`. -/
def anyOverlap (xs ys : List MemoryAccessTarget) : Bool :=
  xs.any fun x => ys.any fun y => requestsOverlap x y

/-- The constructor arguments of a `LoadStoreQueue`: one combined capacity,
or a load and a store capacity, and the completion order. -/
structure LoadStoreQueue.Config where
  maxCombinedSpace : Nat := 0
  maxLoadQueueSpace : Nat := 0
  maxStoreQueueSpace : Nat := 0
  combined : Bool
  completionOrder : CompletionOrder

/-- The state of a `LoadStoreQueue`. Instructions are held by handle (their
sequence id). `requestedLoads_` maps a sequence id to the load and a counter
that only commented-out code writes, so only its keys are kept. -/
structure LoadStoreQueue where
  config : LoadStoreQueue.Config
  loadQueue : List Nat := []
  storeQueue : List (Nat × List RegisterValue) := []
  requestedLoads : OrderedMap Unit := OrderedMap.empty
  conflictionMap : OrderedMap (List Nat) := OrderedMap.empty
  requestLoadQueue : OrderedMap (List Nat) := OrderedMap.empty
  requestStoreQueue : OrderedMap (List Nat) := OrderedMap.empty
  completedRequests : List Nat := []
  requestedCondStore : Option Nat := none
  tickCounter : Nat := 0
  violatingLoad : Option Nat := none

namespace LoadStoreQueue

/-- The combined-queue constructor. -/
def combinedQueue (maxCombinedSpace : Nat) (completionOrder : CompletionOrder) : LoadStoreQueue :=
  { config := { maxCombinedSpace := maxCombinedSpace, combined := true, completionOrder := completionOrder } }

/-- The split-queue constructor. -/
def splitQueues (maxLoadQueueSpace maxStoreQueueSpace : Nat) (completionOrder : CompletionOrder) :
    LoadStoreQueue :=
  { config := { maxLoadQueueSpace := maxLoadQueueSpace, maxStoreQueueSpace := maxStoreQueueSpace,
                combined := false, completionOrder := completionOrder } }

variable (heap : Heap)

/-- `unsigned int` result of a subtraction of queue sizes. -/
def unsignedDiff (a b : Nat) : Nat := Int.toNat (((a : Int) - b) % 2 ^ 32)

/-- `getLoadQueueSplitSpace`. -/
def getLoadQueueSplitSpace (s : LoadStoreQueue) : Nat :=
  unsignedDiff s.config.maxLoadQueueSpace s.loadQueue.length

/-- `getStoreQueueSplitSpace`. -/
def getStoreQueueSplitSpace (s : LoadStoreQueue) : Nat :=
  unsignedDiff s.config.maxStoreQueueSpace s.storeQueue.length

/-- `getCombinedSpace`. -/
def getCombinedSpace (s : LoadStoreQueue) : Nat :=
  unsignedDiff s.config.maxCombinedSpace (s.loadQueue.length + s.storeQueue.length)

/-- `getLoadQueueSpace`. -/
def getLoadQueueSpace (s : LoadStoreQueue) : Nat :=
  if s.config.combined then s.getCombinedSpace else s.getLoadQueueSplitSpace

/-- `getStoreQueueSpace`. -/
def getStoreQueueSpace (s : LoadStoreQueue) : Nat :=
  if s.config.combined then s.getCombinedSpace else s.getStoreQueueSplitSpace

/-- `addLoad`. -/
def addLoad (insn : Nat) (s : LoadStoreQueue) : LoadStoreQueue :=
  { s with loadQueue := s.loadQueue ++ [insn] }

/-- `addStore`: the store enters with no data. -/
def addStore (insn : Nat) (s : LoadStoreQueue) : LoadStoreQueue :=
  { s with storeQueue := s.storeQueue ++ [(insn, [])] }

/-- The conflict search of `startLoad`: over the store queue from its youngest
entry (`rbegin`), the first store older than the load (`seqId`) with an
address overlapping one of the load's. -/
def conflictingStore (seqId : Nat) (ldAddresses : List MemoryAccessTarget) :
    List (Nat × List RegisterValue) → Option Nat
  | [] => none
  | (store, _) :: older =>
    if store < seqId ∧ anyOverlap (heap store).generatedAddresses ldAddresses = true then some store
    else conflictingStore seqId ldAddresses older

/-- `startLoad`. A load without addresses executes at once; otherwise it
parks on the youngest conflicting older store, or is scheduled `lsqLatency`
cycles ahead and registered in `requestedLoads_`. -/
def startLoad (insn : Nat) (s : LoadStoreQueue) : Heap × LoadStoreQueue :=
  let ldAddresses := (heap insn).generatedAddresses
  if ldAddresses = [] then
    (heap.execute insn, { s with completedRequests := s.completedRequests ++ [insn] })
  else
    let s := if s.config.completionOrder = .INORDER then
      { s with completedRequests := s.completedRequests ++ [insn] } else s
    match conflictingStore heap insn ldAddresses s.storeQueue.reverse with
    | some store => (heap, { s with conflictionMap := s.conflictionMap.pushBack store insn })
    | none =>
      (heap, { s with
        requestLoadQueue := s.requestLoadQueue.pushBack (s.tickCounter + (heap insn).lsqLatency) insn
        requestedLoads := s.requestedLoads.emplace insn () })

/-- The store `startLoad` parks a load on, if any. -/
def parkingStore (insn : Nat) (s : LoadStoreQueue) : Option Nat :=
  if (heap insn).generatedAddresses = [] then none
  else conflictingStore heap insn (heap insn).generatedAddresses s.storeQueue.reverse

/-- `supplyStoreData`: the data of a store-data micro-op goes to the
store-queue entry of the same macro-op and micro-op index. -/
def supplyStoreData (insn : Nat) (s : LoadStoreQueue) : LoadStoreQueue :=
  if (heap insn).isStoreData then
    let matches? (e : Nat × List RegisterValue) : Bool :=
      (heap e.1).instructionId == (heap insn).instructionId &&
        (heap e.1).microOpIndex == (heap insn).microOpIndex
    match s.storeQueue.findIdx? matches? with
    | some i => { s with storeQueue := s.storeQueue.modify (fun e => (e.1, (heap insn).data)) i }
    | none => s
  else s

/-- `startStore`: the front store-queue entry's data is supplied to the
store, which is scheduled for this cycle; an unresolved store-conditional is
tracked, and in `INORDER` mode reserves its completion slot. -/
def startStore (uop : Nat) (s : LoadStoreQueue) : Except String (Heap × LoadStoreQueue) :=
  let addresses := (heap uop).generatedAddresses
  let data := (s.storeQueue.head?.map Prod.snd).getD []
  if addresses = [] then .ok (heap, s)
  else if addresses.length ≠ data.length then
    .error "[SimEng:LoadStoreQueue] Tried to supply data to an store instruction with un-equal addresses and data items."
  else
    let heap := Function.update heap uop { heap uop with commitReady := false, data := data }
    let s := { s with requestStoreQueue := s.requestStoreQueue.pushBack s.tickCounter uop }
    if (heap uop).isStoreCond ∧ ¬ (heap uop).condResultReady then
      if s.requestedCondStore.isSome then
        .error "[SimEng:LoadStoreQueue] Tried to issue a second conditional store whilst one is already in flight."
      else
        let s := { s with requestedCondStore := some uop }
        if s.config.completionOrder = .INORDER then
          .ok (heap, { s with completedRequests := s.completedRequests ++ [uop] })
        else .ok (heap, s)
    else .ok (heap, s)

/-- The test of `commitStore`'s scan: a load other than the store (by
sequence id) with an address overlapping one of the store's. -/
def violates (uop : Nat) (addresses : List MemoryAccessTarget) (load : Nat) : Bool :=
  load != uop && anyOverlap addresses (heap load).generatedAddresses

/-- The violation scan of `commitStore`, over `requestedLoads_` in key order:
a load younger than the current candidate is skipped, and a violating load
becomes the candidate. -/
def violationScan (uop : Nat) (addresses : List MemoryAccessTarget) :
    Option Nat → List Nat → Option Nat
  | v, [] => v
  | v, load :: rest =>
    let skip := match v with
      | some w => decide (w < load)
      | none => false
    violationScan uop addresses
      (if skip then v else if violates heap uop addresses load then some load else v) rest

/-- The release step of `commitStore`: a load parked on the store is scheduled
one cycle later than a fresh load and registered in `requestedLoads_`. -/
def releaseLoad (s : LoadStoreQueue) (load : Nat) : LoadStoreQueue :=
  { s with
    requestLoadQueue := s.requestLoadQueue.pushBack (s.tickCounter + 1 + (heap load).lsqLatency) load
    requestedLoads := s.requestedLoads.emplace load () }

/-- The confliction release of `commitStore`: the loads parked on the store
are released and its entry is erased. -/
def releaseConflictions (uop : Nat) (s : LoadStoreQueue) : LoadStoreQueue :=
  match s.conflictionMap.find? uop with
  | some ldVec =>
    let s := ldVec.foldl (releaseLoad heap) s
    { s with conflictionMap := s.conflictionMap.erase uop }
  | none => s

/-- `commitStore`: checks the queued loads for a memory-order violation,
releases the loads parked on the store and pops it. Returns whether a
violating load was found. -/
def commitStore (uop : Nat) (s : LoadStoreQueue) : Except String (Bool × LoadStoreQueue) :=
  match s.storeQueue with
  | [] => .error "Attempted to commit a store from an empty queue"
  | front :: rest =>
    if front.1 ≠ uop then
      .error "Attempted to commit a store that wasn't present at the front of the store queue"
    else
      let addresses := (heap uop).generatedAddresses
      if addresses = [] then .ok (false, { s with storeQueue := rest })
      else
        let violatingLoad := violationScan heap uop addresses none s.requestedLoads.keys
        let s := releaseConflictions heap uop s
        .ok (violatingLoad.isSome, { s with storeQueue := rest, violatingLoad := violatingLoad })

/-- `commitLoad`: the first entry of the load queue that is a load leaves the
load queue and `requestedLoads_`. -/
def commitLoad (uop : Nat) (s : LoadStoreQueue) : Except String LoadStoreQueue :=
  match s.loadQueue with
  | [] => .error "Attempted to commit a load from an empty queue"
  | front :: _ =>
    if front ≠ uop then
      .error "Attempted to commit a load that wasn't present at the front of the load queue"
    else
      match s.loadQueue.find? fun e => (heap e).isLoad with
      | some entry =>
        .ok { s with
          requestedLoads := s.requestedLoads.erase entry
          loadQueue := s.loadQueue.erase entry }
      | none => .ok s

/-- `purgeFlushed`: flushed loads leave the load queue, `requestedLoads_`, the
confliction lists and `requestLoadQueue_`; flushed stores leave the store
queue together with their confliction lists. `requestStoreQueue_` is kept. -/
def purgeFlushed (s : LoadStoreQueue) : LoadStoreQueue :=
  let flushed (q : Nat) : Bool := (heap q).flushed
  let flushedLoads := s.loadQueue.filter flushed
  let flushedStores := (s.storeQueue.filter fun e => flushed e.1).map Prod.fst
  { s with
    loadQueue := s.loadQueue.filter fun q => !flushed q
    requestedLoads := s.requestedLoads.filter fun e => e.1 ∉ flushedLoads
    storeQueue := s.storeQueue.filter fun e => !flushed e.1
    conflictionMap := (s.conflictionMap.filter fun e => e.1 ∉ flushedStores).mapValues
      fun lds => lds.filter fun q => !flushed q
    requestLoadQueue := ((s.requestLoadQueue.mapValues fun lds => lds.filter fun q => !flushed q).filter
      fun e => !e.2.isEmpty) }

/-- `getViolatingLoad`. -/
def getViolatingLoad (s : LoadStoreQueue) : Option Nat := s.violatingLoad

end LoadStoreQueue

end SimEng.Pipeline
