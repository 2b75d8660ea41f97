import SimEng.Assertions
import SimEng.OrderedMap
import SimEng.Memory.MemPacket

/-!
# SimEng — the memory management unit

`memory::MMU` (MMU.cc) stands between the load/store queue and the memory.
`requestRead` and `requestWrite` admit an instruction's accesses under the
request limits, cut them into packets and queue them in `loadsStores_`;
`tick` sends the queued packets under the per-cycle byte bandwidths;
`issueRequest` translates each packet's address and sends it, parks it until
`supplyDelayedTranslation`, or hands it back faulty at once; the port's
receiver counts the responses, joins a load's split reads and supplies them
to the instruction, and reports a store-conditional's result.

Each operation follows its source function; the assertions of the source are
errors of the `Except` monad, with the source's messages, and so are the
steps whose behaviour the source leaves undefined (an index past a vector's
end, a null packet). Besides the MMU's members the state keeps:

* `inFlight`: the packets `port_->send` has passed to the memory whose
  response has not come back, the memory's side of the port;
* `insnCalls`: the calls the MMU makes on the instructions it holds
  (`setCommitReady`, `supplyData`, `updateCondStoreResult`), in order;
* two ghost logs, `issued` and `delivered`: every packet passed to
  `issueRequest`, and every packet the receiver took, in order.

Instructions are held by handle, their sequence id (`Instruction.lean`). The
members the constructor sets and nothing changes are the `Limits` argument.
The translator `translate_` is an argument of each call that translates: the
outcome for each address, which the environment may change between calls.
`MMU.hh`, the `Port` and the fault codes are not under `src/`: what they do
follows the spec (§4.9), and the port passes a faulty packet to the receiver
at once.
-/

namespace SimEng.Memory

open MemPacket

/-- `LD`: the index of the loads in `loadsStores_`. -/
abbrev LD : Bool := false

/-- `STR`: the index of the stores in `loadsStores_`. -/
abbrev STR : Bool := true

/-- What `issueRequest` reads from `translate_(vaddr, tid_)` through
`getFaultCode`: a physical address, or one of three fault codes. -/
inductive Translation
  | ok (paddr : Nat)
  | dataAbort
  | pending
  | ignored
deriving DecidableEq

/-- A call the MMU makes on an instruction it holds. -/
inductive InsnCall
  | setCommitReady (insn : Nat)
  | supplyData (insn : Nat) (address : Nat) (data : RegisterValue)
  | updateCondStoreResult (insn : Nat) (success : Bool)
deriving DecidableEq

/-- A `supplyData` call on instruction `insn` at address `addr`. -/
def InsnCall.suppliesAt (insn addr : Nat) : InsnCall → Bool
  | .supplyData i a _ => i == insn && a == addr
  | _ => false

/-- A value of `requestedStores_`: the packets still to come back and whether
one failed. The instruction is the key. -/
structure StoreEntry where
  totalPacketsRemaining : Nat
  failed : Bool := false
deriving DecidableEq

/-- An entry of `completedInstrReads_`: the address and size read, the data,
and the request id. -/
structure MemoryReadResult where
  vaddr : Nat
  size : Nat
  data : RegisterValue
  requestId : Nat
deriving DecidableEq

/-- The members the constructor sets: the cache line width, the byte
bandwidths and request limits per cycle, and whether loads and stores
exclude each other. -/
structure Limits where
  cacheLineWidth : Nat
  loadBandwidth : Nat
  storeBandwidth : Nat
  requestLimit : Nat
  loadRequestLimit : Nat
  storeRequestLimit : Nat
  exclusiveRequests : Bool

/-- The configuration entries the constructor reads. -/
structure MMUConfig where
  simulationMode : String
  cacheLineWidth : Nat
  loadBandwidth : Nat
  storeBandwidth : Nat
  permittedRequestsPerCycle : Nat
  permittedLoadsPerCycle : Nat
  permittedStoresPerCycle : Nat
  exclusive : Bool

/-- The constructor `MMU(fn)`. Outside emulation mode the limits come from
the configuration; in emulation mode each is `UINT64_MAX` and requests are
exclusive. -/
def Limits.ofConfig (config : MMUConfig) : Limits :=
  if config.simulationMode ≠ "emulation" then
    { cacheLineWidth := config.cacheLineWidth, loadBandwidth := config.loadBandwidth,
      storeBandwidth := config.storeBandwidth, requestLimit := config.permittedRequestsPerCycle,
      loadRequestLimit := config.permittedLoadsPerCycle,
      storeRequestLimit := config.permittedStoresPerCycle, exclusiveRequests := config.exclusive }
  else
    { cacheLineWidth := config.cacheLineWidth, loadBandwidth := 2 ^ 64 - 1,
      storeBandwidth := 2 ^ 64 - 1, requestLimit := 2 ^ 64 - 1, loadRequestLimit := 2 ^ 64 - 1,
      storeRequestLimit := 2 ^ 64 - 1, exclusiveRequests := true }

/-- The responses of one load: for each address index, one slot per split. -/
abbrev ReadResponses := OrderedMap (List (Option MemPacket))

/-- The state of an `MMU`; the default is the state after the constructor.
`loadsStores_[isStore]` holds, per admitted instruction, the packets not yet
issued. The maps keyed by sequence id are functions, `none` where there is no
entry; `pendingRequests_` is keyed by virtual address. `pendingDataRequests_`
is a `uint64_t`, the packet counters of `requestedLoads_` and
`requestedStores_` are `uint16_t`. -/
structure MMU where
  loadsStores : Bool → List (List MemPacket) := fun _ => []
  requestedLoads : Nat → Option Nat := fun _ => none
  requestedStores : Nat → Option StoreEntry := fun _ => none
  readResponses : Nat → Option ReadResponses := fun _ => none
  pendingRequests : OrderedMap (List MemPacket) := OrderedMap.empty
  pendingDataRequests : Nat := 0
  completedInstrReads : List MemoryReadResult := []
  numInsnReads : Nat := 0
  numDataReads : Nat := 0
  numDataWrites : Nat := 0
  inFlight : List MemPacket := []
  insnCalls : List InsnCall := []
  issued : List MemPacket := []
  delivered : List MemPacket := []

namespace MMU

/-- The message of a dereferenced null packet pointer, undefined behaviour in
the source. -/
def nullPacket : String := "MMU: null read response packet"

/-! ## Responses -/

/-- `std::vector::resize(n)` on a vector of packet pointers. -/
def resizeVector (v : List (Option MemPacket)) (n : Nat) : List (Option MemPacket) :=
  v.take n ++ List.replicate (n - v.length) none

/-- The inner loop of `supplyLoadInsnData` over the splits after the first of
one address: the merged size and data, or `none` at the first faulty split,
after which the loop breaks. `mergedSize` is a `uint16_t`. -/
def mergeSplits : List (Option MemPacket) → Nat → List UInt8 → Except String (Option (Nat × List UInt8))
  | [], mergedSize, mergedData => .ok (some (mergedSize, mergedData))
  | none :: _, _, _ => .error nullPacket
  | some p :: rest, mergedSize, mergedData =>
    if p.isFaulty then .ok none
    else mergeSplits rest ((mergedSize + p.size) % 2 ^ 16) (mergedData ++ p.payload)

/-- One pass of `supplyLoadInsnData`'s outer loop, over the split responses of
one address of load `insn`: the `supplyData` call it makes, with an empty
value when a split is faulty. `RegisterValue(data, size)` copies `size`
bytes. -/
def supplyTarget (insn : Nat) : List (Option MemPacket) → Except String InsnCall
  | [] => .error "[SimEng:MMU] Empty read response packet vector."
  | none :: _ => .error nullPacket
  | some first :: rest =>
    if first.isFaulty then .ok (.supplyData insn first.vaddr [])
    else do
      match ← mergeSplits rest first.size first.payload with
      | none => pure (.supplyData insn first.vaddr [])
      | some (mergedSize, mergedData) => pure (.supplyData insn first.vaddr (mergedData.take mergedSize))

/-- The outer loop of `supplyLoadInsnData` over the address indices `is`. -/
def supplyTargets (insn : Nat) (packets : ReadResponses) : List Nat → Except String (List InsnCall)
  | [] => .ok []
  | i :: is => do
    let call ← supplyTarget insn ((packets.find? i).getD [])
    let calls ← supplyTargets insn packets is
    pure (call :: calls)

variable (s : MMU)

/-- `insn->hasAllData()` once the calls `calls` have been made on the
instructions. `Instruction` is not under `src/`; following the spec (§4.9),
each `supplyData(addr, value)` fills one of the instruction's addresses at
`addr`, and the instruction has all its data once every address is filled:
it has had, at each of its addresses, at least as many `supplyData` calls as
it has addresses there. -/
def hasAllData (heap : Heap) (insn : Nat) (calls : List InsnCall) : Bool :=
  let addrs := (heap insn).generatedAddresses.map (·.vaddr)
  addrs.all fun a => addrs.count a ≤ calls.countP (·.suppliesAt insn a)

/-- `supplyLoadInsnData(insnSeqId)`: each address of the load gets its
joined data, the load must then have all its data, and it leaves
`requestedLoads_` and `readResponses_`. `packets[i]` inserts an empty vector
for a missing index. -/
def supplyLoadInsnData (heap : Heap) (insnSeqId : Nat) : Except String MMU :=
  match s.requestedLoads insnSeqId with
  | none => .error "[SimEng:MMU] Tried to supply data to a load instruction that does not exist in the requestedLoads_ map."
  | some _ =>
    match s.readResponses insnSeqId with
    | none => .error "MMU: no read responses for the load"
    | some packets => do
      let calls ← supplyTargets insnSeqId packets (List.range packets.size)
      if hasAllData heap insnSeqId (s.insnCalls ++ calls) then
        pure { s with
          insnCalls := s.insnCalls ++ calls
          requestedLoads := Function.update s.requestedLoads insnSeqId none
          readResponses := Function.update s.readResponses insnSeqId none }
      else .error "[SimEng:MMU] Load instruction was supplied memory data but is still waiting on further data to be supplied."

/-- The receiver's branch for a data read: the packet goes to its slot, and
the load's counter drops; at zero the load gets its data. -/
def receiveRead (heap : Heap) (packet : MemPacket) : Except String MMU :=
  let seqId := packet.insnSeqId
  match s.requestedLoads seqId with
  | none => .error "[SimEng:MMU] Read response packet recieved for instruction that does not exist."
  | some totalPacketsRemaining =>
    let packets := (s.readResponses seqId).getD OrderedMap.empty
    let pktVec := (packets.find? packet.packetOrderId).getD []
    if packet.packetSplitId < pktVec.length then
      let remaining := (totalPacketsRemaining + (2 ^ 16 - 1)) % 2 ^ 16
      let s := { s with
        readResponses := Function.update s.readResponses seqId
          (some (packets.assign packet.packetOrderId (pktVec.set packet.packetSplitId (some packet))))
        requestedLoads := Function.update s.requestedLoads seqId (some remaining) }
      if remaining = 0 then s.supplyLoadInsnData heap seqId else .ok s
    else .error "MMU: split index past the response vector"

/-- The receiver's branch for a data write: the store's counter drops and a
failed packet marks it failed; at zero its result is reported. -/
def receiveWrite (packet : MemPacket) : MMU :=
  let seqId := packet.insnSeqId
  match s.requestedStores seqId with
  | none => s
  | some str =>
    let str : StoreEntry :=
      { totalPacketsRemaining := (str.totalPacketsRemaining + (2 ^ 16 - 1)) % 2 ^ 16
        failed := str.failed || packet.hasFailed }
    let s := { s with requestedStores := Function.update s.requestedStores seqId (some str) }
    if str.totalPacketsRemaining = 0 then
      { s with insnCalls := s.insnCalls ++ [.updateCondStoreResult seqId !str.failed] }
    else s

/-- The receiver `initPort` registers on the port. An instruction read goes
to `completedInstrReads_`, empty when faulty or ignored; a data packet
decrements `pendingDataRequests_` first. -/
def receiver (heap : Heap) (packet : MemPacket) : Except String MMU :=
  let s := { s with delivered := s.delivered ++ [packet] }
  if packet.isInstrRead then
    if packet.isFaulty || packet.isIgnored then
      .ok { s with
        completedInstrReads := s.completedInstrReads ++ [⟨packet.vaddr, packet.size, [], packet.insnSeqId⟩] }
    else
      .ok { s with
        completedInstrReads := s.completedInstrReads ++
          [⟨packet.vaddr, packet.size, packet.payload.take packet.size, packet.insnSeqId⟩] }
  else
    let s := { s with pendingDataRequests := (s.pendingDataRequests + (2 ^ 64 - 1)) % 2 ^ 64 }
    if packet.isRead then s.receiveRead heap packet
    else .ok (s.receiveWrite packet)

/-! ## Issue -/

/-- The end of `issueRequest`: the packet is counted by kind and passed to
`port_->send`. -/
def send (request : MemPacket) : MMU :=
  let s :=
    if request.isInstrRead then { s with numInsnReads := s.numInsnReads + 1 }
    else if request.isRead then { s with numDataReads := s.numDataReads + 1 }
    else { s with numDataWrites := s.numDataWrites + 1 }
  { s with inFlight := s.inFlight ++ [request] }

/-- `issueRequest(request)`: a data abort marks the packet faulty and the
port hands it straight back to the receiver; a pending translation parks it
in `pendingRequests_` under its address; otherwise it is sent, ignored or
with its physical address. -/
def issueRequest (heap : Heap) (translate : Nat → Translation) (request : MemPacket) : Except String MMU :=
  let s := { s with issued := s.issued ++ [request] }
  match translate request.vaddr with
  | .dataAbort => s.receiver heap { request with isFaulty := true }
  | .pending => .ok { s with pendingRequests := s.pendingRequests.pushBack request.vaddr request }
  | .ignored => .ok (s.send { request with isIgnored := true })
  | .ok paddr => .ok (s.send { request with paddr := paddr })

/-- `issueRequest` on each packet of a list, in order. -/
def issueAll (heap : Heap) (translate : Nat → Translation) : List MemPacket → MMU → Except String MMU
  | [], s => .ok s
  | request :: rest, s => do issueAll heap translate rest (← s.issueRequest heap translate request)

/-! ## Requests -/

section Requests

variable (limits : Limits)

/-- `readResponses_[insnSeqId][pktOrderId].resize(n)`. -/
def resizeResponses (insnSeqId pktOrderId n : Nat) : MMU :=
  let packets := (s.readResponses insnSeqId).getD OrderedMap.empty
  { s with
    readResponses := Function.update s.readResponses insnSeqId
      (some (packets.assign pktOrderId (resizeVector ((packets.find? pktOrderId).getD []) n))) }

/-- `createReadMemPackets`: the packets of one address, appended to
`outputVec`, and a response slot for each. -/
def createReadMemPackets (target : MemoryAccessTarget) (outputVec : List MemPacket)
    (insnSeqId pktOrderId : Nat) : Except String (List MemPacket × MMU) := do
  if ← isAligned limits.cacheLineWidth target then
    let req := createReadRequest target.vaddr target.size insnSeqId pktOrderId
    pure (outputVec ++ [req], s.resizeResponses insnSeqId pktOrderId 1)
  else
    let regions := splitRegions limits.cacheLineWidth target.size target.vaddr target.size 0
    pure (outputVec ++ readRequests insnSeqId pktOrderId regions,
      s.resizeResponses insnSeqId pktOrderId regions.length)

/-- `createWriteMemPackets`: the packets of one address with their slices of
`data`, appended to `outputVec`. A slice past the end of the data is
undefined behaviour. -/
def createWriteMemPackets (target : MemoryAccessTarget) (outputVec : List MemPacket) (data : List UInt8)
    (insnSeqId pktOrderId : Nat) : Except String (List MemPacket) := do
  if ← isAligned limits.cacheLineWidth target then
    pure (outputVec ++ [createWriteRequest target.vaddr target.size insnSeqId pktOrderId data])
  else
    let regions := splitRegions limits.cacheLineWidth target.size target.vaddr target.size 0
    if slicesFit regions data then pure (outputVec ++ writeRequests insnSeqId pktOrderId regions data)
    else .error "MMU: write data shorter than its packets"

/-- `std::vector<char> dt(wdata, wdata + target.size)`: the first
`target.size` bytes of a value; reading past its end is undefined
behaviour. -/
def formatData (target : MemoryAccessTarget) (data : RegisterValue) : Except String (List UInt8) :=
  if target.size ≤ data.length then .ok (data.take target.size)
  else .error "MMU: write data shorter than its target"

/-- The loop of `requestRead` over the load's addresses, from index `i`. -/
def createReads (insnSeqId : Nat) : List MemoryAccessTarget → Nat → List MemPacket → MMU →
    Except String (List MemPacket × MMU)
  | [], _, outputVec, s => .ok (outputVec, s)
  | target :: rest, i, outputVec, s => do
    let (outputVec, s) ← s.createReadMemPackets limits target outputVec insnSeqId i
    createReads insnSeqId rest (i + 1) outputVec s

/-- The loop of `requestWrite` over the store's addresses and data, from
index `i`. Each address writes the first `target.size` bytes of its data. -/
def createWrites (insnSeqId : Nat) : List (MemoryAccessTarget × RegisterValue) → Nat → List MemPacket →
    Except String (List MemPacket)
  | [], _, outputVec => .ok outputVec
  | (target, data) :: rest, i, outputVec => do
    let dt ← formatData target data
    let outputVec ← createWriteMemPackets limits target outputVec dt insnSeqId i
    createWrites insnSeqId rest (i + 1) outputVec

/-- The admission checks of `requestRead` (`isStore = false`) and
`requestWrite` (`isStore = true`): with exclusive requests, none of the other
kind may be queued; otherwise the queued instructions of both kinds stay
under `requestLimit_`; and those of this kind under their own limit. -/
def admits (isStore : Bool) : Bool :=
  !(limits.exclusiveRequests && (s.loadsStores !isStore).length != 0) &&
  !(!limits.exclusiveRequests &&
    decide (limits.requestLimit ≤ (s.loadsStores LD).length + (s.loadsStores STR).length)) &&
  !decide ((if isStore then limits.storeRequestLimit else limits.loadRequestLimit) ≤
    (s.loadsStores isStore).length)

/-- `requestRead(uop)`: a load is admitted or refused; an admitted load's
packets are queued and counted, and it is registered with its packet
count. -/
def requestRead (heap : Heap) (uop : Nat) : Except String (Bool × MMU) :=
  if s.admits limits LD then do
    let seqId := uop
    let (packets, s) ← createReads limits seqId (heap uop).generatedAddresses 0 [] s
    let packets := if (heap uop).isLoadReserved then packets.map fun p => { p with isAtomic := true }
      else packets
    let totalReqs := packets.length % 2 ^ 16
    pure (true, { s with
      loadsStores := Function.update s.loadsStores LD (s.loadsStores LD ++ [packets])
      pendingDataRequests := (s.pendingDataRequests + totalReqs) % 2 ^ 64
      requestedLoads := Function.update s.requestedLoads seqId (some totalReqs) })
  else .ok (false, s)

/-- `requestWrite(uop, data)`: a store is admitted or refused; an admitted
store's packets are queued and counted, and it is registered with its packet
count. -/
def requestWrite (heap : Heap) (uop : Nat) (data : List RegisterValue) : Except String (Bool × MMU) :=
  if s.admits limits STR then
    let targets := (heap uop).generatedAddresses
    let seqId := uop
    if data.length ≠ targets.length then
      .error "[SimEng:MMU] Number of addresses does not match the number of data elements to write."
    else do
      let packets ← createWrites limits seqId (targets.zip data) 0 []
      let packets := if (heap uop).isStoreCond then packets.map fun p => { p with isAtomic := true }
        else packets
      let totalReqs := packets.length % 2 ^ 16
      pure (true, { s with
        loadsStores := Function.update s.loadsStores STR (s.loadsStores STR ++ [packets])
        pendingDataRequests := (s.pendingDataRequests + totalReqs) % 2 ^ 64
        requestedStores := Function.update s.requestedStores seqId
          (some { totalPacketsRemaining := totalReqs }) })
  else .ok (false, s)

/-- `requestWrite(target, data)`, the untimed write: its packets are issued at
once, under sequence id 0, and counted after. The loop runs `uint16_t`
times. -/
def requestWriteTarget (heap : Heap) (translate : Nat → Translation) (target : MemoryAccessTarget)
    (data : RegisterValue) : Except String MMU := do
  let dt ← formatData target data
  let pktVec ← createWriteMemPackets limits target [] dt 0 0
  let pktVecSize := pktVec.length % 2 ^ 16
  let s ← issueAll heap translate (pktVec.take pktVecSize) s
  pure { s with pendingDataRequests := (s.pendingDataRequests + pktVecSize) % 2 ^ 64 }

/-- `requestInstrRead(target)`: one untimed instruction-read packet, issued at
once. -/
def requestInstrRead (heap : Heap) (translate : Nat → Translation) (target : MemoryAccessTarget) :
    Except String MMU := do
  if ← isAligned limits.cacheLineWidth target then
    s.issueRequest heap translate
      { createReadRequest target.vaddr target.size 0 0 with isUntimed := true, isInstrRead := true }
  else .error "[SimEng:MMU] Unlaigned instruction read requests are not permitted."

/-! ## Tick -/

/-- For the last packet of a store in `processRequests`: the store must be in
`requestedStores_`; one that is not conditional is set ready to commit and
erased. -/
def issueLastStorePacket (heap : Heap) (insnSeqId : Nat) : Except String MMU :=
  match s.requestedStores insnSeqId with
  | none => .error "[SimEng:MMU] Tried to process a store packet that has no assocaited store instruction in the MMU's requestedStores_ map."
  | some _ =>
    if (heap insnSeqId).isStoreCond then .ok s
    else .ok { s with
      insnCalls := s.insnCalls ++ [.setCommitReady insnSeqId]
      requestedStores := Function.update s.requestedStores insnSeqId none }

variable (heap : Heap) (translate : Nat → Translation) (isStore : Bool) (bandwidthLimit : Nat)

/-- The inner loop of `processRequests` over the packets of the instruction
at the head, with the bandwidth used so far (a `uint64_t`): the packets left
and the bandwidth used. A packet that does not fit ends the whole call, with
the packets from it on left. -/
def processPackets : List MemPacket → Nat → MMU → Except String (List MemPacket × Nat × MMU)
  | [], bandwidthUsed, s => .ok ([], bandwidthUsed, s)
  | pkt :: rest, bandwidthUsed, s =>
    if (bandwidthUsed + pkt.size) % 2 ^ 64 ≤ bandwidthLimit then do
      let s ← (if isStore && rest.isEmpty then s.issueLastStorePacket heap pkt.insnSeqId else pure s)
      let s ← s.issueRequest heap translate pkt
      processPackets rest ((bandwidthUsed + pkt.size) % 2 ^ 64) s
    else .ok (pkt :: rest, bandwidthUsed, s)

/-- The outer loop of `processRequests` over the queued instructions: an
instruction whose packets are all issued is erased and the next one
follows; one with packets left stays at the head and the call ends. -/
def processInsns : List (List MemPacket) → Nat → MMU → Except String (List (List MemPacket) × MMU)
  | [], _, s => .ok ([], s)
  | insn :: rest, bandwidthUsed, s => do
    let (left, bandwidthUsed, s) ← processPackets heap translate isStore bandwidthLimit insn bandwidthUsed s
    if left.isEmpty then processInsns rest bandwidthUsed s
    else pure (left :: rest, s)

end Requests

section Tick

variable (limits : Limits) (heap : Heap) (translate : Nat → Translation)

/-- `processRequests(isStore)`: the queued packets of one kind, issued in
order within the kind's bandwidth. -/
def processRequests (isStore : Bool) : Except String MMU := do
  let bandwidthLimit := if isStore then limits.storeBandwidth else limits.loadBandwidth
  let (queue, s) ← processInsns heap translate isStore bandwidthLimit (s.loadsStores isStore) 0 s
  pure { s with loadsStores := Function.update s.loadsStores isStore queue }

/-- `tick()`: with exclusive requests, the kind that has instructions queued,
stores if any; otherwise stores, then loads. -/
def tick : Except String MMU :=
  if limits.exclusiveRequests then s.processRequests limits heap translate ((s.loadsStores STR).length != 0)
  else do (← s.processRequests limits heap translate STR).processRequests limits heap translate LD

end Tick

/-! ## Translations -/

/-- `supplyDelayedTranslation(vaddr, paddr)`: the packets parked under
`vaddr` are issued again and the entry erased. Every packet parked there has
that address, so all take one outcome; a `pending` outcome parks each again
at the end of the vector being walked, and the loop never ends. -/
def supplyDelayedTranslation (heap : Heap) (translate : Nat → Translation) (vaddr _paddr : Nat) :
    Except String MMU :=
  match s.pendingRequests.find? vaddr with
  | none => .ok s
  | some requests =>
    if translate vaddr = .pending then .error "MMU: supplyDelayedTranslation does not return"
    else do
      let s ← issueAll heap translate requests s
      pure { s with pendingRequests := s.pendingRequests.erase vaddr }

/-- `hasPendingRequests()`. -/
def hasPendingRequests : Bool := s.pendingDataRequests != 0

/-- The memory's answer to the `k`-th packet in flight: a read comes back
with `payload` (`turnIntoReadResponse`), a write with `failed` as its failure
flag, and the port passes it to the receiver. -/
def respond (heap : Heap) (k : Nat) (payload : List UInt8) (failed : Bool) : Except String MMU :=
  match s.inFlight[k]? with
  | none => .ok s
  | some packet =>
    let s := { s with inFlight := s.inFlight.eraseIdx k }
    s.receiver heap (if packet.isRead then { packet with payload := payload } else { packet with hasFailed := failed })

/-! ## Runs -/

/-- One call on the MMU, or one answer of the memory. -/
inductive Call
  | requestRead (uop : Nat)
  | requestWrite (uop : Nat) (data : List RegisterValue)
  | requestWriteTarget (translate : Nat → Translation) (target : MemoryAccessTarget) (data : RegisterValue)
  | requestInstrRead (translate : Nat → Translation) (target : MemoryAccessTarget)
  | tick (translate : Nat → Translation)
  | supplyDelayedTranslation (translate : Nat → Translation) (vaddr paddr : Nat)
  | respond (k : Nat) (payload : List UInt8) (failed : Bool)
  | clearCompletedIntrReads

variable (limits : Limits) (heap : Heap)

/-- The number of packets a request call makes; the other calls make
none. -/
def Call.requestPackets : Call → Nat
  | .requestRead uop | .requestWrite uop _ =>
    ((heap uop).generatedAddresses.map (packetCount limits.cacheLineWidth)).sum
  | _ => 0

/-- One step of the MMU and its memory. -/
def step : Call → Except String MMU
  | .requestRead uop => (s.requestRead limits heap uop).map Prod.snd
  | .requestWrite uop data => (s.requestWrite limits heap uop data).map Prod.snd
  | .requestWriteTarget translate target data => s.requestWriteTarget limits heap translate target data
  | .requestInstrRead translate target => s.requestInstrRead limits heap translate target
  | .tick translate => s.tick limits heap translate
  | .supplyDelayedTranslation translate vaddr paddr => s.supplyDelayedTranslation heap translate vaddr paddr
  | .respond k payload failed => s.respond heap k payload failed
  | .clearCompletedIntrReads => .ok { s with completedInstrReads := [] }

/-- A run: the steps of a list of calls, stopping at a failed assertion. -/
def run : List Call → MMU → Except String MMU
  | [], s => .ok s
  | c :: rest, s => (s.step limits heap c).bind (run rest)

/-! ## What each operation changes -/

/-- `s'` differs from `s` at most in the receiver's books: the registered
loads and stores, the read responses, the calls on instructions and the
completed instruction reads. -/
structure KeepsTraffic (s s' : MMU) : Prop where
  loadsStores : s'.loadsStores = s.loadsStores
  pendingRequests : s'.pendingRequests = s.pendingRequests
  pendingDataRequests : s'.pendingDataRequests = s.pendingDataRequests
  inFlight : s'.inFlight = s.inFlight
  issued : s'.issued = s.issued
  delivered : s'.delivered = s.delivered

namespace KeepsTraffic

theorem refl (s : MMU) : KeepsTraffic s s := ⟨rfl, rfl, rfl, rfl, rfl, rfl⟩

theorem trans {s₁ s₂ s₃ : MMU} (h₁ : KeepsTraffic s₁ s₂) (h₂ : KeepsTraffic s₂ s₃) :
    KeepsTraffic s₁ s₃ :=
  ⟨h₂.loadsStores.trans h₁.loadsStores, h₂.pendingRequests.trans h₁.pendingRequests,
    h₂.pendingDataRequests.trans h₁.pendingDataRequests, h₂.inFlight.trans h₁.inFlight,
    h₂.issued.trans h₁.issued, h₂.delivered.trans h₁.delivered⟩

end KeepsTraffic

section Keeps

variable {s s' : MMU} {heap : Heap}

theorem supplyLoadInsnData_keeps {q : Nat} (h : s.supplyLoadInsnData heap q = .ok s') : KeepsTraffic s s' := by
  unfold supplyLoadInsnData at h
  split at h
  · cases h
  · split at h
    · cases h
    · obtain ⟨_, -, h⟩ := bind_eq_ok.1 h
      split at h
      · cases h
        exact ⟨rfl, rfl, rfl, rfl, rfl, rfl⟩
      · cases h

theorem receiveRead_keeps {p : MemPacket} (h : s.receiveRead heap p = .ok s') : KeepsTraffic s s' := by
  dsimp only [receiveRead] at h
  split at h
  · cases h
  · split at h
    · split at h
      · refine KeepsTraffic.trans ?_ (supplyLoadInsnData_keeps h)
        exact ⟨rfl, rfl, rfl, rfl, rfl, rfl⟩
      · cases h; exact ⟨rfl, rfl, rfl, rfl, rfl, rfl⟩
    · cases h

theorem receiveWrite_keeps (p : MemPacket) : KeepsTraffic s (s.receiveWrite p) := by
  dsimp only [receiveWrite]
  split
  · exact KeepsTraffic.refl s
  · split <;> exact ⟨rfl, rfl, rfl, rfl, rfl, rfl⟩

/-- The receiver logs the packet and, for a data packet, decrements the
counter; the rest of the traffic stays. -/
theorem receiver_keeps {p : MemPacket} (h : s.receiver heap p = .ok s') :
    KeepsTraffic { s with
      delivered := s.delivered ++ [p]
      pendingDataRequests := if p.isInstrRead then s.pendingDataRequests
        else (s.pendingDataRequests + (2 ^ 64 - 1)) % 2 ^ 64 } s' := by
  unfold receiver at h
  dsimp only at h
  by_cases hi : p.isInstrRead
  · simp only [hi, if_true] at h ⊢
    split at h <;> cases h <;> exact ⟨rfl, rfl, rfl, rfl, rfl, rfl⟩
  · simp only [hi, if_false, Bool.false_eq_true] at h ⊢
    split at h
    · exact receiveRead_keeps h
    · cases h; exact receiveWrite_keeps p

theorem issueLastStorePacket_keeps {q : Nat} (h : s.issueLastStorePacket heap q = .ok s') :
    KeepsTraffic s s' := by
  unfold issueLastStorePacket at h
  split at h
  · cases h
  · split at h <;> cases h <;> exact ⟨rfl, rfl, rfl, rfl, rfl, rfl⟩

/-- `issueRequest` hands the packet back to the receiver, parks it, or sends
it. -/
theorem issueRequest_cases {translate : Nat → Translation} {p : MemPacket}
    (h : s.issueRequest heap translate p = .ok s') :
    (translate p.vaddr = .dataAbort ∧
      ({ s with issued := s.issued ++ [p] }.receiver heap { p with isFaulty := true } = .ok s')) ∨
    (translate p.vaddr = .pending ∧
      s' = { s with issued := s.issued ++ [p], pendingRequests := s.pendingRequests.pushBack p.vaddr p }) ∨
    (∃ p', p'.isInstrRead = p.isInstrRead ∧ p'.isRead = p.isRead ∧ translate p.vaddr ≠ .pending ∧
      translate p.vaddr ≠ .dataAbort ∧ s' = { s with issued := s.issued ++ [p] }.send p') := by
  unfold issueRequest at h
  rcases ht : translate p.vaddr with paddr | _ | _ | _ <;> simp only [ht] at h
  · cases h; exact .inr (.inr ⟨{ p with paddr := paddr }, rfl, rfl, by simp, by simp, rfl⟩)
  · exact .inl ⟨rfl, h⟩
  · cases h; exact .inr (.inl ⟨rfl, rfl⟩)
  · cases h; exact .inr (.inr ⟨{ p with isIgnored := true }, rfl, rfl, by simp, by simp, rfl⟩)

theorem send_loadsStores (p : MemPacket) : (s.send p).loadsStores = s.loadsStores := by
  unfold send; split_ifs <;> rfl

theorem send_issued (p : MemPacket) : (s.send p).issued = s.issued := by
  unfold send; split_ifs <;> rfl

theorem issueRequest_loadsStores {translate : Nat → Translation} {p : MemPacket}
    (h : s.issueRequest heap translate p = .ok s') : s'.loadsStores = s.loadsStores := by
  rcases issueRequest_cases h with ⟨-, h⟩ | ⟨-, rfl⟩ | ⟨p', -, -, -, -, rfl⟩
  · exact (receiver_keeps h).loadsStores
  · rfl
  · exact send_loadsStores _

theorem issueRequest_issued {translate : Nat → Translation} {p : MemPacket}
    (h : s.issueRequest heap translate p = .ok s') : s'.issued = s.issued ++ [p] := by
  rcases issueRequest_cases h with ⟨-, h⟩ | ⟨-, rfl⟩ | ⟨p', -, -, -, -, rfl⟩
  · exact (receiver_keeps h).issued
  · rfl
  · exact send_issued _

theorem issueAll_loadsStores {translate : Nat → Translation} {ps : List MemPacket}
    (h : issueAll heap translate ps s = .ok s') : s'.loadsStores = s.loadsStores := by
  induction ps generalizing s with
  | nil => cases h; rfl
  | cons p rest ih =>
    obtain ⟨s₁, h₁, h₂⟩ := bind_eq_ok.1 h
    exact (ih h₂).trans (issueRequest_loadsStores h₁)

theorem issueAll_issued {translate : Nat → Translation} {ps : List MemPacket}
    (h : issueAll heap translate ps s = .ok s') : s'.issued = s.issued ++ ps := by
  induction ps generalizing s with
  | nil => cases h; simp
  | cons p rest ih =>
    obtain ⟨s₁, h₁, h₂⟩ := bind_eq_ok.1 h
    rw [ih h₂, issueRequest_issued h₁, List.append_assoc, List.singleton_append]

theorem createReadMemPackets_eq {limits : Limits} {t : MemoryAccessTarget} {out : List MemPacket}
    {q i : Nat} {r : List MemPacket × MMU} (h : s.createReadMemPackets limits t out q i = .ok r) :
    ∃ rr, r.2 = { s with readResponses := rr } := by
  obtain ⟨aligned, -, h⟩ := bind_eq_ok.1 h
  split at h <;> cases h <;> exact ⟨_, rfl⟩

/-- `requestRead`'s loop only adds response slots. -/
theorem createReads_eq {limits : Limits} {q : Nat} :
    ∀ {targets : List MemoryAccessTarget} {i : Nat} {out : List MemPacket} {s : MMU}
      {r : List MemPacket × MMU}, createReads limits q targets i out s = .ok r →
      ∃ rr, r.2 = { s with readResponses := rr }
  | [], _, _, s, r, h => by cases h; exact ⟨s.readResponses, rfl⟩
  | t :: rest, i, out, s, r, h => by
    obtain ⟨⟨out₁, s₁⟩, h₁, h₂⟩ := bind_eq_ok.1 h
    obtain ⟨rr₁, hs₁⟩ := createReadMemPackets_eq h₁
    obtain ⟨rr, hr⟩ := createReads_eq h₂
    exact ⟨rr, by rw [hr]; dsimp only at hs₁; rw [hs₁]⟩

theorem requestWriteTarget_loadsStores {limits : Limits} {translate : Nat → Translation}
    {t : MemoryAccessTarget} {d : RegisterValue} (h : s.requestWriteTarget limits heap translate t d = .ok s') :
    s'.loadsStores = s.loadsStores := by
  obtain ⟨dt, -, h⟩ := bind_eq_ok.1 h
  obtain ⟨pktVec, -, h⟩ := bind_eq_ok.1 h
  obtain ⟨s₁, h₁, h⟩ := bind_eq_ok.1 h
  cases h
  have := issueAll_loadsStores h₁
  exact this

theorem requestInstrRead_loadsStores {limits : Limits} {translate : Nat → Translation}
    {t : MemoryAccessTarget} (h : s.requestInstrRead limits heap translate t = .ok s') :
    s'.loadsStores = s.loadsStores := by
  obtain ⟨aligned, -, h⟩ := bind_eq_ok.1 h
  split at h
  · exact issueRequest_loadsStores h
  · cases h

theorem supplyDelayedTranslation_loadsStores {translate : Nat → Translation} {v pa : Nat}
    (h : s.supplyDelayedTranslation heap translate v pa = .ok s') : s'.loadsStores = s.loadsStores := by
  unfold supplyDelayedTranslation at h
  split at h
  · cases h; rfl
  · split at h
    · cases h
    · obtain ⟨s₁, h₁, h⟩ := bind_eq_ok.1 h
      cases h
      have := issueAll_loadsStores h₁
      exact this

theorem respond_loadsStores {k : Nat} {payload : List UInt8} {failed : Bool}
    (h : s.respond heap k payload failed = .ok s') : s'.loadsStores = s.loadsStores := by
  unfold respond at h
  split at h
  · cases h; rfl
  · exact (receiver_keeps h).loadsStores

theorem createReadMemPackets_packets {limits : Limits} {t : MemoryAccessTarget} {out : List MemPacket}
    {q i : Nat} {r : List MemPacket × MMU} (h : s.createReadMemPackets limits t out q i = .ok r) :
    ∃ new, r.1 = out ++ new ∧ new.length = packetCount limits.cacheLineWidth t ∧
      ∀ p ∈ new, p.isInstrRead = false := by
  obtain ⟨aligned, ha, h⟩ := bind_eq_ok.1 h
  cases aligned <;> simp only [if_true, if_false, Bool.false_eq_true] at h <;> cases h
  · refine ⟨_, rfl, by simp [readRequests, packetCount, ha], ?_⟩
    simp only [readRequests, List.mem_map]
    rintro p ⟨r, -, rfl⟩
    rfl
  · exact ⟨_, rfl, by simp [packetCount, ha], by simp [createReadRequest]⟩

theorem createReads_packets {limits : Limits} {q : Nat} :
    ∀ {targets : List MemoryAccessTarget} {i : Nat} {out : List MemPacket} {s : MMU}
      {r : List MemPacket × MMU}, createReads limits q targets i out s = .ok r →
      ∃ new, r.1 = out ++ new ∧ new.length = (targets.map (packetCount limits.cacheLineWidth)).sum ∧
        ∀ p ∈ new, p.isInstrRead = false
  | [], _, out, s, r, h => by cases h; exact ⟨[], by simp, rfl, by simp⟩
  | t :: rest, i, out, s, r, h => by
    obtain ⟨⟨out₁, s₁⟩, h₁, h₂⟩ := bind_eq_ok.1 h
    obtain ⟨new₁, hout₁, hlen₁, hd₁⟩ := createReadMemPackets_packets h₁
    obtain ⟨new₂, hout₂, hlen₂, hd₂⟩ := createReads_packets h₂
    dsimp only at hout₁
    refine ⟨new₁ ++ new₂, by rw [hout₂, hout₁, List.append_assoc], by simp [hlen₁, hlen₂], ?_⟩
    intro p hp
    rcases List.mem_append.1 hp with hp | hp
    exacts [hd₁ p hp, hd₂ p hp]

theorem createWriteMemPackets_packets {limits : Limits} {t : MemoryAccessTarget} {out : List MemPacket}
    {d : List UInt8} {q i : Nat} {r : List MemPacket} (h : createWriteMemPackets limits t out d q i = .ok r) :
    ∃ new, r = out ++ new ∧ new.length = packetCount limits.cacheLineWidth t ∧
      ∀ p ∈ new, p.isInstrRead = false := by
  obtain ⟨aligned, ha, h⟩ := bind_eq_ok.1 h
  cases aligned <;> simp only [if_true, if_false, Bool.false_eq_true] at h
  · split at h <;> cases h
    exact ⟨_, rfl, by simp [length_writeRequests, packetCount, ha], fun p hp => isInstrRead_writeRequests hp⟩
  · cases h
    exact ⟨_, rfl, by simp [packetCount, ha], by simp [createWriteRequest]⟩

theorem createWrites_packets {limits : Limits} {q : Nat} :
    ∀ {targets : List (MemoryAccessTarget × RegisterValue)} {i : Nat} {out : List MemPacket}
      {r : List MemPacket}, createWrites limits q targets i out = .ok r →
      ∃ new, r = out ++ new ∧ new.length = (targets.map fun t => packetCount limits.cacheLineWidth t.1).sum ∧
        ∀ p ∈ new, p.isInstrRead = false
  | [], _, out, r, h => by cases h; exact ⟨[], by simp, rfl, by simp⟩
  | (t, d) :: rest, i, out, r, h => by
    obtain ⟨dt, -, h⟩ := bind_eq_ok.1 h
    obtain ⟨out₁, h₁, h₂⟩ := bind_eq_ok.1 h
    obtain ⟨new₁, hout₁, hlen₁, hd₁⟩ := createWriteMemPackets_packets h₁
    obtain ⟨new₂, hout₂, hlen₂, hd₂⟩ := createWrites_packets h₂
    refine ⟨new₁ ++ new₂, by rw [hout₂, hout₁, List.append_assoc], by simp [hlen₁, hlen₂], ?_⟩
    intro p hp
    rcases List.mem_append.1 hp with hp | hp
    exacts [hd₁ p hp, hd₂ p hp]

end Keeps

/-! ## Runs -/

/-- A property every step keeps holds after every run. -/
theorem run_inv {limits : Limits} {heap : Heap} {P : MMU → Prop}
    (hstep : ∀ s c s', P s → s.step limits heap c = .ok s' → P s') :
    ∀ {calls : List Call} {s s' : MMU}, P s → run limits heap calls s = .ok s' → P s'
  | [], s, s', hs, h => by cases h; exact hs
  | c :: rest, s, s', hs, h => by
    cases hc : s.step limits heap c with
    | error e => simp [run, hc, Except.bind] at h
    | ok s₁ => simp only [run, hc, Except.bind] at h; exact run_inv hstep (hstep s c s₁ hs hc) h

/-- A property every step of an allowed call keeps holds after every run of
allowed calls. -/
theorem run_inv_of {limits : Limits} {heap : Heap} {Q : Call → Prop} {P : MMU → Prop}
    (hstep : ∀ s c s', Q c → P s → s.step limits heap c = .ok s' → P s') :
    ∀ {calls : List Call} {s s' : MMU}, (∀ c ∈ calls, Q c) → P s → run limits heap calls s = .ok s' → P s'
  | [], s, s', _, hs, h => by cases h; exact hs
  | c :: rest, s, s', hq, hs, h => by
    cases hc : s.step limits heap c with
    | error e => simp [run, hc, Except.bind] at h
    | ok s₁ =>
      simp only [run, hc, Except.bind] at h
      exact run_inv_of hstep (fun c' hc' => hq c' (List.mem_cons_of_mem c hc'))
        (hstep s c s₁ (hq c (List.mem_cons_self c rest)) hs hc) h

end MMU

end SimEng.Memory
