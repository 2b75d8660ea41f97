import SimEng.Pipeline.RequestDispatch

/-!
# SimEng — the reorder buffer, and the back end it drives

`outoforder::ReorderBuffer` (outoforder/ReorderBuffer.cc) holds the in-flight
instructions in program order. `reserve` gives each instruction the next
sequence id; `commit` retires commit-ready instructions from the head, calling
the register alias table and the load/store queue; `flush` discards the
instructions younger than a sequence id, youngest first.

The register alias table and the core's `raiseException` are not under
`src/`: the buffer's calls to them are recorded, in order, as `RobCall`s.

The second half of the module is the back end as the out-of-order core drives
it: the shared instructions, the reorder buffer and the load/store queue,
stepped by `Backend.step`. The rename unit and the execution units are not
under `src/` (only `RenameUnit.hh` is); their part in a step is modelled from
the spec and marked so.
-/

namespace SimEng.Pipeline

/-- A call the reorder buffer makes on a collaborator. -/
inductive RobCall
  | ratCommit (reg : Register)
  | ratRewind (reg : Register)
  | raiseException (insn : Nat)
deriving DecidableEq, Repr

/-- The state of an `outoforder::ReorderBuffer`. The header is not under
`src/`; the fields are the members `ReorderBuffer.cc` uses, and `calls`
records its calls on the register alias table and the core. -/
structure ReorderBuffer where
  maxSize : Nat
  buffer : List Nat := []
  seqId : Nat := 0
  shouldFlush : Bool := false
  flushAfter : Nat := 0
  pc : Nat := 0
  calls : List RobCall := []

/-- `uint64_t` decrement: `n - 1`, where `0 - 1` wraps to the maximum. -/
def uint64Pred (n : Nat) : Nat := (n + (2 ^ 64 - 1)) % 2 ^ 64

namespace ReorderBuffer

/-- `reserve`: the instruction gets the next sequence id and joins the tail. -/
def reserve (insn : Instruction) (st : Heap × ReorderBuffer) :
    Except String (Heap × ReorderBuffer) :=
  let (heap, rob) := st
  if rob.buffer.length < rob.maxSize then
    .ok (Function.update heap rob.seqId insn,
      { rob with seqId := rob.seqId + 1, buffer := rob.buffer ++ [rob.seqId] })
  else .error "Attempted to reserve entry in reorder buffer when already full"

/-- `getFreeSpace` (an `unsigned int` subtraction). -/
def getFreeSpace (rob : ReorderBuffer) : Nat := LoadStoreQueue.unsignedDiff rob.maxSize rob.buffer.length

variable (heap : Heap)

/-- The loop of `commit`, with `k` iterations left and `n` instructions
committed so far. -/
def commitLoop : Nat → Nat → ReorderBuffer × LoadStoreQueue →
    Except String (Nat × ReorderBuffer × LoadStoreQueue)
  | 0, n, st => .ok (n, st)
  | k + 1, n, (rob, lsq) =>
    match rob.buffer with
    | [] => .ok (n, rob, lsq)
    | uop :: rest =>
      if !(heap uop).canCommit then .ok (n, rob, lsq)
      else if (heap uop).exceptionEncountered then
        .ok (n + 1, { rob with buffer := rest, calls := rob.calls ++ [.raiseException uop] }, lsq)
      else
        let rob := { rob with calls := rob.calls ++ (heap uop).destinationRegisters.map RobCall.ratCommit }
        if (heap uop).isStore then do
          let (violationFound, lsq) ← lsq.commitStore heap uop
          match violationFound, lsq.getViolatingLoad with
          | true, some load =>
            let rob := { rob with
              buffer := rest
              shouldFlush := true
              flushAfter := uint64Pred load
              pc := (heap load).instructionAddress }
            .ok (n + 1, rob, lsq)
          | _, _ => commitLoop k (n + 1) ({ rob with buffer := rest }, lsq)
        else if (heap uop).isLoad then do
          let lsq ← lsq.commitLoad heap uop
          commitLoop k (n + 1) ({ rob with buffer := rest }, lsq)
        else commitLoop k (n + 1) ({ rob with buffer := rest }, lsq)

/-- `commit(maxCommitSize)`: retires up to `maxCommitSize` instructions from
the head and returns how many left the buffer. -/
def commit (maxCommitSize : Nat) (st : ReorderBuffer × LoadStoreQueue) :
    Except String (Nat × ReorderBuffer × LoadStoreQueue) :=
  commitLoop heap (min maxCommitSize st.1.buffer.length) 0 ({ st.1 with shouldFlush := false }, st.2)

/-- The loop of `flush`, over the buffer from its tail: every instruction
younger than `afterSeqId` is rewound and marked flushed. Returns the kept
buffer (tail first). -/
def flushLoop (afterSeqId : Nat) : List Nat → Heap × List RobCall → List Nat × Heap × List RobCall
  | [], st => ([], st)
  | uop :: older, (heap, calls) =>
    if uop ≤ afterSeqId then (uop :: older, heap, calls)
    else flushLoop afterSeqId older
      (heap.setFlushed uop, calls ++ (heap uop).destinationRegisters.map RobCall.ratRewind)

/-- `flush(afterSeqId)`. -/
def flush (afterSeqId : Nat) (st : Heap × ReorderBuffer) : Heap × ReorderBuffer :=
  let (kept, heap, calls) := flushLoop afterSeqId st.2.buffer.reverse (st.1, st.2.calls)
  (heap, { st.2 with buffer := kept.reverse, calls := calls })

end ReorderBuffer

/-! ## The back end -/

/-- The out-of-order back end's memory-ordering part: the shared
instructions, the reorder buffer and the load/store queue. Three ghost fields
record the history: the loads an execution unit has passed to `startLoad`,
each load `startLoad` parked with the store it parked on, and the loads the
memory management unit has accepted. -/
structure Backend where
  heap : Heap
  rob : ReorderBuffer
  lsq : LoadStoreQueue
  started : List Nat := []
  parkedOn : List (Nat × Nat) := []
  handed : List Nat := []

/-- One event of the back end. -/
inductive Action
  /-- The rename unit reserves the instruction and adds it to the queue. -/
  | rename (insn : Instruction)
  /-- An execution unit generates the addresses of an instruction. -/
  | generateAddresses (uop : Nat) (addresses : List MemoryAccessTarget)
  /-- An execution unit starts a load. -/
  | startLoad (uop : Nat)
  /-- Writeback makes an instruction commit-ready, with or without an exception. -/
  | complete (uop : Nat) (exception : Bool)
  /-- The core commits. -/
  | commit (maxCommitSize : Nat)
  /-- The core flushes the reorder buffer and purges the load/store queue. -/
  | flush (afterSeqId : Nat)
  /-- The load/store queue ticks, and the memory management unit answers its
  requests from the script `answers`. -/
  | tick (answers : List Bool)

/-- A memory management unit that answers from a script: each request takes
the next answer, and is rejected once the script runs out. The answers any
unit gives in one tick form such a script. -/
def scriptedMMU : MemoryInterface (List Bool) where
  requestRead _ _ answers := (answers.headD false, answers.tail)
  requestWrite _ _ _ answers := (answers.headD false, answers.tail)

namespace Backend

/-- Modelled from the spec: the rename unit (`RenameUnit.cc` is not under
`src/`, §4.3). An instruction is renamed when the reorder buffer has a free
entry and the load/store queue has room of its kind; it is reserved and, if it
is a load or a store, added to the queue. Otherwise the unit stalls. -/
def rename (insn : Instruction) (s : Backend) : Except String Backend :=
  if s.rob.getFreeSpace = 0 ∨ (insn.isLoad ∧ s.lsq.getLoadQueueSpace = 0) ∨
      (insn.isStore ∧ s.lsq.getStoreQueueSpace = 0) then .ok s
  else
    let q := s.rob.seqId
    let lsq := if insn.isLoad then s.lsq.addLoad q else s.lsq
    (ReorderBuffer.reserve insn (s.heap, s.rob)).map fun r =>
      { s with heap := r.1, rob := r.2, lsq := if insn.isStore then lsq.addStore q else lsq }

/-- Whether a load is parked on a store in `conflictionMap_`. -/
def parked (s : Backend) (uop : Nat) : Prop :=
  ∃ e ∈ s.lsq.conflictionMap.entries, uop ∈ e.2

instance (s : Backend) (uop : Nat) : Decidable (s.parked uop) :=
  inferInstanceAs (Decidable (∃ e ∈ s.lsq.conflictionMap.entries, uop ∈ e.2))

/-- One step of the back end. Events of decode, the execution units and
writeback are modelled from the spec: decode hands over instructions that are
not flushed; each other event applies to an instruction in the reorder
buffer; addresses are generated once, before the load starts; a load is
started once, before it writes back; a load parked on a store has not executed and cannot become
commit-ready. An event outside these bounds leaves the state alone. -/
def step (s : Backend) : Action → Except String Backend
  | .rename insn => if insn.flushed then .ok s else s.rename insn
  | .generateAddresses uop addresses =>
    if uop ∈ s.rob.buffer ∧ (s.heap uop).generatedAddresses = [] ∧ uop ∉ s.started then
      let insn := { s.heap uop with generatedAddresses := addresses }
      .ok { s with heap := Function.update s.heap uop insn }
    else .ok s
  | .startLoad uop =>
    if uop ∈ s.rob.buffer ∧ (s.heap uop).isLoad ∧ uop ∉ s.started ∧
        (s.heap uop).commitReady = false then
      let started := s.lsq.startLoad s.heap uop
      .ok { s with
        heap := started.1
        lsq := started.2
        started := s.started ++ [uop]
        parkedOn := s.parkedOn ++ ((s.lsq.parkingStore s.heap uop).map fun st => (uop, st)).toList }
    else .ok s
  | .complete uop exception =>
    if uop ∈ s.rob.buffer ∧ ¬ s.parked uop then
      let insn := { s.heap uop with commitReady := true, exceptionEncountered := exception }
      .ok { s with heap := Function.update s.heap uop insn }
    else .ok s
  | .commit maxCommitSize =>
    (ReorderBuffer.commit s.heap maxCommitSize (s.rob, s.lsq)).map fun r =>
      { s with rob := r.2.1, lsq := r.2.2 }
  | .flush afterSeqId =>
    let flushed := ReorderBuffer.flush afterSeqId (s.heap, s.rob)
    .ok { s with heap := flushed.1, rob := flushed.2, lsq := s.lsq.purgeFlushed flushed.1 }
  | .tick answers =>
    let ticked := s.lsq.tickRequests scriptedMMU s.heap answers
    .ok { s with
      lsq := ticked.1
      handed := s.handed ++ (Pipeline.handed false ticked.2.2).map Prod.snd }

/-- A run: the steps of a list of events, stopping at a failed assertion. -/
def run (s : Backend) : List Action → Except String Backend
  | [] => .ok s
  | a :: rest => (s.step a).bind fun s' => run s' rest

/-- A property that every event keeps holds after every run. -/
theorem run_inv {P : Backend → Prop} (hstep : ∀ s a s', P s → s.step a = .ok s' → P s')
    {s s' : Backend} {actions : List Action} (hs : P s) (h : s.run actions = .ok s') : P s' := by
  induction actions generalizing s with
  | nil => simp only [run, Except.ok.injEq] at h; exact h ▸ hs
  | cons a rest ih =>
    cases hst : s.step a with
    | error e => simp [run, hst, Except.bind] at h
    | ok s₁ => simp only [run, hst, Except.bind] at h; exact ih (hstep s a s₁ hs hst) h

/-- The back end before any instruction: a reorder buffer of `maxSize`
entries, a new load/store queue, sequence ids from 0. -/
def init (maxSize : Nat) (config : LoadStoreQueue.Config) : Backend :=
  { heap := fun _ => default, rob := { maxSize := maxSize }, lsq := { config := config } }

end Backend

end SimEng.Pipeline
