import SimEng.Instruction

/-!
# SimEng — the pipeline's dispatch/issue unit

`pipeline::DispatchIssueUnit` (pipeline/DispatchIssueUnit.cc) holds several
reservation stations, each with one ready queue per issue port it serves.
`portMapping_` maps an issue port to its reservation station and to the index
of its ready queue there. An instruction dispatched by `tick` is allocated a
port; it goes straight to that port's ready queue when all its operands can be
read, and otherwise waits in the dependency matrix. `forwardOperands` supplies
a result to the instructions waiting on it: at once when the forwarding
latency is 0, through the no-forward list `dependantInstructions_` (served by
the register file once the scoreboard says ready) when it is -1, and
otherwise through the timed wake-up list `waitingInstructions_`. `issue`
sends the front of each port's ready queue; `purgeFlushed` drops flushed
instructions from the ready queues and the dependency matrix.

The instruction objects, the port allocator, the register file and the
forwarding table (`canForward`) are not under `src/`. An instruction is a
`Uop` with operand slots, each unsupplied or supplied with a value, as the
spec describes (§2); the allocator's answers, the register file and the
forwarding latencies are inputs of the calls, and the calls the unit makes on
the allocator are recorded as `PortCall`s. The stall counters are left out:
no modelled function reads them.
-/

namespace SimEng.Pipeline

/-- What the unit reads and writes of an instruction. -/
structure Uop where
  operandRegisters : List Register := []
  operands : List (Option RegisterValue) := []
  destinationRegisters : List Register := []
  results : List RegisterValue := []
  supportedPorts : List Nat := []
  exceptionEncountered : Bool := false
  commitReady : Bool := false
  flushed : Bool := false
deriving DecidableEq

namespace Uop

/-- `isOperandReady(i)`. -/
def isOperandReady (u : Uop) (i : Nat) : Bool := (u.operands.getD i none).isSome

/-- `canExecute()`: every operand is supplied. -/
def canExecute (u : Uop) : Bool := u.operands.all Option.isSome

/-- `supplyOperand(i, value)`. -/
def supplyOperand (u : Uop) (i : Nat) (value : RegisterValue) : Uop :=
  { u with operands := u.operands.set i (some value) }

end Uop

/-- The instruction behind every handle. -/
abbrev Uops := Nat → Uop

/-- An entry of the dependency matrix and of the wake-up lists: an
instruction, the port allocated to it, and the operand it waits for. -/
structure DependencyEntry where
  uop : Nat
  port : Nat
  operandIndex : Nat
deriving DecidableEq

/-- A ready queue and the issue port it serves. -/
structure ReservationStationPort where
  issuePort : Nat := 0
  ready : List Nat := []
deriving DecidableEq

/-- A reservation station: its capacity, occupancy and ready queues. -/
structure ReservationStation where
  capacity : Nat
  currentSize : Nat
  ports : List ReservationStationPort
deriving DecidableEq

/-- A call the unit makes on the port allocator. -/
inductive PortCall
  | allocate (supportedPorts : List Nat)
  | issued (port : Nat)
  | deallocate (port : Nat)
deriving DecidableEq

/-- `std::vector::resize(n)`: cut to `n` entries, or filled up with `value`. -/
def resizeWith {α : Type} (l : List α) (n : Nat) (value : α) : List α :=
  l.take n ++ List.replicate (n - l.length) value

/-- The state of the unit. `registers` lists every physical register in the
order the dependency matrix is laid out (by bank, then tag). Three ghosts log
what the source does not keep: `allocated`, each instruction dispatched with
the port allocated to it; `pushes`, each instruction pushed onto a ready
queue with the port whose queue it is; and `supplies`, each operand (an
instruction and an operand index) supplied after dispatch, by a result or
from the no-forward list. -/
structure DispatchIssueUnit where
  registers : List Register
  scoreboard : Register → Bool
  dependencyMatrix : Register → List DependencyEntry
  reservationStations : List ReservationStation
  portMapping : List (Nat × Nat)
  waitingInstructions : List (Nat × DependencyEntry × RegisterValue) := []
  dependantInstructions : List DependencyEntry := []
  ticks : Nat := 0
  dispatches : List Nat
  dispatchRate : Nat
  enableBypassLatency : Bool
  portCalls : List PortCall := []
  allocated : List (Nat × Nat) := []
  pushes : List (Nat × Nat) := []
  supplies : List (Nat × Nat) := []

namespace DispatchIssueUnit

/-! ## The constructor -/

/-- One pass of the constructor's loop, for issue port `port` and its entry
`(rsIndex, capacity)` of `rsArrangement`: the reservation station grows to
hold the index if needed and takes the capacity, the port gets the next ready
queue of that station (`port_index`, a `uint8_t`), and `portMapping_`
records both. -/
def arrangePort (port : Nat) (entry : Nat × Nat) (acc : List ReservationStation × List (Nat × Nat)) :
    List ReservationStation × List (Nat × Nat) :=
  let stations := if acc.1.length < entry.1 + 1 then
    resizeWith acc.1 (entry.1 + 1) ⟨0, 0, []⟩ else acc.1
  let portIndex := acc.2.countP (·.1 = entry.1) % 2 ^ 8
  let rs := stations.getD entry.1 ⟨0, 0, []⟩
  let ports := (resizeWith rs.ports (portIndex + 1) {}).modify (fun p => { p with issuePort := port })
    portIndex
  (stations.set entry.1 { rs with capacity := entry.2, ports := ports }, acc.2 ++ [(entry.1, portIndex)])

/-- The constructor's loop over `rsArrangement`, from issue port `port`. -/
def arrangePorts : Nat → List (Nat × Nat) → List ReservationStation × List (Nat × Nat) →
    List ReservationStation × List (Nat × Nat)
  | _, [], acc => acc
  | port, entry :: rest, acc => arrangePorts (port + 1) rest (arrangePort port entry acc)

/-- Every register of a `physicalRegisterStructure`, bank by bank. -/
def allRegisters (physicalRegisterStructure : List Nat) : List Register :=
  physicalRegisterStructure.enum.flatMap fun (type, count) => (List.range count).map fun tag => ⟨type, tag⟩

/-- `for (uint8_t i = start; i < size; i++)`, given `fuel` passes: the
indices it visits, or `none` when the fuel runs out first. The counter is a
`uint8_t`, so `i++` wraps from 255 to 0. -/
def uint8Loop (size : Nat) : Nat → Nat → Option (List Nat)
  | 0, i => if i < size then none else some []
  | fuel + 1, i => if i < size then (uint8Loop size fuel ((i + 1) % 2 ^ 8)).map (i :: ·) else some []

/-- With fewer than 256 iterations the loop visits `0, …, size - 1` and ends
within `size` passes. -/
theorem uint8Loop_of_lt {size : Nat} (hs : size < 2 ^ 8) : uint8Loop size size 0 = some (List.range size) := by
  suffices ∀ k i, i + k = size → uint8Loop size k i = some (List.range' i k) by
    simpa [List.range_eq_range'] using this size 0 (by simp)
  intro k
  induction k with
  | zero => intro i hi; simp [uint8Loop, show ¬i < size by omega]
  | succ k ih =>
    intro i hi
    simp only [uint8Loop, if_pos (show i < size by omega), Nat.mod_eq_of_lt (show i + 1 < 2 ^ 8 by omega),
      ih (i + 1) (by omega), Option.map_some', List.range'_succ]

/-- **With 256 stations the loop never ends**: every counter value is below
the size, so no fuel is enough. -/
theorem uint8Loop_never_ends {size : Nat} (hs : 2 ^ 8 ≤ size) : ∀ fuel i, i < 2 ^ 8 → uint8Loop size fuel i = none
  | 0, i, hi => if_pos (by omega)
  | fuel + 1, i, hi => by
    rw [uint8Loop, if_pos (by omega), uint8Loop_never_ends hs fuel _ (Nat.mod_lt _ (by decide)), Option.map_none']

/-- The unit the constructor has built when it reaches its last loop: every
register ready, no dependency, the reservation stations and port mapping of
`rsArrangement`. -/
def construct (physicalRegisterStructure : List Nat) (rsArrangement : List (Nat × Nat))
    (enableBypassLatency : Bool) (dispatchRate : Nat) : DispatchIssueUnit :=
  let (stations, mapping) := arrangePorts 0 rsArrangement ([], [])
  { registers := allRegisters physicalRegisterStructure
    scoreboard := fun _ => true
    dependencyMatrix := fun _ => []
    reservationStations := stations
    portMapping := mapping
    dispatches := List.replicate stations.length 0
    dispatchRate := dispatchRate
    enableBypassLatency := enableBypassLatency }

/-- The constructor. It returns the unit `construct` builds once its last
loop, `for (uint8_t i = 0; i < reservationStations_.size(); i++)` giving each
station its `flushed_` set, ends: with 256 stations it never does
(`uint8Loop_never_ends`). -/
def create (physicalRegisterStructure : List Nat) (rsArrangement : List (Nat × Nat))
    (enableBypassLatency : Bool) (dispatchRate : Nat) : Option DispatchIssueUnit :=
  let u := construct physicalRegisterStructure rsArrangement enableBypassLatency dispatchRate
  (uint8Loop u.reservationStations.length u.reservationStations.length 0).map fun _ => u

/-- The constructor returns exactly when there are fewer than 256 stations. -/
theorem create_eq_some_iff {physicalRegisterStructure : List Nat} {rsArrangement : List (Nat × Nat)}
    {enableBypassLatency : Bool} {dispatchRate : Nat} {u : DispatchIssueUnit} :
    create physicalRegisterStructure rsArrangement enableBypassLatency dispatchRate = some u ↔
      u = construct physicalRegisterStructure rsArrangement enableBypassLatency dispatchRate ∧
        u.reservationStations.length < 2 ^ 8 := by
  unfold create
  generalize construct physicalRegisterStructure rsArrangement enableBypassLatency dispatchRate = c
  dsimp only
  rcases Nat.lt_or_ge c.reservationStations.length (2 ^ 8) with h | h
  · rw [uint8Loop_of_lt h, Option.map_some', Option.some.injEq]
    exact ⟨fun e => ⟨e.symm, e ▸ h⟩, fun ⟨e, _⟩ => e.symm⟩
  · rw [uint8Loop_never_ends h _ _ (by decide), Option.map_none']
    exact ⟨Option.noConfusion, fun ⟨e, hl⟩ => absurd (e ▸ hl) (Nat.not_lt.2 h)⟩

/-! ## Ready queues -/

/-- The ready queue `(rsIndex, portIndex)` with `f` applied. -/
def modifyQueue (stations : List ReservationStation) (q : Nat × Nat)
    (f : List Nat → List Nat) : List ReservationStation :=
  stations.modify (fun rs => { rs with ports := rs.ports.modify (fun p => { p with ready := f p.ready }) q.2 })
    q.1

/-- Push `uop` onto the ready queue that `portMapping_` gives for `port`. -/
def pushReady (s : DispatchIssueUnit) (port uop : Nat) : DispatchIssueUnit :=
  { s with
    reservationStations := modifyQueue s.reservationStations (s.portMapping.getD port (0, 0)) (· ++ [uop])
    pushes := s.pushes ++ [(uop, port)] }

/-- Supply operand `e.operandIndex` of `e.uop` with `value`, and push the
instruction onto its port's ready queue if it can now execute. -/
def supplyEntry (e : DependencyEntry) (value : RegisterValue) (st : DispatchIssueUnit × Uops) :
    DispatchIssueUnit × Uops :=
  let (s, uops) := st
  let s := { s with supplies := s.supplies ++ [(e.uop, e.operandIndex)] }
  let u := (uops e.uop).supplyOperand e.operandIndex value
  (if u.canExecute then s.pushReady e.port e.uop else s, Function.update uops e.uop u)

/-! ## `tick` -/

section Tick

variable (regFile : Register → RegisterValue) (allocate : Nat → Nat)

/-- The wake-up loop of `tick` over `waitingInstructions_`: an entry due at
the current tick supplies its value and leaves; the others stay, in order. -/
def wakeUp (ticks : Nat) : List (Nat × DependencyEntry × RegisterValue) →
    DispatchIssueUnit × Uops → List (Nat × DependencyEntry × RegisterValue) × DispatchIssueUnit × Uops
  | [], st => ([], st)
  | w :: rest, st =>
    if w.1 = ticks then wakeUp ticks rest (supplyEntry w.2.1 w.2.2 st)
    else
      let r := wakeUp ticks rest st
      (w :: r.1, r.2)

/-- The loop of `tick` over `dependantInstructions_`: an entry whose register
the scoreboard marks ready is read from the register file and leaves; an
instruction that can execute is pushed onto its ready queue, whether or not
this entry supplied it. -/
def readDependants : List DependencyEntry → DispatchIssueUnit × Uops →
    List DependencyEntry × DispatchIssueUnit × Uops
  | [], st => ([], st)
  | e :: rest, (s, uops) =>
    let reg := ((uops e.uop).operandRegisters.get? e.operandIndex).getD ⟨0, 0⟩
    let supplied := s.scoreboard reg
    let u := if supplied then (uops e.uop).supplyOperand e.operandIndex (regFile reg) else uops e.uop
    let uops := Function.update uops e.uop u
    let s := if supplied then { s with supplies := s.supplies ++ [(e.uop, e.operandIndex)] } else s
    let s := if u.canExecute then s.pushReady e.port e.uop else s
    let r := readDependants rest (s, uops)
    (if supplied then r.1 else e :: r.1, r.2)

/-- The register-read loop of dispatch for instruction `uop` on `port`, over
its operand indices and registers. Returns the instruction, the dependency
matrix and whether every operand is now supplied. -/
def readOperands (uop port : Nat) (scoreboard : Register → Bool) :
    List (Nat × Register) → Uop × (Register → List DependencyEntry) × Bool →
    Uop × (Register → List DependencyEntry) × Bool
  | [], r => r
  | (i, reg) :: rest, (u, m, ready) =>
    if u.isOperandReady i then readOperands uop port scoreboard rest (u, m, ready)
    else if scoreboard reg then
      readOperands uop port scoreboard rest (u.supplyOperand i (regFile reg), m, ready)
    else readOperands uop port scoreboard rest (u, Function.update m reg (m reg ++ [⟨uop, port, i⟩]), false)

/-- The dispatch loop of `tick` over the input buffer's head slots. An
instruction with an exception is marked commit-ready and dropped. Otherwise
it is allocated a port (`allocate` gives the allocator's answer, a
`uint8_t`); when its reservation station is full or has used its dispatch
quota, the port is given back, the input stalls and the tick ends. Returns the
slots and whether the input stalled. -/
def dispatchSlots : List (Option Nat) → DispatchIssueUnit × Uops →
    Except String (List (Option Nat) × Bool × DispatchIssueUnit × Uops)
  | [], st => .ok ([], false, st)
  | none :: rest, st => (dispatchSlots rest st).map fun r => (none :: r.1, r.2)
  | some uop :: rest, (s, uops) =>
    if (uops uop).exceptionEncountered then
      (dispatchSlots rest (s, Function.update uops uop { uops uop with commitReady := true })).map
        fun r => (none :: r.1, r.2)
    else
      let port := allocate uop % 2 ^ 8
      let s : DispatchIssueUnit :=
        { s with portCalls := s.portCalls ++ [PortCall.allocate (uops uop).supportedPorts] }
      let q := s.portMapping.getD port (0, 0)
      match s.reservationStations[q.1]? with
      | none => .error "Allocated port inaccessible"
      | some rs =>
        if rs.currentSize = rs.capacity ∨ s.dispatches.getD q.1 0 = s.dispatchRate then
          .ok (some uop :: rest, true, { s with portCalls := s.portCalls ++ [PortCall.deallocate port] }, uops)
        else
          let r := readOperands regFile uop port s.scoreboard (uops uop).operandRegisters.enum
            (uops uop, s.dependencyMatrix, true)
          let stations := s.reservationStations.modify
            (fun rs => { rs with currentSize := rs.currentSize + 1 }) q.1
          let s : DispatchIssueUnit := { s with
            dependencyMatrix := r.2.1
            scoreboard := fun reg => if reg ∈ r.1.destinationRegisters then false else s.scoreboard reg
            dispatches := s.dispatches.modify (· + 1) q.1
            reservationStations := if r.2.2 then modifyQueue stations q (· ++ [uop]) else stations
            allocated := s.allocated ++ [(uop, port)]
            pushes := if r.2.2 then s.pushes ++ [(uop, port)] else s.pushes }
          (dispatchSlots rest (s, Function.update uops uop r.1)).map fun r => (none :: r.1, r.2)

/-- `tick`: the tick counter (a `uint64_t`) advances and the dispatch
counters reset; due wake-ups are served, then the no-forward list, then the
input buffer's head slots are dispatched. -/
def tick (slots : List (Option Nat)) (st : DispatchIssueUnit × Uops) :
    Except String (List (Option Nat) × Bool × DispatchIssueUnit × Uops) :=
  let ticks := (st.1.ticks + 1) % 2 ^ 64
  let s := { st.1 with ticks := ticks, dispatches := List.replicate st.1.dispatches.length 0 }
  let w := wakeUp ticks s.waitingInstructions (s, st.2)
  let d := readDependants regFile s.dependantInstructions
    ({ w.2.1 with waitingInstructions := w.1 }, w.2.2)
  dispatchSlots regFile allocate slots ({ d.2.1 with dependantInstructions := d.1 }, d.2.2)

end Tick

/-! ## `issue` -/

/-- The loop of `issue` over the issue ports: a port whose buffer is not
stalled sends the front of its ready queue, and the station's occupancy
drops. Returns the instructions sent, with their ports. -/
def issuePorts (stalled : List Bool) : List Nat → DispatchIssueUnit →
    Except String (DispatchIssueUnit × List (Nat × Nat))
  | [], s => .ok (s, [])
  | i :: rest, s =>
    let q := s.portMapping.getD i (0, 0)
    let rs := s.reservationStations.getD q.1 ⟨0, 0, []⟩
    if stalled.getD i false then issuePorts stalled rest s
    else
      match (rs.ports.getD q.2 {}).ready with
      | [] => issuePorts stalled rest s
      | uop :: _ =>
        if rs.currentSize = 0 then .error "assert(rs.currentSize > 0)"
        else
          let stations := (modifyQueue s.reservationStations q List.tail).modify
            (fun rs => { rs with currentSize := rs.currentSize - 1 }) q.1
          (issuePorts stalled rest
            { s with reservationStations := stations, portCalls := s.portCalls ++ [.issued i] }).map
            fun r => (r.1, (i, uop) :: r.2)

/-- `issue()`, with the stall flag of each issue port. -/
def issue (stalled : List Bool) (s : DispatchIssueUnit) :
    Except String (DispatchIssueUnit × List (Nat × Nat)) :=
  issuePorts stalled (List.range stalled.length) s

/-! ## `forwardOperands` and `setRegisterReady` -/

/-- The loop of `forwardOperands` over the instructions waiting on one
result. `canForward` gives the forwarding latency (an `int8_t`) from the
producer to each consumer. -/
def forwardDependents (producer : Nat) (canForward : Nat → Nat → Int) (value : RegisterValue) :
    List DependencyEntry → DispatchIssueUnit × Uops → DispatchIssueUnit × Uops
  | [], st => st
  | e :: rest, (s, uops) =>
    let latency := if s.enableBypassLatency then canForward producer e.uop else 0
    forwardDependents producer canForward value rest
      (if latency = 0 then supplyEntry e value (s, uops)
      else if latency = -1 then ({ s with dependantInstructions := s.dependantInstructions ++ [e] }, uops)
      else
        ({ s with waitingInstructions :=
            s.waitingInstructions ++ [(Int.toNat (((s.ticks : Int) + latency) % 2 ^ 64), e, value)] }, uops))

/-- The loop of `forwardOperands` over the producer's results. -/
def forwardLoop (producer : Nat) (canForward : Nat → Nat → Int) :
    List (Register × RegisterValue) → DispatchIssueUnit × Uops → DispatchIssueUnit × Uops
  | [], st => st
  | (reg, value) :: rest, (s, uops) =>
    let s := { s with scoreboard := Function.update s.scoreboard reg true }
    let r := forwardDependents producer canForward value (s.dependencyMatrix reg) (s, uops)
    forwardLoop producer canForward rest
      ({ r.1 with dependencyMatrix := Function.update r.1.dependencyMatrix reg [] }, r.2)

/-- `forwardOperands(insn)`. -/
def forwardOperands (insn : Nat) (canForward : Nat → Nat → Int) (st : DispatchIssueUnit × Uops) :
    Except String (DispatchIssueUnit × Uops) :=
  let u := st.2 insn
  if u.destinationRegisters.length = u.results.length then
    .ok (forwardLoop insn canForward (u.destinationRegisters.zip u.results) st)
  else .error "Mismatched register and value vector sizes"

/-- `setRegisterReady(reg)`. -/
def setRegisterReady (reg : Register) (s : DispatchIssueUnit) : DispatchIssueUnit :=
  { s with scoreboard := Function.update s.scoreboard reg true }

/-! ## `purgeFlushed` -/

section Purge

variable (uops : Uops)

/-- `purgeFlushed`'s loop over one ready queue: a flushed instruction leaves,
the queue's port is given back and the occupancy drops. -/
def purgeReady (issuePort : Nat) : List Nat → Nat × List PortCall →
    Except String (List Nat × Nat × List PortCall)
  | [], r => .ok ([], r)
  | u :: rest, (size, calls) =>
    if (uops u).flushed then
      if size = 0 then .error "assert(rs.currentSize > 0)"
      else purgeReady issuePort rest (size - 1, calls ++ [.deallocate issuePort])
    else (purgeReady issuePort rest (size, calls)).map fun r => (u :: r.1, r.2)

/-- The loop over a station's ready queues. -/
def purgePorts : List ReservationStationPort → Nat × List PortCall →
    Except String (List ReservationStationPort × Nat × List PortCall)
  | [], r => .ok ([], r)
  | p :: rest, r => do
    let (ready, r) ← purgeReady uops p.issuePort p.ready r
    let (ports, r) ← purgePorts rest r
    pure ({ p with ready := ready } :: ports, r)

/-- The loop over the stations. -/
def purgeStations : List ReservationStation → List PortCall →
    Except String (List ReservationStation × List PortCall)
  | [], calls => .ok ([], calls)
  | rs :: rest, calls => do
    let (ports, size, calls) ← purgePorts uops rs.ports (rs.currentSize, calls)
    let (stations, calls) ← purgeStations rest calls
    pure ({ rs with currentSize := size, ports := ports } :: stations, calls)

/-- `purgeFlushed`'s loop over one dependency list: a flushed entry leaves;
the first time an instruction is met, it joins `flushed_` of its station and
its port is given back. -/
def purgeList (portMapping : List (Nat × Nat)) : List DependencyEntry →
    (Nat → List Nat) × List PortCall → List DependencyEntry × (Nat → List Nat) × List PortCall
  | [], r => ([], r)
  | e :: rest, (flushed, calls) =>
    if (uops e.uop).flushed then
      let rsIndex := (portMapping.getD e.port (0, 0)).1
      purgeList portMapping rest
        (if e.uop ∈ flushed rsIndex then (flushed, calls)
        else (Function.update flushed rsIndex (flushed rsIndex ++ [e.uop]), calls ++ [.deallocate e.port]))
    else
      let r := purgeList portMapping rest (flushed, calls)
      (e :: r.1, r.2)

/-- The loop over the dependency matrix, register by register. -/
def purgeMatrix (portMapping : List (Nat × Nat)) : List Register →
    (Register → List DependencyEntry) × (Nat → List Nat) × List PortCall →
    (Register → List DependencyEntry) × (Nat → List Nat) × List PortCall
  | [], r => r
  | reg :: rest, (m, flushed, calls) =>
    let r := purgeList uops portMapping (m reg) (flushed, calls)
    purgeMatrix portMapping rest (Function.update m reg r.1, r.2)

/-- The last loop: each station's occupancy drops by the instructions of its
`flushed_` set. -/
def dropFlushed (flushed : Nat → List Nat) : Nat → List ReservationStation →
    Except String (List ReservationStation)
  | _, [] => .ok []
  | i, rs :: rest =>
    if rs.currentSize < (flushed i).length then .error "assert(reservationStations_[i].currentSize >= flushed_[i].size())"
    else (dropFlushed flushed (i + 1) rest).map
      fun stations => { rs with currentSize := rs.currentSize - (flushed i).length } :: stations

/-- The last loop ("Update reservation station size"), `dropFlushed` on a
`uint8_t` counter: with 256 stations it never ends, and the run stops there,
as at a failed assertion. -/
def updateSizes (flushed : Nat → List Nat) (stations : List ReservationStation) :
    Except String (List ReservationStation) :=
  match uint8Loop stations.length stations.length 0 with
  | some _ => dropFlushed flushed 0 stations
  | none => .error "purgeFlushed: the uint8_t loop over the stations never ends"

/-- `purgeFlushed()`. -/
def purgeFlushed (s : DispatchIssueUnit) : Except String DispatchIssueUnit := do
  let (stations, calls) ← purgeStations uops s.reservationStations s.portCalls
  let (m, flushed, calls) := purgeMatrix uops s.portMapping s.registers (s.dependencyMatrix, fun _ => [], calls)
  let stations ← updateSizes flushed stations
  pure { s with reservationStations := stations, dependencyMatrix := m, portCalls := calls }

end Purge

/-! ## Runs -/

/-- What happens to the unit: its own calls, and another unit marking an
instruction flushed. -/
inductive Event
  | tick (slots : List (Option Nat)) (regFile : Register → RegisterValue) (allocate : Nat → Nat)
  | issue (stalled : List Bool)
  | forwardOperands (insn : Nat) (canForward : Nat → Nat → Int)
  | setRegisterReady (reg : Register)
  | purgeFlushed
  | flush (uop : Nat)

/-- One event; the input buffer and the issue ports are outside the state. -/
def step (st : DispatchIssueUnit × Uops) : Event → Except String (DispatchIssueUnit × Uops)
  | .tick slots regFile allocate => (tick regFile allocate slots st).map (·.2.2)
  | .issue stalled => (issue stalled st.1).map fun r => (r.1, st.2)
  | .forwardOperands insn canForward => forwardOperands insn canForward st
  | .setRegisterReady reg => .ok (st.1.setRegisterReady reg, st.2)
  | .purgeFlushed => (purgeFlushed st.2 st.1).map fun s => (s, st.2)
  | .flush uop => .ok (st.1, Function.update st.2 uop { st.2 uop with flushed := true })

/-- A run: the events in order, stopping at a failed assertion. -/
def run (st : DispatchIssueUnit × Uops) : List Event → Except String (DispatchIssueUnit × Uops)
  | [] => .ok st
  | e :: rest => (step st e).bind fun st' => run st' rest

end DispatchIssueUnit

end SimEng.Pipeline
