import Mathlib.Data.List.Basic
import Mathlib.Algebra.Order.Ring.Nat
import Mathlib.Algebra.Group.Int

/-!
# SimEng — execution information of the RISC-V architecture

The constructor of `riscv::Architecture` (Architecture.cc) fills two tables
from the configuration: `groupExecutionInfo_`, the latency, stall cycles and
supporting ports of each instruction group, and `opcodeExecutionInfo_`, the
overrides by opcode, which `getExecutionInfo` lays over a group's values.

* A `Latencies` entry gives its latency and throughput to the groups it
  names, and a breadth-first walk over `groupInheritance` passes them on to
  every group that inherits from one of them, unless that group already holds
  values from an inheritance distance no larger. The distance is a `uint8_t`
  that grows by one at each pop of the walk's queue.
* In `outoforder` mode each `Ports` entry adds its port, its index cast to
  `uint8_t`, to the groups it names, and the same walk adds it to every group
  inheriting from them.

`groupInheritance` and `NUM_GROUPS` come from a header that is not under
`src/`: the model takes the inheritance map as a parameter (a group with no
entry in the map has no children), and the vectors indexed by group are
functions on every index, as the source does not check the bound. Each
`while (groups.size())` loop is `walk`, bounded by `fuel` rounds.
-/

namespace SimEng.Arch.Riscv

/-- `executionInfo`: latency, stall cycles and supporting ports. -/
structure ExecutionInfo where
  latency : Nat
  stallCycles : Nat
  ports : List Nat
deriving DecidableEq, Repr

/-- An entry of the `Latencies` list of the configuration. -/
structure LatencyEntry where
  executionLatency : Nat
  executionThroughput : Nat
  instructionGroup : List Nat
  instructionOpcode : List Nat := []
deriving DecidableEq, Repr

/-- An entry of the `Ports` list of the configuration. -/
structure PortEntry where
  instructionGroupSupport : List Nat
  instructionOpcodeSupport : List Nat := []
deriving DecidableEq, Repr

/-- What the constructor reads of the configuration. -/
structure Config where
  latencies : List LatencyEntry
  simulationMode : String
  ports : List PortEntry

/-- The tables the constructor fills. -/
structure Architecture where
  groupExecutionInfo : Nat → ExecutionInfo
  opcodeExecutionInfo : Nat → Option ExecutionInfo

variable (groupInheritance : Nat → List Nat)

/-- A `while (groups.size())` loop of the constructor, with at most `fuel`
rounds: each round pops the front group, acts on every group that inherits
from it and queues them; `distance`, a `uint8_t`, grows by one at each pop.
`none` when the queue is not empty after `fuel` rounds. -/
def walk {σ : Type} (act : Nat → σ → Nat → σ) : Nat → List Nat → Nat → σ → Option σ
  | _, [], _, st => some st
  | 0, _ :: _, _, _ => none
  | fuel + 1, front :: rest, distance, st =>
    walk act fuel (rest ++ groupInheritance front) ((distance + 1) % 256)
      ((groupInheritance front).foldl (act distance) st)

/-- The state of the `Latencies` loop: `groupExecutionInfo_` and
`inheritanceDistance`. -/
structure LatencyState where
  groupExecutionInfo : Nat → ExecutionInfo
  inheritanceDistance : Nat → Nat

/-- The values of a `Latencies` entry given to a group. -/
def LatencyState.assign (st : LatencyState) (group latency throughput distance : Nat) : LatencyState where
  groupExecutionInfo := Function.update st.groupExecutionInfo group
    { st.groupExecutionInfo group with latency := latency, stallCycles := throughput }
  inheritanceDistance := Function.update st.inheritanceDistance group distance

/-- A group met by the walk of a `Latencies` entry takes its values unless it
holds values inherited from a distance no larger. -/
def inheritLatency (latency throughput distance : Nat) (st : LatencyState) (group : Nat) : LatencyState :=
  if st.inheritanceDistance group > distance then st.assign group latency throughput distance else st

/-- A group named by a `Latencies` entry takes its values at distance 0, and
the walk passes them on. -/
def assignLatency (fuel latency throughput : Nat) (st : LatencyState) (group : Nat) : Option LatencyState :=
  walk groupInheritance (inheritLatency latency throughput) fuel [group] 1 (st.assign group latency throughput 0)

/-- An opcode named by a `Latencies` entry: `opcodeExecutionInfo_[opcode]`,
value-initialised if absent, takes the entry's values. -/
def overrideLatency (latency throughput : Nat) (opcodes : Nat → Option ExecutionInfo) (opcode : Nat) :
    Nat → Option ExecutionInfo :=
  Function.update opcodes opcode
    (some { (opcodes opcode).getD ⟨0, 0, []⟩ with latency := latency, stallCycles := throughput })

/-- One entry of the `Latencies` loop. -/
def latencyEntry (fuel : Nat) (st : LatencyState × (Nat → Option ExecutionInfo)) (entry : LatencyEntry) :
    Option (LatencyState × (Nat → Option ExecutionInfo)) :=
  (entry.instructionGroup.foldlM
    (assignLatency groupInheritance fuel entry.executionLatency entry.executionThroughput) st.1).map
    fun groups => (groups, entry.instructionOpcode.foldl
      (overrideLatency entry.executionLatency entry.executionThroughput) st.2)

/-- `ports.push_back(port)` on a group. -/
def addPort (port : Nat) (info : Nat → ExecutionInfo) (group : Nat) : Nat → ExecutionInfo :=
  Function.update info group { info group with ports := (info group).ports ++ [port] }

/-- A group named by a `Ports` entry gains the port, and the walk adds it to
every group inheriting from it. -/
def assignPort (fuel port : Nat) (info : Nat → ExecutionInfo) (group : Nat) : Option (Nat → ExecutionInfo) :=
  walk groupInheritance (fun _ => addPort port) fuel [group] 1 (addPort port info group)

/-- An opcode named by a `Ports` entry: `try_emplace(opcode, {0, 0, {}})`,
then the port. -/
def supportOpcode (port : Nat) (opcodes : Nat → Option ExecutionInfo) (opcode : Nat) :
    Nat → Option ExecutionInfo :=
  Function.update opcodes opcode
    (some { (opcodes opcode).getD ⟨0, 0, []⟩ with ports := ((opcodes opcode).getD ⟨0, 0, []⟩).ports ++ [port] })

/-- The `Ports` entry of index `i`, whose port is `static_cast<uint8_t>(i)`. -/
def portEntry (fuel : Nat) (arch : Architecture) (entry : Nat × PortEntry) : Option Architecture :=
  (entry.2.instructionGroupSupport.foldlM (assignPort groupInheritance fuel (entry.1 % 256))
    arch.groupExecutionInfo).map
    fun groups => ⟨groups, entry.2.instructionOpcodeSupport.foldl (supportOpcode (entry.1 % 256))
      arch.opcodeExecutionInfo⟩

/-- Every group starts at `{1, 1, {}}`, at inheritance distance `UINT8_MAX`. -/
def initialLatencies : LatencyState where
  groupExecutionInfo _ := ⟨1, 1, []⟩
  inheritanceDistance _ := 255

/-- The constructor, as far as the execution information goes, each walk
bounded by `fuel` rounds. -/
def create (fuel : Nat) (config : Config) : Option Architecture :=
  (config.latencies.foldlM (latencyEntry groupInheritance fuel) (initialLatencies, fun _ => none)).bind
    fun st =>
      if config.simulationMode = "outoforder" then
        config.ports.enum.foldlM (portEntry groupInheritance fuel) ⟨st.1.groupExecutionInfo, st.2⟩
      else some ⟨st.1.groupExecutionInfo, st.2⟩

/-- `getExecutionInfo`: the group's values, with an opcode override's nonzero
latency and stall cycles and nonempty ports in their place. -/
def getExecutionInfo (arch : Architecture) (group opcode : Nat) : ExecutionInfo :=
  match arch.opcodeExecutionInfo opcode with
  | some overrideInfo =>
    { latency := if overrideInfo.latency ≠ 0 then overrideInfo.latency else (arch.groupExecutionInfo group).latency
      stallCycles :=
        if overrideInfo.stallCycles ≠ 0 then overrideInfo.stallCycles else (arch.groupExecutionInfo group).stallCycles
      ports := if overrideInfo.ports.length ≠ 0 then overrideInfo.ports else (arch.groupExecutionInfo group).ports }
  | none => arch.groupExecutionInfo group

end SimEng.Arch.Riscv
