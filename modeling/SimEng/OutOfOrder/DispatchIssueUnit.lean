import SimEng.Instruction

/-!
# SimEng — the out-of-order core's dispatch/issue unit

`outoforder::DispatchIssueUnit` (outoforder/DispatchIssueUnit.cc) keeps one
reservation station of `(uop, port)` entries in dispatch order and a counter
`readyCount` of the entries whose operands are all supplied. `tick` dispatches
from the rename buffer, reading each operand from the register file when the
scoreboard marks it ready and otherwise registering the instruction in the
dependency matrix; `forwardOperands` supplies a result to the instructions
waiting on it; `issue` scans the station from its oldest entry for ready
entries whose port is free; `purgeFlushed` drops flushed entries.

The instruction objects, the port allocator and the register file are not
under `src/`. An instruction is a `Uop` with operand slots, each unsupplied or
supplied with a value, as the spec describes (§2); the allocator's answers are
an input of `tick`, and the calls the unit makes on it are recorded as
`PortCall`s.

Main results:

* `issue_spins_on_busy_port` — when the first ready entry `issue` meets has a
  busy port, the loop stays on that entry until `readyRemaining` runs out:
  nothing is issued, whatever the younger entries and their ports;
* `issue_blocks_younger_entry` — a ready entry for a free port is not issued
  behind a ready entry whose port is busy;
* `readyCount_counts_purged_uop` — `purgeFlushed` leaves a flushed instruction
  in the dependency matrix, and a later `forwardOperands` counts it as ready
  although it has left the reservation station.
-/

namespace SimEng.OutOfOrder

/-- What the unit reads and writes of an instruction: its operand registers
and slots, destination registers, group and flushed flag. -/
structure Uop where
  operandRegisters : List Register := []
  operands : List (Option RegisterValue) := []
  destinationRegisters : List Register := []
  group : Nat := 0
  flushed : Bool := false
deriving DecidableEq

namespace Uop

/-- `isOperandReady(i)`. -/
def isOperandReady (u : Uop) (i : Nat) : Bool := (u.operands.getD i none).isSome

/-- `canExecute()`: every operand is supplied. -/
def canExecute (u : Uop) : Bool := u.operands.all Option.isSome

/-- `supplyOperand(reg, value)`: each missing operand read from `reg` gets
`value`. -/
def supplyOperand (u : Uop) (reg : Register) (value : RegisterValue) : Uop :=
  { u with
    operands := u.operandRegisters.zipWith
      (fun r o => if r = reg ∧ o.isNone then some value else o) u.operands }

end Uop

/-- The instruction behind every handle. -/
abbrev Uops := Nat → Uop

/-- A reservation-station entry: an instruction and the port allocated to it. -/
structure Entry where
  uop : Nat
  port : Nat
deriving DecidableEq

/-- A call the unit makes on the port allocator. -/
inductive PortCall
  | allocate (group : Nat)
  | issued (port : Nat)
  | deallocate (port : Nat)
deriving DecidableEq

/-- `unsigned int` increment and decrement. -/
def uint32Succ (n : Nat) : Nat := (n + 1) % 2 ^ 32

def uint32Pred (n : Nat) : Nat := (n + (2 ^ 32 - 1)) % 2 ^ 32

/-- The state of the unit. The stall counters are left out: no modelled
function reads them. -/
structure DispatchIssueUnit where
  maxReservationStationSize : Nat
  scoreboard : Register → Bool := fun _ => true
  dependencyMatrix : Register → List Nat := fun _ => []
  reservationStation : List Entry := []
  readyCount : Nat := 0
  portCalls : List PortCall := []

namespace DispatchIssueUnit

/-! ## `tick` -/

section Tick

variable (regFile : Register → RegisterValue) (allocate : Nat → Nat)

/-- The register-read loop of `tick` for instruction `uop`, over its operand
indices and registers: an operand already supplied stays, one whose register
the scoreboard marks ready is read from the register file, and otherwise the
instruction waits on the register in the dependency matrix. -/
def readOperands (uop : Nat) (scoreboard : Register → Bool) :
    List (Nat × Register) → Uop × (Register → List Nat) × Bool → Uop × (Register → List Nat) × Bool
  | [], r => r
  | (i, reg) :: rest, (u, m, ready) =>
    if u.isOperandReady i then readOperands uop scoreboard rest (u, m, ready)
    else if scoreboard reg then
      readOperands uop scoreboard rest (u.supplyOperand reg (regFile reg), m, ready)
    else readOperands uop scoreboard rest (u, Function.update m reg (m reg ++ [uop]), false)

/-- One head slot's instruction entering the reservation station; `allocate`
gives the port the allocator returns for it (a `uint8_t`). -/
def dispatch (uop : Nat) (st : DispatchIssueUnit × Uops) : DispatchIssueUnit × Uops :=
  let (s, uops) := st
  let (u, m, ready) := readOperands regFile uop s.scoreboard (uops uop).operandRegisters.enum
    (uops uop, s.dependencyMatrix, true)
  ({ s with
      dependencyMatrix := m
      readyCount := if ready then uint32Succ s.readyCount else s.readyCount
      scoreboard := fun r => if r ∈ u.destinationRegisters then false else s.scoreboard r
      reservationStation := s.reservationStation ++ [⟨uop, allocate uop % 2 ^ 8⟩]
      portCalls := s.portCalls ++ [.allocate u.group] },
    Function.update uops uop u)

/-- `tick` over the head slots of the rename buffer, with the buffer's stall
flag: a full station stalls the buffer and ends the tick. -/
def tick : List (Option Nat) → Bool → DispatchIssueUnit × Uops →
    List (Option Nat) × Bool × DispatchIssueUnit × Uops
  | [], stall, st => ([], stall, st)
  | none :: rest, stall, st =>
    let r := tick rest stall st
    (none :: r.1, r.2)
  | some uop :: rest, _, st =>
    if st.1.reservationStation.length = st.1.maxReservationStationSize then
      (some uop :: rest, true, st)
    else
      let r := tick rest false (dispatch regFile allocate uop st)
      (none :: r.1, r.2)

end Tick

/-! ## `issue` -/

/-- The variables of `issue`'s loop: the station, the iterator's position,
the available ports, the number issued, the ready entries left to look at,
`readyCount`, the entries sent to their ports, and the allocator calls. -/
structure IssueState where
  rs : List Entry
  it : Nat
  available : List Bool
  issued : Nat
  readyRemaining : Nat
  readyCount : Nat
  out : List Entry
  calls : List PortCall

/-- The loop of `issue`, for at most `fuel` passes. A ready entry whose port
is not available decrements `readyRemaining` and leaves the iterator where it
is. -/
def issueLoop (uops : Uops) (maxIssue : Nat) : Nat → IssueState → IssueState
  | 0, st => st
  | fuel + 1, st =>
    match st.rs[st.it]? with
    | none => st
    | some entry =>
      if st.issued < maxIssue ∧ 0 < st.readyRemaining then
        if (uops entry.uop).canExecute then
          if !st.available.getD entry.port false then
            issueLoop uops maxIssue fuel { st with readyRemaining := st.readyRemaining - 1 }
          else
            issueLoop uops maxIssue fuel
              { st with
                out := st.out ++ [entry]
                available := st.available.set entry.port false
                calls := st.calls ++ [.issued entry.port]
                issued := st.issued + 1
                readyCount := uint32Pred st.readyCount
                readyRemaining := st.readyRemaining - 1
                rs := st.rs.eraseIdx st.it }
        else issueLoop uops maxIssue fuel { st with it := st.it + 1 }
      else st

/-- Each pass decrements `readyRemaining` or moves the iterator on, so
`readyCount` plus the station's size bounds the passes (`issueLoop_fuel`). -/
def issueFuel (s : DispatchIssueUnit) : Nat := s.readyCount + s.reservationStation.length

/-- `issue()`, with the stall flag of each issue port: the entries sent, in
order, and the unit after. -/
def issue (stalled : List Bool) (uops : Uops) (s : DispatchIssueUnit) :
    DispatchIssueUnit × List Entry :=
  let st := issueLoop uops stalled.length s.issueFuel
    { rs := s.reservationStation, it := 0, available := stalled.map (!·), issued := 0,
      readyRemaining := s.readyCount, readyCount := s.readyCount, out := [], calls := s.portCalls }
  ({ s with reservationStation := st.rs, readyCount := st.readyCount, portCalls := st.calls }, st.out)

/-! ## `forwardOperands`, `setRegisterReady` and `purgeFlushed` -/

/-- The supply loop of `forwardOperands` over the instructions waiting on
`reg`: each that can then execute adds one to `readyCount`. -/
def supplyDependents (reg : Register) (value : RegisterValue) :
    List Nat → Nat × Uops → Nat × Uops
  | [], r => r
  | uop :: rest, (readyCount, uops) =>
    let u := (uops uop).supplyOperand reg value
    supplyDependents reg value rest
      (if u.canExecute then uint32Succ readyCount else readyCount, Function.update uops uop u)

/-- The loop of `forwardOperands` over the results. -/
def forwardLoop : List (Register × RegisterValue) → DispatchIssueUnit × Uops →
    DispatchIssueUnit × Uops
  | [], st => st
  | (reg, value) :: rest, (s, uops) =>
    let r := supplyDependents reg value (s.dependencyMatrix reg) (s.readyCount, uops)
    forwardLoop rest
      ({ s with
          scoreboard := Function.update s.scoreboard reg true
          readyCount := r.1
          dependencyMatrix := Function.update s.dependencyMatrix reg [] }, r.2)

/-- `forwardOperands(registers, values)`. -/
def forwardOperands (registers : List Register) (values : List RegisterValue)
    (st : DispatchIssueUnit × Uops) : Except String (DispatchIssueUnit × Uops) :=
  if registers.length = values.length then .ok (forwardLoop (registers.zip values) st)
  else .error "Mismatched register and value vector sizes"

/-- `setRegisterReady(reg)`. -/
def setRegisterReady (reg : Register) (s : DispatchIssueUnit) : DispatchIssueUnit :=
  { s with scoreboard := Function.update s.scoreboard reg true }

/-- The loop of `purgeFlushed` over the station: a flushed entry leaves, its
port is deallocated, and `readyCount` drops if it could execute. -/
def purgeLoop (uops : Uops) : List Entry → Nat × List PortCall → List Entry × Nat × List PortCall
  | [], r => ([], r)
  | e :: rest, (readyCount, calls) =>
    if (uops e.uop).flushed then
      purgeLoop uops rest
        (if (uops e.uop).canExecute then uint32Pred readyCount else readyCount,
          calls ++ [.deallocate e.port])
    else
      let r := purgeLoop uops rest (readyCount, calls)
      (e :: r.1, r.2)

/-- `purgeFlushed()`. -/
def purgeFlushed (uops : Uops) (s : DispatchIssueUnit) : DispatchIssueUnit :=
  let r := purgeLoop uops s.reservationStation (s.readyCount, s.portCalls)
  { s with reservationStation := r.1, readyCount := r.2.1, portCalls := r.2.2 }

/-! ## Runs -/

/-- What happens to the unit: its own four calls, `setRegisterReady`, and
another unit marking an instruction flushed. -/
inductive Event
  | tick (slots : List (Option Nat)) (regFile : Register → RegisterValue) (allocate : Nat → Nat)
  | issue (stalled : List Bool)
  | forwardOperands (registers : List Register) (values : List RegisterValue)
  | setRegisterReady (reg : Register)
  | purgeFlushed
  | flush (uop : Nat)

/-- One event; the rename buffer and the issue ports are outside the state. -/
def step (st : DispatchIssueUnit × Uops) : Event → Except String (DispatchIssueUnit × Uops)
  | .tick slots regFile allocate => .ok (tick regFile allocate slots false st).2.2
  | .issue stalled => .ok ((issue stalled st.2 st.1).1, st.2)
  | .forwardOperands registers values => forwardOperands registers values st
  | .setRegisterReady reg => .ok (st.1.setRegisterReady reg, st.2)
  | .purgeFlushed => .ok (st.1.purgeFlushed st.2, st.2)
  | .flush uop => .ok (st.1, Function.update st.2 uop { st.2 uop with flushed := true })

/-- A run: the events in order, stopping at a failed assertion. -/
def run (st : DispatchIssueUnit × Uops) : List Event → Except String (DispatchIssueUnit × Uops)
  | [] => .ok st
  | e :: rest => (step st e).bind fun st' => run st' rest

/-- The entries of the station whose instruction can execute: what
`readyCount` is meant to count. -/
def readyEntries (st : DispatchIssueUnit × Uops) : Nat :=
  (st.1.reservationStation.filter fun e => (st.2 e.uop).canExecute).length

/-! ## A ready entry behind a busy port blocks the station -/

section Issue

variable {uops : Uops} {maxIssue : Nat}

/-- On a ready entry whose port is not available the loop only counts
`readyRemaining` down: with enough passes it ends there, having changed
nothing else. -/
theorem issueLoop_spin {st : IssueState} {e : Entry} (he : st.rs[st.it]? = some e)
    (hx : (uops e.uop).canExecute = true) (hp : st.available.getD e.port false = false)
    (hi : st.issued < maxIssue) {fuel : Nat} (hf : st.readyRemaining ≤ fuel) :
    issueLoop uops maxIssue fuel st = { st with readyRemaining := 0 } := by
  induction fuel generalizing st with
  | zero =>
    obtain ⟨rs, it, av, iss, rr, rc, out, calls⟩ := st
    obtain rfl : rr = 0 := Nat.le_zero.1 hf
    rfl
  | succ fuel ih =>
    rcases Nat.eq_zero_or_pos st.readyRemaining with h0 | h0
    · obtain ⟨rs, it, av, iss, rr, rc, out, calls⟩ := st
      obtain rfl : rr = 0 := h0
      simp only [issueLoop, he]
      simp
    · rw [issueLoop, he]
      simp only [hi, h0, and_self, if_true, hx, hp, Bool.not_false]
      exact ih he hp hi (by simp; omega)

/-- Entries that cannot execute are stepped over, one pass each. -/
theorem issueLoop_skip {st : IssueState} {pre rest : List Entry} (hpre : st.rs.drop st.it = pre ++ rest)
    (hx : ∀ e ∈ pre, (uops e.uop).canExecute = false) (hi : st.issued < maxIssue)
    (hr : 0 < st.readyRemaining) (fuel : Nat) :
    issueLoop uops maxIssue (pre.length + fuel) st =
      issueLoop uops maxIssue fuel { st with it := st.it + pre.length } := by
  induction pre generalizing st with
  | nil => simp
  | cons e pre ih =>
    have he : st.rs[st.it]? = some e := by rw [← List.head?_drop, hpre]; rfl
    have hnext : st.rs.drop (st.it + 1) = pre ++ rest := by rw [← List.tail_drop, hpre]; rfl
    rw [List.length_cons, Nat.add_right_comm, issueLoop, he]
    simp only [hi, hr, and_self, if_true, hx e (List.mem_cons_self _ _), Bool.false_eq_true,
      if_false]
    rw [@ih { st with it := st.it + 1 } hnext (fun x hx' => hx x (List.mem_cons_of_mem _ hx')) hi hr]
    simp only [Nat.add_assoc, Nat.add_comm 1]

/-- The loop ends by its own condition within `readyRemaining` passes plus
the entries left: more fuel changes nothing. -/
theorem issueLoop_fuel {st : IssueState} {f₁ f₂ : Nat}
    (h₁ : st.readyRemaining + (st.rs.length - st.it) ≤ f₁)
    (h₂ : st.readyRemaining + (st.rs.length - st.it) ≤ f₂) :
    issueLoop uops maxIssue f₁ st = issueLoop uops maxIssue f₂ st := by
  induction f₁ generalizing f₂ st with
  | zero =>
    have hnone : st.rs[st.it]? = none := List.getElem?_eq_none (by omega)
    cases f₂ <;> simp [issueLoop, hnone]
  | succ f₁ ih =>
    rcases Nat.lt_or_ge st.it st.rs.length with hit | hit
    case inr =>
      have hnone : st.rs[st.it]? = none := List.getElem?_eq_none hit
      cases f₂ <;> simp [issueLoop, hnone]
    obtain ⟨f₂, rfl⟩ := Nat.exists_eq_succ_of_ne_zero (by omega : f₂ ≠ 0)
    simp only [issueLoop, List.getElem?_eq_getElem hit]
    split_ifs with hc hx hp
    · exact ih (by simp; omega) (by simp; omega)
    · exact ih (by simp [List.length_eraseIdx, hit]; omega) (by simp [List.length_eraseIdx, hit]; omega)
    · exact ih (by simp; omega) (by simp; omega)
    · rfl

/-- When the first entry of the station that can execute has its port
stalled, `issue` sends nothing and keeps the station and `readyCount`,
whatever entries follow it. -/
theorem issue_spins_on_busy_port {stalled : List Bool} {s : DispatchIssueUnit}
    {pre rest : List Entry} {e : Entry} (hrs : s.reservationStation = pre ++ e :: rest)
    (hpre : ∀ x ∈ pre, (uops x.uop).canExecute = false) (he : (uops e.uop).canExecute = true)
    (hbusy : stalled.getD e.port true = true) (hports : 0 < stalled.length) :
    (issue stalled uops s).2 = [] ∧ (issue stalled uops s).1.reservationStation = s.reservationStation ∧
      (issue stalled uops s).1.readyCount = s.readyCount := by
  have hp : (stalled.map (!·)).getD e.port false = false := by
    rw [List.getD_eq_getElem?_getD, List.getElem?_map]
    rw [List.getD_eq_getElem?_getD] at hbusy
    cases h : stalled[e.port]? <;> simp_all
  have hfuel : s.issueFuel = pre.length + (s.readyCount + (rest.length + 1)) := by
    simp only [issueFuel, hrs, List.length_append, List.length_cons]; omega
  have hat : s.reservationStation[pre.length]? = some e := by
    rw [hrs, List.getElem?_append_right (Nat.le_refl _), Nat.sub_self, List.getElem?_cons_zero]
  rcases Nat.eq_zero_or_pos s.readyCount with h0 | h0
  · -- nothing is ready: the loop stops at once
    obtain ⟨x, hx⟩ : ∃ x, s.reservationStation[0]? = some x := by
      cases pre <;> simp [hrs]
    have hfuel' : s.issueFuel = pre.length + s.readyCount + rest.length + 1 := by rw [hfuel]; omega
    simp [issue, hfuel', issueLoop, hx, h0]
  · simp only [issue, hfuel]
    rw [@issueLoop_skip _ _ _ pre (e :: rest) (by simpa using hrs) hpre hports (by simpa using h0),
      issueLoop_spin (by simpa using hat) he hp (by simpa using hports) (by simp)]
    simp

end Issue

/-- Two ready entries: the older for port 0, the younger for port 1. -/
def twoReady : DispatchIssueUnit :=
  { maxReservationStationSize := 2, reservationStation := [⟨0, 0⟩, ⟨1, 1⟩], readyCount := 2 }

/-- With port 0 stalled and port 1 free, `issue` sends nothing: the ready
entry for port 1 is blocked by the older ready entry for the stalled port. -/
theorem issue_blocks_younger_entry :
    (issue [true, false] (fun _ => {}) twoReady).2 = [] := by
  decide

/-- Register 5 of bank 0. -/
def r5 : Register := ⟨0, 5⟩

/-- Instruction 1 writes `r5` and instruction 0 reads it. -/
def producerConsumer : Uops := fun n =>
  if n = 0 then { operandRegisters := [r5], operands := [none] }
  else if n = 1 then { destinationRegisters := [r5] } else {}

/-- Both are dispatched, the reader is flushed and purged, and the writer's
result is forwarded. -/
def purgedConsumerRun : List Event :=
  [.tick [some 1, some 0] (fun _ => []) (fun _ => 0), .flush 0, .purgeFlushed,
    .forwardOperands [r5] [[7]]]

/-- After that run `readyCount` is 2, while one entry of the station can
execute: the purged reader stayed in the dependency matrix and was counted
when its operand arrived. -/
theorem readyCount_counts_purged_uop :
    (run ({ maxReservationStationSize := 4 }, producerConsumer) purgedConsumerRun).map
      (fun st => (st.1.readyCount, readyEntries st)) = .ok (2, 1) := by
  rfl

end DispatchIssueUnit

end SimEng.OutOfOrder
