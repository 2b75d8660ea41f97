import SimEng.Pipeline.DispatchIssueUnit

/-!
# SimEng — wake-ups that `purgeFlushed` misses or that never come

Two runs of `pipeline::DispatchIssueUnit` on one reservation station with one
port. Instruction 1 writes `r5`; instruction 0 reads it and waits in the
dependency matrix until instruction 1 forwards its result.

* With a forwarding latency of 2, instruction 0 moves to the timed wake-up
  list. It is flushed and `purgeFlushed` runs: that function only scans the
  ready queues and the dependency matrix, so the flushed instruction stays in
  `waitingInstructions_`, keeps its port and its place in the station, and two
  ticks later it is pushed onto the ready queue and issued
  (`purgeFlushed_misses_waiting_uop`).
* With a forwarding latency of -2, `forwardOperands` takes the timed branch
  (only -1 means "no forwarding"), with a due tick of `ticks_ - 2` modulo
  `2^64`. No tick matches it before the counter wraps: although the
  scoreboard marks `r5` ready, the operand stays unsupplied for every one of
  the next `2^64 - 2` ticks (`negative_latency_wakeUp_lost`).
-/

namespace SimEng.Pipeline.DispatchIssueUnit

/-! ## Idle ticks -/

/-- A wake-up loop with nothing due changes nothing. -/
theorem wakeUp_of_not_due {t : Nat} :
    ∀ {l : List (Nat × DependencyEntry × RegisterValue)} (st : DispatchIssueUnit × Uops),
      (∀ w ∈ l, w.1 ≠ t) → wakeUp t l st = (l, st)
  | [], _, _ => rfl
  | w :: rest, st, h => by
    simp only [wakeUp, if_neg (h w (List.mem_cons_self _ _)),
      wakeUp_of_not_due st fun w' hw' => h w' (List.mem_cons_of_mem _ hw')]

/-- A tick with an empty input, an empty no-forward list and no wake-up due
only advances the tick counter and clears the dispatch counters. -/
theorem tick_idle (regFile : Register → RegisterValue) (allocate : Nat → Nat)
    {s : DispatchIssueUnit} {uops : Uops} (hd : s.dependantInstructions = [])
    (hw : ∀ w ∈ s.waitingInstructions, w.1 ≠ (s.ticks + 1) % 2 ^ 64) :
    tick regFile allocate [] (s, uops) =
      .ok ([], false,
        { s with
          ticks := (s.ticks + 1) % 2 ^ 64
          dispatches := List.replicate s.dispatches.length 0 }, uops) := by
  simp only [tick]
  rw [wakeUp_of_not_due _ hw, hd]
  rfl

/-- An idle tick as an event. -/
def idleTick : Event := .tick [] (fun _ => []) (fun _ => 0)

/-- `k` idle ticks, while no wake-up falls due and the counter does not
wrap, only advance the tick counter. -/
theorem run_idleTicks {uops : Uops} :
    ∀ (k : Nat) {s : DispatchIssueUnit}, s.dependantInstructions = [] → s.ticks + k < 2 ^ 64 →
      (∀ w ∈ s.waitingInstructions, s.ticks + k < w.1) →
      ∃ s', run (s, uops) (List.replicate k idleTick) = .ok (s', uops) ∧
        s'.waitingInstructions = s.waitingInstructions ∧ s'.dependantInstructions = [] ∧
        s'.reservationStations = s.reservationStations ∧ s'.ticks = s.ticks + k
  | 0, s, hd, _, _ => ⟨s, rfl, rfl, hd, rfl, rfl⟩
  | k + 1, s, hd, ht, hw => by
    have hnext : (s.ticks + 1) % 2 ^ 64 = s.ticks + 1 := Nat.mod_eq_of_lt (by omega)
    have hstep := @tick_idle (fun _ => []) (fun _ => 0) _ uops hd
      (fun w hw' => by have := hw w hw'; omega)
    rw [hnext] at hstep
    obtain ⟨s', hrun, h₁, h₂, h₃, h₄⟩ := run_idleTicks k
      (s := { s with
        ticks := s.ticks + 1
        dispatches := List.replicate s.dispatches.length 0 }) hd (by simp only; omega)
      (fun w hw' => by have := hw w hw'; simp only; omega)
    refine ⟨s', ?_, h₁, h₂, h₃, by simp only at h₄; omega⟩
    simp only [List.replicate_succ, run, step, idleTick, hstep]
    exact hrun

/-! ## Two runs -/

/-- Register 5 of bank 0. -/
def r5 : Register := ⟨0, 5⟩

/-- Instruction 1 writes `r5` (result `[7]`); instruction 0 reads it. -/
def producerConsumer : Uops := fun n =>
  if n = 0 then { operandRegisters := [r5], operands := [none] }
  else if n = 1 then { destinationRegisters := [r5], results := [[7]] } else {}

/-- Eight registers in one bank, one station of four entries serving one
port, forwarding latencies on, four dispatches a cycle. -/
def onePort : DispatchIssueUnit := construct [8] [(0, 4)] true 4

/-- The constructor returns it. -/
example : create [8] [(0, 4)] true 4 = some onePort := rfl

/-- Both instructions are dispatched and instruction 1 issues; its result is
forwarded to instruction 0 with latency 2; instruction 0 is flushed and
purged. -/
def flushedWaiterRun : List Event :=
  [.tick [some 1, some 0] (fun _ => []) (fun _ => 0), .issue [false],
    .forwardOperands 1 (fun _ _ => 2), .flush 0, .purgeFlushed]

/-- After `purgeFlushed` the flushed instruction 0 is still in the timed
wake-up list, its port was never given back (the allocator saw two
allocations and one issue), and its station still counts it; two ticks later
it is pushed onto the ready queue, and `issue` sends it on port 0. -/
theorem purgeFlushed_misses_waiting_uop :
    (run (onePort, producerConsumer) flushedWaiterRun).map
        (fun st => (st.1.waitingInstructions.map (·.2.1.uop), (st.2 0).flushed, st.1.portCalls,
          st.1.reservationStations.map (·.currentSize))) =
      .ok ([0], true, [.allocate [], .allocate [], .issued 0], [1]) ∧
    ((run (onePort, producerConsumer) (flushedWaiterRun ++ [idleTick, idleTick])).bind
        fun st => (issue [false] st.1).map (·.2)) = .ok [(0, 0)] :=
  ⟨rfl, rfl⟩

/-- Both instructions are dispatched and instruction 1 issues; its result is
forwarded to instruction 0 with latency -2. -/
def lostWakeUpRun : List Event :=
  [.tick [some 1, some 0] (fun _ => []) (fun _ => 0), .issue [false],
    .forwardOperands 1 (fun _ _ => -2)]

/-- After that run the scoreboard marks `r5` ready, but instruction 0's
operand is unsupplied, and it stays so, with instruction 0 in no ready queue,
for each of the next `2^64 - 2` ticks. -/
theorem negative_latency_wakeUp_lost :
    ∃ st, run (onePort, producerConsumer) lostWakeUpRun = .ok st ∧ st.1.scoreboard r5 = true ∧
      ∀ k, k < 2 ^ 64 - 2 → ∃ st', run st (List.replicate k idleTick) = .ok st' ∧
        (st'.2 0).operands = [none] ∧ ∀ rs ∈ st'.1.reservationStations, ∀ p ∈ rs.ports, 0 ∉ p.ready := by
  have hfacts : (run (onePort, producerConsumer) lostWakeUpRun).map
      (fun st => (st.1.ticks, st.1.dependantInstructions, st.1.waitingInstructions.map Prod.fst,
        st.1.scoreboard r5, (st.2 0).operands, st.1.reservationStations.map (·.ports.map (·.ready)))) =
      .ok (1, [], [2 ^ 64 - 1], true, [none], [[[]]]) := rfl
  cases h : run (onePort, producerConsumer) lostWakeUpRun with
  | error e => simp [h, Except.map] at hfacts
  | ok st =>
    obtain ⟨s, uops⟩ := st
    simp only [h, Except.map, Except.ok.injEq, Prod.mk.injEq] at hfacts
    obtain ⟨ht, hd, hw, hr, ho, hq⟩ := hfacts
    refine ⟨_, rfl, hr, fun k hk => ?_⟩
    have hdue : ∀ w ∈ s.waitingInstructions, w.1 = 2 ^ 64 - 1 := fun w hw' => by
      have := List.mem_map_of_mem Prod.fst hw'
      rw [hw, List.mem_singleton] at this
      exact this
    obtain ⟨s', hrun, -, -, hrs, -⟩ := @run_idleTicks uops k _ hd (by omega)
      (fun w hw' => by rw [hdue w hw']; omega)
    refine ⟨_, hrun, ho, fun rs hrs' p hp h0 => ?_⟩
    rw [hrs] at hrs'
    have h₁ := List.mem_map_of_mem (fun rs : ReservationStation => rs.ports.map (·.ready)) hrs'
    have h₂ := List.mem_map_of_mem (fun p : ReservationStationPort => p.ready) hp
    rw [hq, List.mem_singleton] at h₁
    simp only at h₁ h₂
    rw [h₁, List.mem_singleton] at h₂
    rw [h₂] at h0
    exact List.not_mem_nil _ h0

end SimEng.Pipeline.DispatchIssueUnit
