import SimEng.Assertions
import SimEng.InOrder.Exceptions

/-!
# SimEng — the in-order core's status

`models::inorder::Core` (inorder/Core.cc) runs under a status that the
operating system drives: `schedule` starts the core `executing` on a context,
`interrupt` asks it to switch out (`switching`) unless an exception is
pending, and a switching core's `tick` makes it `idle` once its pipeline has
drained. Exceptions take their own path: `handleException` registers the
pending exception with the exception handler once its instruction is the next
to be written back, and `processException`, on this and every later tick,
waits for the memory system and the handler, then halts the core on a fatal
result or resumes it (idle after a syscall that asks so), and clears the
exception.

The model runs these functions on the `Core` of `InOrder/Core.lean`, with the
status and the exception handler's registration. What the pipeline units, the
memory management unit and the exception handler report in one tick is an
input (`Env`); `CoreStatus`, the handler and the fetch unit are not under
`src/`. The register file and `applyStateChange` are left out.

Main results:

* `Quiet` — a registered exception is pending, and an idle or halted core has
  neither a pending nor a registered exception;
* `step_quiet` / `run_quiet` — every tick, interrupt and schedule keeps it;
* `resting_core_quiet` — in every state a run from an idle core reaches, an
  idle or halted core reports the fetch unit's PC as its context's PC, and an
  interrupt of it succeeds.
-/

namespace SimEng.InOrder

/-- `CoreStatus`, as `Core.cc` uses it. -/
inductive CoreStatus
  | idle
  | executing
  | switching
  | halted
deriving DecidableEq, Repr

/-- What `exceptionHandler_->getResult()` gives once the handler is done. -/
structure ExceptionResult where
  fatal : Bool
  instructionAddress : Nat
  idleAfterSyscall : Bool
deriving DecidableEq, Repr

/-- What the rest of the core and the system report during one `tick`: the
units' work and flush requests (as in `Core.Cycle`), whether the buffers and
the stager are empty, `mmu_->hasPendingRequests()`, the exception handler's
`tick()` (`none` while it needs more ticks) and `staging_.getNextSeqID()`. -/
structure Env where
  execute : Heap × Pipeline.LoadStoreQueue → Heap × Pipeline.LoadStoreQueue
  written : List Nat
  requests : List FlushRequest
  decodeFlush : Option Nat
  pipelineEmpty : Bool
  pendingRequests : Bool
  handler : Option ExceptionResult
  nextSeqId : Nat

/-- A context `schedule` receives: the thread and where it resumes. -/
structure Context where
  TID : Nat
  pc : Nat

/-- The in-order core with its status, `exceptionRegistered_` and counters. -/
structure Machine where
  core : Core
  status : CoreStatus
  exceptionRegistered : Bool := false
  contextSwitches : Nat := 0
  ticks : Nat := 0
  idleTicks : Nat := 0
  procTicks : Nat := 0
  currentTID : Nat := 0

namespace Machine

/-- A core that the operating system has not scheduled yet. -/
def init (core : Core) : Machine := { core := core, status := .idle }

/-- The flush at the end of `handleException`: the units drop every
instruction in flight and the load/store queue purges them. Modelled from the
spec, as in `InOrder/Exceptions.lean`: every instruction is marked flushed. -/
def flushPipeline (c : Core) : Core :=
  let heap : Heap := fun q => { c.heap q with flushed := true }
  { c with heap := heap, lsq := c.lsq.purgeFlushed heap }

/-- `processException`: it waits while the memory system has requests pending
or the handler needs more ticks; then the core halts on a fatal result, or
resumes at the result's address, idle after a syscall that asks so; and the
exception is cleared. -/
def processException (env : Env) (m : Machine) : Except String Machine :=
  if m.exceptionRegistered = false then
    .error "[SimEng:Core] Attempted to process an exception which wasn't registered with the handler"
  else if env.pendingRequests then .ok m
  else
    match env.handler with
    | none => .ok m
    | some result =>
      let m : Machine :=
        if result.fatal then { m with status := .halted }
        else
          let m := { m with core := { m.core with pc := result.instructionAddress } }
          if result.idleAfterSyscall then { m with status := .idle, contextSwitches := m.contextSwitches + 1 }
          else m
      .ok { m with core := { m.core with exceptionGenerated := false }, exceptionRegistered := false }

/-- `handleException`: whether the exception was handled. It is, once its
instruction is the next to be written back: it is registered and processed,
and the pipeline is flushed. -/
def handleException (env : Env) (m : Machine) : Except String (Bool × Machine) :=
  match m.core.exceptionGeneratingInstruction with
  | none => .error "exceptionGeneratingInstruction_ is null"
  | some insn =>
    if env.nextSeqId < insn then .ok (false, m)
    else (processException env { m with exceptionRegistered := true }).map fun m =>
      (true, { m with core := flushPipeline m.core })

/-- The part of `tick` past the status switch: a registered exception is
processed and nothing else runs; otherwise the units run, then a pending
exception is handled or `flushIfNeeded` runs. -/
def execute (env : Env) (m : Machine) : Except String Machine :=
  let m := { m with procTicks := m.procTicks + 1 }
  if m.exceptionRegistered then processException env m
  else
    (Core.cycle ⟨env.execute, env.written, env.requests, env.decodeFlush, true⟩ m.core).bind fun core =>
      if core.exceptionGenerated then
        (handleException env { m with core := core }).map fun r =>
          if r.1 then r.2 else { r.2 with core := Core.flushIfNeeded env.requests env.decodeFlush core }
      else .ok { m with core := core }

/-- `tick`. A switching core whose pipeline has drained goes idle; the units'
flushes on the way (`flushLoopBuffer`, `purgeFlushed`, `flush`) are left out. -/
def tick (env : Env) (m : Machine) : Except String Machine :=
  let m := { m with ticks := m.ticks + 1 }
  match m.status with
  | .idle => .ok { m with idleTicks := m.idleTicks + 1 }
  | .switching =>
    if env.pipelineEmpty && !env.pendingRequests && !m.core.exceptionGenerated then
      .ok { m with status := .idle }
    else execute env m
  | .halted => .ok m
  | .executing => execute env m

/-- `interrupt`: whether the core starts switching out. -/
def interrupt (m : Machine) : Bool × Machine :=
  if m.core.exceptionGenerated = false then
    (true, { m with status := .switching, contextSwitches := m.contextSwitches + 1 })
  else (false, m)

/-- `schedule`. -/
def schedule (ctx : Context) (m : Machine) : Machine :=
  { m with currentTID := ctx.TID, core := { m.core with pc := ctx.pc }, status := .executing, procTicks := 0 }

/-- The PC of `getCurrentContext`: past the instruction of a pending
exception, or the fetch unit's PC (`fetchPc`, which the fetch unit advances as
it fetches). -/
def contextPc (fetchPc : Nat) (m : Machine) : Except String Nat :=
  if m.core.exceptionGenerated then
    match m.core.exceptionGeneratingInstruction with
    | some insn => .ok (((m.core.heap insn).instructionAddress + 4) % 2 ^ 64)
    | none => .error "exceptionGeneratingInstruction_ is null"
  else .ok fetchPc

/-- What the operating system and the simulation loop do to the core. -/
inductive Event
  | tick (env : Env)
  | interrupt
  | schedule (ctx : Context)

def step (m : Machine) : Event → Except String Machine
  | .tick env => m.tick env
  | .interrupt => .ok m.interrupt.2
  | .schedule ctx => .ok (m.schedule ctx)

/-- A run: the events in order, stopping at a failed assertion. -/
def run (m : Machine) : List Event → Except String Machine
  | [] => .ok m
  | e :: es => (m.step e).bind fun m => run m es

/-! ## The invariant -/

/-- A registered exception is pending, and a core at rest, idle or halted,
has neither a pending nor a registered exception. -/
structure Quiet (m : Machine) : Prop where
  registered : m.exceptionRegistered = true → m.core.exceptionGenerated = true
  resting : m.status = .idle ∨ m.status = .halted →
    m.core.exceptionGenerated = false ∧ m.exceptionRegistered = false

/-- A core that runs: its state is quiet as soon as a registered exception is
pending. -/
theorem Quiet.of_active {m : Machine} (hs : m.status = .executing ∨ m.status = .switching)
    (hr : m.exceptionRegistered = true → m.core.exceptionGenerated = true) : m.Quiet :=
  ⟨hr, fun h => by rcases hs with hs | hs <;> rcases h with h | h <;> rw [hs] at h <;> cases h⟩

/-- `processException` of a running core leaves it running with the
exception, or clears the exception, whatever the status it sets. -/
theorem processException_quiet {env : Env} {m m' : Machine}
    (hs : m.status = .executing ∨ m.status = .switching)
    (hr : m.exceptionRegistered = true → m.core.exceptionGenerated = true)
    (h : m.processException env = .ok m') : m'.Quiet := by
  unfold processException at h
  split at h
  · cases h
  · split at h
    · cases h; exact .of_active hs hr
    · split at h
      · cases h; exact .of_active hs hr
      · cases h
        exact ⟨fun h => Bool.noConfusion h, fun _ => ⟨rfl, rfl⟩⟩

theorem execute_quiet {env : Env} {m m' : Machine} (hs : m.status = .executing ∨ m.status = .switching)
    (hq : m.Quiet) (h : m.execute env = .ok m') : m'.Quiet := by
  unfold execute at h
  dsimp only at h
  split at h
  · exact processException_quiet (m := { m with procTicks := m.procTicks + 1 }) hs hq.registered h
  · rename_i hreg
    obtain ⟨core, -, h⟩ := bind_eq_ok.1 h
    split at h
    · rename_i hgen
      obtain ⟨⟨handled, m₁⟩, hh, rfl⟩ := map_eq_ok.1 h
      unfold handleException at hh
      split at hh
      · cases hh
      · split at hh
        · cases hh
          exact .of_active hs fun h => absurd h hreg
        · obtain ⟨m₂, hp, he⟩ := map_eq_ok.1 hh
          cases he
          have hq₂ := processException_quiet
            (m := { m with procTicks := m.procTicks + 1, core := core, exceptionRegistered := true })
            hs (fun _ => hgen) hp
          exact ⟨hq₂.registered, hq₂.resting⟩
    · cases h
      exact .of_active hs fun h => absurd h hreg

/-- **Every event keeps the core quiet.** -/
theorem step_quiet {m m' : Machine} {e : Event} (hq : m.Quiet) (h : m.step e = .ok m') : m'.Quiet := by
  cases e with
  | tick env =>
    unfold step tick at h
    dsimp only at h
    split at h
    · cases h; exact ⟨hq.registered, hq.resting⟩
    · rename_i hst
      split at h
      · rename_i hdrain
        cases h
        simp only [Bool.and_eq_true, Bool.not_eq_true'] at hdrain
        exact ⟨hq.registered, fun _ => ⟨hdrain.2, Bool.eq_false_iff.2 fun hr =>
          Bool.noConfusion ((hq.registered hr).symm.trans hdrain.2)⟩⟩
      · exact execute_quiet (m := { m with ticks := m.ticks + 1 }) (.inr hst)
          ⟨hq.registered, fun h => hq.resting (hst ▸ h)⟩ h
    · cases h; exact ⟨hq.registered, hq.resting⟩
    · rename_i hst
      exact execute_quiet (m := { m with ticks := m.ticks + 1 }) (.inl hst)
        ⟨hq.registered, fun h => hq.resting (hst ▸ h)⟩ h
  | interrupt =>
    cases h
    unfold interrupt
    split
    · exact .of_active (.inr rfl) hq.registered
    · exact hq
  | schedule ctx =>
    cases h
    exact .of_active (.inl rfl) hq.registered

theorem run_quiet {m m' : Machine} {events : List Event} (hq : m.Quiet) (h : m.run events = .ok m') :
    m'.Quiet := by
  induction events generalizing m with
  | nil => cases h; exact hq
  | cons e es ih =>
    obtain ⟨m₁, h₁, h⟩ := bind_eq_ok.1 h
    exact ih (step_quiet hq h₁) h

/-- **A core at rest is quiet.** In every state a run reaches from an idle
core with no pending exception, an idle or halted core has no pending and no
registered exception: the context it reports resumes at the fetch unit's PC,
and an interrupt of it succeeds. -/
theorem resting_core_quiet {core : Core} (h0 : core.exceptionGenerated = false) {events : List Event}
    {m : Machine} (h : (init core).run events = .ok m) (hr : m.status = .idle ∨ m.status = .halted) :
    m.core.exceptionGenerated = false ∧ m.exceptionRegistered = false ∧
      (∀ fetchPc, m.contextPc fetchPc = .ok fetchPc) ∧ m.interrupt.1 = true := by
  obtain ⟨hg, hreg⟩ := (run_quiet ⟨fun h => Bool.noConfusion h, fun _ => ⟨h0, rfl⟩⟩ h).resting hr
  refine ⟨hg, hreg, fun fetchPc => ?_, ?_⟩
  · simp [contextPc, hg]
  · simp [interrupt, hg]

/-! ## A syscall that idles the core -/

/-- Instruction 0 raises an exception when it is written back. -/
def syscallCore : Core :=
  { heap := fun q => if q = 0 then { exceptionEncountered := true } else {}
    lsq := Pipeline.LoadStoreQueue.combinedQueue 4 .INORDER }

/-- Writeback retires instruction 0; its exception is handled at once, and the
handler resumes at `0x100` with the core idle. -/
def syscallEnv : Env where
  execute := id
  written := [0]
  requests := []
  decodeFlush := none
  pipelineEmpty := false
  pendingRequests := false
  handler := some { fatal := false, instructionAddress := 0x100, idleAfterSyscall := true }
  nextSeqId := 0

def syscallRun : List Event := [.schedule ⟨1, 0⟩, .tick syscallEnv]

example : ∃ m, (init syscallCore).run syscallRun = .ok m ∧ m.status = .idle ∧ m.core.pc = 0x100 ∧
    m.contextSwitches = 1 := ⟨_, rfl, rfl, rfl, rfl⟩

theorem syscallRun_quiet : ∃ m, (init syscallCore).run syscallRun = .ok m ∧
    syscallCore.exceptionGenerated = false ∧ (m.status = .idle ∨ m.status = .halted) ∧
    m.core.exceptionGenerated = false ∧ m.exceptionRegistered = false ∧
    (∀ fetchPc, m.contextPc fetchPc = .ok fetchPc) ∧ m.interrupt.1 = true :=
  ⟨_, rfl, rfl, .inl rfl, resting_core_quiet rfl (show (init syscallCore).run syscallRun = _ from rfl) (.inl rfl)⟩

end Machine

end SimEng.InOrder
