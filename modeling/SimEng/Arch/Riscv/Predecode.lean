import SimEng.Arch.Riscv.Architecture

/-!
# SimEng — the RISC-V decode cache

`riscv::Architecture::predecode` (Architecture.cc) turns the bytes at an
instruction address into one micro-op. A misaligned address gives an
instruction that raises `MisalignedPC` and consumes one byte. Otherwise the
first four bytes are read as a `uint32_t` word, which keys `decodeCache`: on a
miss, capstone disassembles the bytes, an `Instruction` is built from the
result and given the execution information `getExecutionInfo` finds for it,
and it is cached; the micro-op is a copy of the cached instruction at the
requested address.

`decodeCache` is a static member: every `Architecture` object shares it, and
the destructor of any of them clears it. Capstone and the `Instruction`
constructor are not under `src/`; `decode`, a parameter of the model, is what
they make of a word: its group and opcode.

Main results:

* `predecode_step` — with a cache valid for an architecture, `predecode` by
  any architecture giving the same execution information returns what it
  returns without a cache, and keeps the cache valid;
* `decodeCache_transparent` — over every run of `predecode` calls and
  destructions from an empty cache by architectures that agree on their
  execution information, the outputs are those of `predecode` without a cache;
* `decodeCache_shared` — over every run by any architectures, each word is
  decoded by the first architecture that asks for it after the cache was last
  cleared, and every later call for it receives that decoding.
-/

namespace SimEng.Arch.Riscv

/-- What capstone and the `Instruction` constructor make of an instruction
word. -/
structure Decoding where
  group : Nat
  opcode : Nat
deriving DecidableEq, Repr

/-- A predecoded micro-op: the encoding its metadata was made from, whether it
raises `MisalignedPC`, the execution information `setExecutionInfo` gave it,
and its address. -/
structure Insn where
  encoding : Nat
  misalignedPC : Bool := false
  executionInfo : Option ExecutionInfo := none
  instructionAddress : Nat := 0
deriving DecidableEq, Repr

/-- `decodeCache`: from an instruction word to the cached instruction. -/
abbrev DecodeCache : Type := Nat → Option Insn

/-- The `uint32_t` that `memcpy` reads from the first four bytes, on a
little-endian host. -/
def wordOf (bytes : List UInt8) : Nat :=
  (bytes.getD 0 0).toNat + 2 ^ 8 * (bytes.getD 1 0).toNat + 2 ^ 16 * (bytes.getD 2 0).toNat +
    2 ^ 24 * (bytes.getD 3 0).toNat

/-- The micro-op of a misaligned address: metadata from one byte, and the
`MisalignedPC` exception. -/
def misaligned (bytes : List UInt8) (instructionAddress : Nat) : Insn :=
  { encoding := (bytes.headD 0).toNat, misalignedPC := true, instructionAddress := instructionAddress }

variable (decode : Nat → Decoding)

/-- The instruction a miss builds: `Instruction newInsn(*this, metadata)`,
then `setExecutionInfo(getExecutionInfo(newInsn))`. -/
def fresh (arch : Architecture) (word : Nat) : Insn :=
  { encoding := word, executionInfo := some (getExecutionInfo arch (decode word).group (decode word).opcode) }

/-- `predecode`: the bytes consumed, the micro-op, and the shared cache after
the call. -/
def predecode (arch : Architecture) (bytes : List UInt8) (instructionAddress : Nat)
    (cache : DecodeCache) : Except String (Nat × Insn × DecodeCache) :=
  if instructionAddress &&& 3 ≠ 0 then .ok (1, misaligned bytes instructionAddress, cache)
  else if bytes.length < 4 then .error "Fewer than 4 bytes supplied to RISC-V decoder"
  else
    let insn := wordOf bytes
    match cache insn with
    | some cached => .ok (4, { cached with instructionAddress := instructionAddress }, cache)
    | none =>
      let newInsn := fresh decode arch insn
      .ok (4, { newInsn with instructionAddress := instructionAddress },
        Function.update cache insn (some newInsn))

/-- Modelled from what a decode cache is for: `predecode` with every aligned
word decoded afresh. -/
def predecodeUncached (arch : Architecture) (bytes : List UInt8) (instructionAddress : Nat) :
    Except String (Nat × Insn) :=
  if instructionAddress &&& 3 ≠ 0 then .ok (1, misaligned bytes instructionAddress)
  else if bytes.length < 4 then .error "Fewer than 4 bytes supplied to RISC-V decoder"
  else .ok (4, { fresh decode arch (wordOf bytes) with instructionAddress := instructionAddress })

/-- What reaches the shared cache: a `predecode` call by some architecture, or
the destructor of one. -/
inductive Call
  | predecode (arch : Architecture) (bytes : List UInt8) (instructionAddress : Nat)
  | destroy

/-- A run of calls from a cache: the bytes consumed and the micro-op of each
`predecode`, in order; it stops at a failed assertion. -/
def run (cache : DecodeCache) : List Call → Except String (List (Nat × Insn))
  | [] => .ok []
  | .predecode arch bytes a :: rest =>
    (predecode decode arch bytes a cache).bind fun r => (run r.2.2 rest).map ((r.1, r.2.1) :: ·)
  | .destroy :: rest => run (fun _ => none) rest

/-- The same run with no cache. -/
def runUncached : List Call → Except String (List (Nat × Insn))
  | [] => .ok []
  | .predecode arch bytes a :: rest =>
    (predecodeUncached decode arch bytes a).bind fun r => (runUncached rest).map (r :: ·)
  | .destroy :: rest => runUncached rest

/-- Every cached instruction is the fresh decoding of its word by `arch`. -/
def Valid (arch : Architecture) (cache : DecodeCache) : Prop :=
  ∀ w i, cache w = some i → i = fresh decode arch w

variable {decode}

theorem valid_empty (arch : Architecture) : Valid decode arch fun _ => none :=
  fun _ _ h => Option.noConfusion h

theorem fresh_congr {arch arch' : Architecture} (h : getExecutionInfo arch' = getExecutionInfo arch)
    (w : Nat) : fresh decode arch' w = fresh decode arch w := by
  simp only [fresh, h]

/-- **One call.** With a cache valid for `arch`, `predecode` by an
architecture giving the execution information of `arch` returns what it
returns without the cache, and leaves the cache valid. -/
theorem predecode_step {arch arch' : Architecture} {cache : DecodeCache} (hv : Valid decode arch cache)
    (ha : getExecutionInfo arch' = getExecutionInfo arch) (bytes : List UInt8) (a : Nat) :
    (predecode decode arch' bytes a cache).map (fun r => (r.1, r.2.1)) =
      predecodeUncached decode arch' bytes a ∧
    ∀ r, predecode decode arch' bytes a cache = .ok r → Valid decode arch r.2.2 := by
  unfold predecode predecodeUncached
  split
  · exact ⟨rfl, fun r h => by cases h; exact hv⟩
  · split
    · exact ⟨rfl, fun r h => by cases h⟩
    · dsimp only
      split
      · rename_i cached hc
        refine ⟨?_, fun r h => by cases h; exact hv⟩
        rw [hv _ _ hc, fresh_congr ha]
        rfl
      · refine ⟨rfl, fun r h => ?_⟩
        cases h
        intro w i hw
        dsimp only at hw
        rw [Function.update_apply] at hw
        split at hw
        · cases hw
          subst w
          exact fresh_congr ha _
        · exact hv w i hw

/-- **The decode cache is transparent.** Over every run of `predecode` calls
and destructions from an empty cache, made by architectures that all give the
same execution information, the bytes consumed and the micro-ops are those of
`predecode` without a cache, assertion failures included. -/
theorem decodeCache_transparent {arch : Architecture} {calls : List Call}
    (hagree : ∀ A bytes a, Call.predecode A bytes a ∈ calls → getExecutionInfo A = getExecutionInfo arch) :
    run decode (fun _ => none) calls = runUncached decode calls := by
  suffices ∀ cache, Valid decode arch cache → run decode cache calls = runUncached decode calls from
    this _ (valid_empty arch)
  induction calls with
  | nil => exact fun _ _ => rfl
  | cons c rest ih =>
    have hrest := ih fun A bytes a h => hagree A bytes a (List.mem_cons_of_mem _ h)
    intro cache hv
    cases c with
    | destroy => exact hrest _ (valid_empty arch)
    | predecode A bytes a =>
      obtain ⟨hmap, hvalid⟩ := predecode_step hv (hagree A bytes a (List.mem_cons_self _ _)) bytes a
      simp only [run, runUncached, ← hmap]
      cases hp : predecode decode A bytes a cache with
      | error e => rfl
      | ok r =>
        simp only [Except.bind, Except.map]
        rw [hrest _ (hvalid r hp)]

/-- Execution information 1 cycle, throughput 1, for every group. -/
def oneCycle : Architecture := ⟨fun _ => ⟨1, 1, []⟩, fun _ => none⟩

/-- One word decoded twice by one architecture: the second call hits the
cache. -/
def twiceRun : List Call :=
  [.predecode oneCycle [0x13, 0, 0, 0] 0, .predecode oneCycle [0x13, 0, 0, 0] 4]

theorem twiceRun_transparent :
    (∀ A bytes a, Call.predecode A bytes a ∈ twiceRun → getExecutionInfo A = getExecutionInfo oneCycle) ∧
    run (fun _ => ⟨0, 0⟩) (fun _ => none) twiceRun = runUncached (fun _ => ⟨0, 0⟩) twiceRun :=
  have hagree : ∀ A bytes a, Call.predecode A bytes a ∈ twiceRun →
      getExecutionInfo A = getExecutionInfo oneCycle := fun A bytes a h => by
    simp only [twiceRun, List.mem_cons, Call.predecode.injEq, List.mem_singleton,
      List.not_mem_nil, or_false] at h
    rcases h with ⟨rfl, -, -⟩ | ⟨rfl, -, -⟩ <;> rfl
  ⟨hagree, decodeCache_transparent hagree⟩

/-! ## Architectures that do not agree -/

variable (decode) in
/-- Modelled from what sharing the cache means: each word is decoded by the
first architecture that asks for it after the cache was last cleared, its
`owner`, and every call for the word, by any architecture, receives that
decoding. -/
def runFirstDecoder (owner : Nat → Option Architecture) : List Call → Except String (List (Nat × Insn))
  | [] => .ok []
  | .predecode arch bytes a :: rest =>
    if a &&& 3 ≠ 0 then (runFirstDecoder owner rest).map ((1, misaligned bytes a) :: ·)
    else if bytes.length < 4 then .error "Fewer than 4 bytes supplied to RISC-V decoder"
    else
      let decoder := (owner (wordOf bytes)).getD arch
      (runFirstDecoder (Function.update owner (wordOf bytes) (some decoder)) rest).map
        ((4, { fresh decode decoder (wordOf bytes) with instructionAddress := a }) :: ·)
  | .destroy :: rest => runFirstDecoder (fun _ => none) rest

variable (decode) in
/-- The cache holds each word's decoding by its owner. -/
def Owned (owner : Nat → Option Architecture) (cache : DecodeCache) : Prop :=
  ∀ w, cache w = (owner w).map fun arch => fresh decode arch w

/-- **The cache is shared.** Over every run of `predecode` calls and
destructions from an empty cache, by any architectures, the bytes consumed and
the micro-ops are those of decoding each word with the architecture that first
asked for it since the cache was last cleared, whatever the architecture
asking, assertion failures included. -/
theorem decodeCache_shared (calls : List Call) :
    run decode (fun _ => none) calls = runFirstDecoder decode (fun _ => none) calls := by
  suffices ∀ owner cache, Owned decode owner cache →
      run decode cache calls = runFirstDecoder decode owner calls from
    this _ _ fun _ => rfl
  induction calls with
  | nil => exact fun _ _ _ => rfl
  | cons c rest ih =>
    intro owner cache ho
    cases c with
    | destroy => exact ih _ _ fun _ => rfl
    | predecode A bytes a =>
      simp only [run, runFirstDecoder, predecode]
      split
      · simp only [Except.bind, ih owner cache ho]
      · split
        · rfl
        · rw [ho (wordOf bytes)]
          cases hw : owner (wordOf bytes) with
          | some O =>
            have hu : Function.update owner (wordOf bytes) (some O) = owner :=
              Function.update_eq_self_iff.2 hw.symm
            simp only [Option.map_some', Option.getD_some, Except.bind, hu, ih owner cache ho]
          | none =>
            simp only [Option.map_none', Option.getD_none, Except.bind]
            rw [ih _ _ fun w => ?_]
            by_cases h : w = wordOf bytes
            · subst h; simp
            · simp [Function.update_noteq h, ho w]

/-- A configuration giving group 0 the latency `latency`. -/
def groupZeroLatency (latency : Nat) : Config where
  latencies := [{ executionLatency := latency, executionThroughput := 1, instructionGroup := [0] }]
  simulationMode := "emulation"
  ports := []

/-- One word, decoded by an architecture configured with latency 1 and then by
one configured with latency 5. -/
def sharedRun (fast slow : Architecture) : List Call :=
  [.predecode fast [0x13, 0, 0, 0] 0, .predecode slow [0x13, 0, 0, 0] 4]

/-- Two architectures configured with latencies 1 and 5 for group 0: the
second receives the first's decoding of a word the first decoded, whereas
without the cache it would decode latency 5. -/
example : ∃ fast slow, create (fun _ => []) 2 (groupZeroLatency 1) = some fast ∧
    create (fun _ => []) 2 (groupZeroLatency 5) = some slow ∧
    run (fun _ => ⟨0, 0⟩) (fun _ => none) (sharedRun fast slow) =
      .ok [(4, { encoding := 0x13, executionInfo := some ⟨1, 1, []⟩, instructionAddress := 0 }),
        (4, { encoding := 0x13, executionInfo := some ⟨1, 1, []⟩, instructionAddress := 4 })] ∧
    runUncached (fun _ => ⟨0, 0⟩) (sharedRun fast slow) =
      .ok [(4, { encoding := 0x13, executionInfo := some ⟨1, 1, []⟩, instructionAddress := 0 }),
        (4, { encoding := 0x13, executionInfo := some ⟨5, 1, []⟩, instructionAddress := 4 })] :=
  ⟨_, _, rfl, rfl, rfl, rfl⟩

end SimEng.Arch.Riscv
