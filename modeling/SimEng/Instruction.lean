import Mathlib.Logic.Function.Basic
import Mathlib.Algebra.Order.Ring.Nat
import Mathlib.Algebra.Group.Int

/-!
# SimEng — instructions as the pipeline units see them

The pipeline units share instructions through `std::shared_ptr<Instruction>`:
the reorder buffer, the load/store queue, the reservation stations and the
memory management unit all hold pointers to the same object, and a flag set by
one unit (`setFlushed`, `setCommitReady`) is seen by all the others. The model
keeps that sharing explicit:

* a handle on an instruction is its sequence id, which the reorder buffer
  assigns once and never reuses;
* a `Heap` gives the current contents of the instruction behind every handle,
  and the units read it through the handle, as the source reads through the
  pointer.

`Instruction` holds the fields that the modelled units read. Its flags that
other units write (`flushed`, `commitReady`, `exceptionEncountered`, the
generated addresses) change by updating the heap.
-/

namespace SimEng

/-- `memory::MemoryAccessTarget`: an access of `size` bytes at `vaddr`, a
`uint64_t` and a `uint16_t` in the source. -/
structure MemoryAccessTarget where
  vaddr : Nat
  size : Nat
  vaddr_lt : vaddr < 2 ^ 64
  size_lt : size < 2 ^ 16
deriving DecidableEq

/-- `Register`: a register bank and an index in it. -/
structure Register where
  type : Nat
  tag : Nat
deriving DecidableEq, Repr

/-- The bytes of a `RegisterValue`; `RegisterValue()` is the empty value. -/
abbrev RegisterValue := List UInt8

/-- The fields of an `Instruction` that the modelled units read. -/
structure Instruction where
  instructionId : Nat := 0
  microOpIndex : Nat := 0
  instructionAddress : Nat := 0
  isLoad : Bool := false
  isStore : Bool := false
  isStoreAddress : Bool := false
  isStoreData : Bool := false
  isStoreCond : Bool := false
  isLoadReserved : Bool := false
  lsqLatency : Nat := 0
  generatedAddresses : List MemoryAccessTarget := []
  destinationRegisters : List Register := []
  operandRegisters : List Register := []
  data : List RegisterValue := []
  flushed : Bool := false
  commitReady : Bool := false
  exceptionEncountered : Bool := false
  hasExecuted : Bool := false
  hasAllData : Bool := false
  condResultReady : Bool := false
deriving DecidableEq

instance : Inhabited Instruction := ⟨{}⟩

/-- The contents of every shared instruction object, by sequence id. -/
abbrev Heap := Nat → Instruction

/-- `Instruction::canCommit`. -/
def Instruction.canCommit (i : Instruction) : Bool := i.commitReady

/-- `insn->execute()` on the instruction behind handle `q`, as far as the
pipeline sees it: the instruction has executed. -/
def Heap.execute (heap : Heap) (q : Nat) : Heap :=
  Function.update heap q { heap q with hasExecuted := true }

theorem Heap.execute_apply (heap : Heap) (q r : Nat) :
    heap.execute q r = if r = q then { heap r with hasExecuted := true } else heap r := by
  unfold Heap.execute; rw [Function.update_apply]; split <;> simp_all

/-- `insn->setFlushed()` on the instruction behind handle `q`. -/
def Heap.setFlushed (heap : Heap) (q : Nat) : Heap :=
  Function.update heap q { heap q with flushed := true }

@[simp] theorem Heap.setFlushed_flushed (heap : Heap) (q r : Nat) :
    (heap.setFlushed q r).flushed = (decide (r = q) || (heap r).flushed) := by
  unfold Heap.setFlushed; rw [Function.update_apply]; split <;> simp_all

/-- Every field other than `flushed` is left alone by `setFlushed`. -/
theorem Heap.setFlushed_apply (heap : Heap) (q r : Nat) :
    heap.setFlushed q r = { heap r with flushed := (heap.setFlushed q r).flushed } := by
  unfold Heap.setFlushed; rw [Function.update_apply]; split <;> simp_all

@[simp] theorem Heap.setFlushed_generatedAddresses (heap : Heap) (q r : Nat) :
    (heap.setFlushed q r).generatedAddresses = (heap r).generatedAddresses := by
  rw [Heap.setFlushed_apply]

@[simp] theorem Heap.setFlushed_isLoad (heap : Heap) (q r : Nat) :
    (heap.setFlushed q r).isLoad = (heap r).isLoad := by
  rw [Heap.setFlushed_apply]

@[simp] theorem Heap.setFlushed_isStore (heap : Heap) (q r : Nat) :
    (heap.setFlushed q r).isStore = (heap r).isStore := by
  rw [Heap.setFlushed_apply]

@[simp] theorem Heap.setFlushed_destinationRegisters (heap : Heap) (q r : Nat) :
    (heap.setFlushed q r).destinationRegisters = (heap r).destinationRegisters := by
  rw [Heap.setFlushed_apply]

end SimEng
