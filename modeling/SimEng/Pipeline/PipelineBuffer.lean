import Mathlib.Data.List.Basic

/-!
# SimEng — the pipeline buffer

`pipeline::PipelineBuffer` (PipelineBuffer.hh) carries values from one
pipeline unit to the next. It holds `width * length` slots in one vector,
`length = 2` rows, and a flag `headIsStart`: `getTailSlots` points at the row
the flag selects, which the producing unit writes, and `getHeadSlots` at the
other, which the consuming unit reads. `tick` flips the flag unless the buffer
is stalled, so the row just written becomes the head, and the row just read
comes back as the tail with whatever the consumer left in it.

The vector is a list whose length a field of the structure fixes; the pointer
arithmetic of the two getters is an offset into it, and a write through a
returned pointer is `setTailSlot` or `setHeadSlot`. Over this, `Latch` says
what the buffer is for: a tail row and a head row that `tick` swaps.

Main results:

* `view_setTailSlot`, `view_setHeadSlot`, `view_tick`, `view_fill` — the
  buffer refines the latch: each operation on the buffer is the latch's
  operation on its two rows;
* `head_after_cycle` — a value written to a tail slot in a cycle, and not
  overwritten later in it, is in the same head slot after the cycle's tick,
  when the buffer is not stalled then;
* `isEmpty_fill` — filled with its empty value, the buffer is empty.
-/

namespace SimEng.Pipeline

/-- `PipelineBuffer::length`: the number of rows. -/
def PipelineBuffer.length : Nat := 2

/-- A `PipelineBuffer`: the slot vector, the flag selecting the tail row, the
stall flag, and the value that marks an empty slot. `width` is an
`unsigned short` in the source; no modelled operation overflows it. -/
structure PipelineBuffer (α : Type) where
  width : Nat
  buffer : List α
  headIsStart : Bool := false
  isStalled : Bool := false
  emptyVal : α
  length_buffer : buffer.length = width * PipelineBuffer.length

/-- What a pipeline buffer is for: the head row the consumer reads, the tail
row the producer writes, and whether the next tick holds them in place. -/
structure Latch (α : Type) where
  head : List α
  tail : List α
  stalled : Bool

namespace Latch

variable {α : Type} (l : Latch α)

/-- The tail row moves to the head, and the head row comes back as the tail. -/
def tick : Latch α := if l.stalled then l else ⟨l.tail, l.head, l.stalled⟩

def setTail (i : Nat) (value : α) : Latch α := { l with tail := l.tail.set i value }

def setHead (i : Nat) (value : α) : Latch α := { l with head := l.head.set i value }

def stall (stalled : Bool) : Latch α := { l with stalled := stalled }

end Latch

namespace PipelineBuffer

variable {α : Type}

/-- The constructor: every slot holds `initialValue`, which also marks an
empty slot. -/
def create (width : Nat) (initialValue : α) : PipelineBuffer α where
  width := width
  buffer := List.replicate (width * length) initialValue
  emptyVal := initialValue
  length_buffer := List.length_replicate _ _

variable (b : PipelineBuffer α)

/-- The offset of `getTailSlots()`: `headIsStart * width`. -/
def tailOffset : Nat := b.headIsStart.toNat * b.width

/-- The offset of `getHeadSlots()`: `!headIsStart * width`. -/
def headOffset : Nat := (!b.headIsStart).toNat * b.width

/-- The `width` slots `getTailSlots()` points at. -/
def getTailSlots : List α := (b.buffer.drop b.tailOffset).take b.width

/-- The `width` slots `getHeadSlots()` points at. -/
def getHeadSlots : List α := (b.buffer.drop b.headOffset).take b.width

/-- `getTailSlots()[i] = value`. -/
def setTailSlot (i : Nat) (value : α) : PipelineBuffer α :=
  { b with
    buffer := b.buffer.set (b.tailOffset + i) value
    length_buffer := by rw [List.length_set, b.length_buffer] }

/-- `getHeadSlots()[i] = value`: how a consumer wipes a slot it has read. -/
def setHeadSlot (i : Nat) (value : α) : PipelineBuffer α :=
  { b with
    buffer := b.buffer.set (b.headOffset + i) value
    length_buffer := by rw [List.length_set, b.length_buffer] }

/-- `tick`: flip the rows, or do nothing if stalled. -/
def tick : PipelineBuffer α := if b.isStalled then b else { b with headIsStart := !b.headIsStart }

/-- `stall(stalled)`. -/
def stall (stalled : Bool) : PipelineBuffer α := { b with isStalled := stalled }

/-- `fill(value)`: every slot of both rows. -/
def fill (value : α) : PipelineBuffer α :=
  { b with
    buffer := b.buffer.map fun _ => value
    length_buffer := by rw [List.length_map, b.length_buffer] }

/-- `isEmpty`: no slot differs from the empty value. -/
def isEmpty [BEq α] : Bool := b.buffer.all fun i => !(i != b.emptyVal)

/-- The latch a buffer implements. -/
def view : Latch α := ⟨b.getHeadSlots, b.getTailSlots, b.isStalled⟩

/-! ## The two rows -/

/-- A window of `w` slots from `o` does not see a write outside it. -/
theorem window_set_of_disjoint {l : List α} {o w k : Nat} {v : α} (hk : k < o ∨ o + w ≤ k) :
    ((l.set k v).drop o).take w = (l.drop o).take w :=
  List.ext_getElem? fun j => by
    rw [List.getElem?_take, List.getElem?_take]
    split
    · rw [List.getElem?_drop, List.getElem?_drop, List.getElem?_set_ne (by omega)]
    · rfl

/-- A window of `w` slots from `o` sees a write to its slot `i`. -/
theorem window_set_self {l : List α} {o w i : Nat} {v : α} :
    ((l.set (o + i) v).drop o).take w = ((l.drop o).take w).set i v := by
  rw [← List.set_drop, List.set_take]

/-- The tail row and the head row are the two rows of the vector. -/
theorem offsets : (b.tailOffset = 0 ∧ b.headOffset = b.width) ∨
    (b.tailOffset = b.width ∧ b.headOffset = 0) := by
  unfold tailOffset headOffset
  cases b.headIsStart <;> simp

theorem length_getTailSlots : b.getTailSlots.length = b.width := by
  have := b.length_buffer
  rcases b.offsets with ⟨h, -⟩ | ⟨h, -⟩ <;>
    simp only [getTailSlots, h, List.length_take, List.length_drop, length] at * <;> omega

/-! ## The buffer refines the latch -/

theorem view_setTailSlot {i : Nat} (hi : i < b.width) (value : α) :
    (b.setTailSlot i value).view = b.view.setTail i value := by
  have hd : b.tailOffset + i < b.headOffset ∨ b.headOffset + b.width ≤ b.tailOffset + i := by
    rcases b.offsets with ⟨h₁, h₂⟩ | ⟨h₁, h₂⟩ <;> omega
  exact congrArg₂ (Latch.mk · · b.isStalled) (window_set_of_disjoint hd) window_set_self

theorem view_setHeadSlot {i : Nat} (hi : i < b.width) (value : α) :
    (b.setHeadSlot i value).view = b.view.setHead i value := by
  have hd : b.headOffset + i < b.tailOffset ∨ b.tailOffset + b.width ≤ b.headOffset + i := by
    rcases b.offsets with ⟨h₁, h₂⟩ | ⟨h₁, h₂⟩ <;> omega
  exact congrArg₂ (Latch.mk · · b.isStalled) window_set_self (window_set_of_disjoint hd)

theorem view_tick : b.tick.view = b.view.tick := by
  cases h : b.isStalled
  · simp only [tick, Latch.tick, view, h, getTailSlots, getHeadSlots, tailOffset, headOffset,
      Bool.not_not, Bool.false_eq_true, if_false]
  · simp only [tick, Latch.tick, view, h, if_true]

theorem view_stall (stalled : Bool) : (b.stall stalled).view = b.view.stall stalled := rfl

/-- `fill(value)` puts `value` in every slot of both rows. -/
theorem view_fill (value : α) :
    (b.fill value).view = ⟨List.replicate b.width value, List.replicate b.width value, b.isStalled⟩ := by
  have hrow : ∀ o, o ≤ b.width →
      ((b.buffer.map fun _ => value).drop o).take b.width = List.replicate b.width value := by
    intro o ho
    rw [List.map_const', List.drop_replicate, List.take_replicate, b.length_buffer, length]
    congr 1
    omega
  rcases b.offsets with ⟨h₁, h₂⟩ | ⟨h₁, h₂⟩ <;>
    exact congrArg₂ (Latch.mk · · b.isStalled) (hrow b.headOffset (by omega)) (hrow b.tailOffset (by omega))

/-- Filled with its empty value, as `handleException` fills each buffer, the
buffer is empty. -/
theorem isEmpty_fill [BEq α] [LawfulBEq α] : (b.fill b.emptyVal).isEmpty = true := by
  simp [isEmpty, fill]

/-! ## A cycle -/

/-- What a unit does to a buffer within a cycle. -/
inductive Access (α : Type)
  | setTailSlot (i : Nat) (value : α)
  | setHeadSlot (i : Nat) (value : α)
  | stall (stalled : Bool)

namespace Access

def apply : Access α → PipelineBuffer α → PipelineBuffer α
  | .setTailSlot i v, b => b.setTailSlot i v
  | .setHeadSlot i v, b => b.setHeadSlot i v
  | .stall s, b => b.stall s

/-- The access on the latch. -/
def applyLatch : Access α → Latch α → Latch α
  | .setTailSlot i v, l => l.setTail i v
  | .setHeadSlot i v, l => l.setHead i v
  | .stall s, l => l.stall s

/-- The slot an access writes is within a row of `width` slots. -/
def InRange (width : Nat) : Access α → Prop
  | .setTailSlot i _ => i < width
  | .setHeadSlot i _ => i < width
  | .stall _ => True

theorem width_apply (a : Access α) (b : PipelineBuffer α) : (a.apply b).width = b.width := by
  cases a <;> rfl

theorem view_apply {a : Access α} {b : PipelineBuffer α} (h : a.InRange b.width) :
    (a.apply b).view = a.applyLatch b.view := by
  cases a with
  | setTailSlot i v => exact view_setTailSlot b h v
  | setHeadSlot i v => exact view_setHeadSlot b h v
  | stall s => rfl

end Access

/-- The units' accesses of one cycle, in order. -/
def accessAll (accesses : List (Access α)) (b : PipelineBuffer α) : PipelineBuffer α :=
  accesses.foldl (fun b a => a.apply b) b

/-- One cycle: the units' accesses, then `tick`. -/
def cycle (accesses : List (Access α)) (b : PipelineBuffer α) : PipelineBuffer α :=
  (accessAll accesses b).tick

/-- Accesses in range that do not write tail slot `i` keep it. -/
theorem tail_accessAll {i : Nat} (hi : i < b.width) {accesses : List (Access α)}
    (hr : ∀ a ∈ accesses, a.InRange b.width) (hw : ∀ v, Access.setTailSlot i v ∉ accesses) :
    (accessAll accesses b).getTailSlots[i]? = b.getTailSlots[i]? := by
  induction accesses generalizing b with
  | nil => rfl
  | cons a rest ih =>
    have ha := hr a (List.mem_cons_self _ _)
    rw [accessAll, List.foldl_cons, ← accessAll,
      ih _ (by rwa [Access.width_apply]) (fun a' h => Access.width_apply a b ▸ hr a' (List.mem_cons_of_mem _ h))
        (fun v h => hw v (List.mem_cons_of_mem _ h))]
    change (a.apply b).view.tail[i]? = b.view.tail[i]?
    rw [Access.view_apply ha]
    cases a with
    | setTailSlot j v =>
      have hj : j ≠ i := fun h => hw v (h ▸ List.mem_cons_self _ _)
      exact List.getElem?_set_ne hj
    | setHeadSlot j v => rfl
    | stall s => rfl

theorem width_accessAll (accesses : List (Access α)) : (accessAll accesses b).width = b.width := by
  induction accesses generalizing b with
  | nil => rfl
  | cons a rest ih => exact (ih _).trans (Access.width_apply a b)

/-- **A value written to the tail is at the head after the tick.** Within a
cycle, a unit writes `value` to tail slot `i`; the accesses after it stay
within their rows and do not write that slot again. If the buffer is not
stalled at the tick, head slot `i` then holds `value`. -/
theorem head_after_cycle {pre post : List (Access α)} {i : Nat} {value : α}
    (hi : i < b.width) (hr : ∀ a ∈ post, a.InRange b.width)
    (hw : ∀ v, Access.setTailSlot i v ∉ post)
    (hs : (accessAll (pre ++ Access.setTailSlot i value :: post) b).isStalled = false) :
    (cycle (pre ++ Access.setTailSlot i value :: post) b).getHeadSlots[i]? = some value := by
  set b₁ := (accessAll pre b).setTailSlot i value
  have hw₁ : b₁.width = b.width := width_accessAll b pre
  have hall : accessAll (pre ++ Access.setTailSlot i value :: post) b = accessAll post b₁ := by
    simp only [accessAll, List.foldl_append, List.foldl_cons]
    rfl
  rw [hall] at hs
  rw [cycle, hall]
  have htail : b₁.getTailSlots[i]? = some value := by
    change ((accessAll pre b).setTailSlot i value).view.tail[i]? = _
    rw [view_setTailSlot _ (by rwa [width_accessAll]), Latch.setTail, List.getElem?_set_self]
    simpa [view, length_getTailSlots, width_accessAll] using hi
  change (accessAll post b₁).tick.view.head[i]? = _
  rw [view_tick, Latch.tick, if_neg (by simpa [view] using hs)]
  exact (tail_accessAll b₁ (hw₁ ▸ hi) (hw₁ ▸ hr) hw).trans htail

/-- The producer writes `7` to tail slot `1` of a two-slot buffer; the consumer
then wipes head slot `0`. -/
def passSeven : List (Access Nat) := [.setTailSlot 1 7, .setHeadSlot 0 0]

example : (cycle passSeven (create 2 0)).getHeadSlots = [0, 7] ∧
    (cycle passSeven (create 2 0)).getTailSlots = [0, 0] := ⟨rfl, rfl⟩

theorem passSeven_head :
    1 < (create 2 0).width ∧ (∀ a ∈ [Access.setHeadSlot 0 0], a.InRange (create 2 0).width) ∧
      (∀ v, Access.setTailSlot 1 v ∉ [Access.setHeadSlot 0 (0 : Nat)]) ∧
      (accessAll ([] ++ Access.setTailSlot 1 7 :: [Access.setHeadSlot 0 0]) (create 2 0)).isStalled = false ∧
      (cycle passSeven (create 2 0)).getHeadSlots[1]? = some 7 :=
  have hr : ∀ a ∈ [Access.setHeadSlot 0 0], a.InRange (create 2 0).width := by
    simp [Access.InRange, create]
  have hw : ∀ v, Access.setTailSlot 1 v ∉ [Access.setHeadSlot 0 (0 : Nat)] := by simp
  ⟨by decide, hr, hw, rfl, @head_after_cycle _ (create 2 0) [] _ 1 7 (by decide) hr hw rfl⟩

end PipelineBuffer

end SimEng.Pipeline
