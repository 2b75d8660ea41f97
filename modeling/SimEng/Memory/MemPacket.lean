import Mathlib.Data.Nat.Defs
import SimEng.Instruction

/-!
# SimEng — memory packets and their split on cache lines

`memory::MemPacket` (MemPacket.cc) carries one access between the memory
management unit and the memory behind its port. `MMU::createReadMemPackets`
and `MMU::createWriteMemPackets` (MMU.cc) cut one `MemoryAccessTarget` into
packets: one packet when the target lies in one cache line, and otherwise one
packet per cache line it touches, numbered by `packetSplitId_` and, for a
write, each with its slice of the data.

`MemPacket.hh` and `downAlign` are not under `src/`. The packet's fields
follow the spec (§3): the request and response bits of the type are left out,
since no modelled function reads them, and `downAlign` rounds down to a
multiple of the line width.

Main results:

* `sum_sizes_splitRegions` — the split sizes add up to the target's size;
* `splitIds_splitRegions` — the splits are numbered `0, 1, …` in order;
* `vaddr_head_splitRegions` — the first split starts at the target's address;
* `join_writeRequests` — a write's payloads, joined in split order, are its
  data.
-/

namespace SimEng.Memory

/-- A `MemPacket`: a read or a write of `size` bytes at `vaddr`, for the
address of index `packetOrderId` of instruction `insnSeqId`, split number
`packetSplitId`, with its flags. -/
structure MemPacket where
  vaddr : Nat
  paddr : Nat := 0
  size : Nat
  isRead : Bool
  insnSeqId : Nat
  packetOrderId : Nat
  packetSplitId : Nat := 0
  payload : List UInt8 := []
  isAtomic : Bool := false
  isInstrRead : Bool := false
  isUntimed : Bool := false
  isFaulty : Bool := false
  isIgnored : Bool := false
  hasFailed : Bool := false
deriving DecidableEq

namespace MemPacket

/-- `isWrite()`: a packet is a read or a write. -/
def isWrite (p : MemPacket) : Bool := !p.isRead

/-- `MemPacket::createReadRequest`. -/
def createReadRequest (vaddr size seqId pktOrderId : Nat) : MemPacket :=
  { vaddr := vaddr, size := size, isRead := true, insnSeqId := seqId, packetOrderId := pktOrderId }

/-- `MemPacket::createWriteRequest`. -/
def createWriteRequest (vaddr size seqId pktOrderId : Nat) (payload : List UInt8) : MemPacket :=
  { vaddr := vaddr, size := size, isRead := false, insnSeqId := seqId, packetOrderId := pktOrderId,
    payload := payload }

end MemPacket

open MemPacket

/-- Modelled from the spec: `downAlign(addr, width)`, `addr` rounded down to
a multiple of `width`. -/
def downAlign (addr width : Nat) : Nat := addr / width * width

/-- `MMU::isAligned`: whether the first and the last byte of `target` lie in
one cache line. The end address is a `uint64_t` sum. -/
def isAligned (cacheLineWidth : Nat) (target : MemoryAccessTarget) : Except String Bool :=
  if target.size = 0 then .error "[SimEng:MMU] Cannot have a memory target size of 0."
  else .ok (downAlign target.vaddr cacheLineWidth ==
    downAlign ((target.vaddr + target.size - 1) % 2 ^ 64) cacheLineWidth)

/-- With a line width of 0 every address rounds down to 0, so every target
is aligned: the split loop only runs for a positive width. -/
theorem pos_of_isAligned_false {w : Nat} {target : MemoryAccessTarget}
    (h : isAligned w target = .ok false) : 0 < w := by
  rcases Nat.eq_zero_or_pos w with rfl | hw
  · unfold isAligned at h; split at h <;> simp_all [downAlign]
  · exact hw

/-- The loop of the unaligned branch, from `nextAddr` with `remSize` bytes
left and split number `nextSplitId`: the address, size and split number of
each packet. A pass takes the rest of the current line, at least one byte for
a positive width; `fuel` bounds the passes, and `remSize` passes suffice. The
`uint64_t` difference lies in `1 … width` and the `uint16_t` casts keep their
values, which are at most `remSize`. -/
def splitRegions (width : Nat) : Nat → Nat → Nat → Nat → List (Nat × Nat × Nat)
  | 0, _, _, _ => []
  | fuel + 1, nextAddr, remSize, nextSplitId =>
    if remSize = 0 then []
    else
      let regSize := min (downAlign nextAddr width + width - nextAddr) remSize
      (nextAddr, regSize, nextSplitId) ::
        splitRegions width fuel ((nextAddr + regSize) % 2 ^ 64) (remSize - regSize) (nextSplitId + 1)

/-- The read packets of `createReadMemPackets` over its regions, each with
its split number. -/
def readRequests (insnSeqId pktOrderId : Nat) (regions : List (Nat × Nat × Nat)) : List MemPacket :=
  regions.map fun r => { createReadRequest r.1 r.2.1 insnSeqId pktOrderId with packetSplitId := r.2.2 }

/-- The loop of `createWriteMemPackets`' unaligned branch over its regions:
each packet takes the next `regSize` bytes of `remData`. -/
def writeRequests (insnSeqId pktOrderId : Nat) : List (Nat × Nat × Nat) → List UInt8 → List MemPacket
  | [], _ => []
  | (nextAddr, regSize, splitId) :: rest, remData =>
    { createWriteRequest nextAddr regSize insnSeqId pktOrderId (remData.take regSize) with
        packetSplitId := splitId } :: writeRequests insnSeqId pktOrderId rest (remData.drop regSize)

/-- Whether each pass of that loop finds its `regSize` bytes in `remData`:
`remData.begin() + regSize` past the end of the vector is undefined
behaviour. -/
def slicesFit : List (Nat × Nat × Nat) → List UInt8 → Bool
  | [], _ => true
  | (_, regSize, _) :: rest, remData => regSize ≤ remData.length && slicesFit rest (remData.drop regSize)

/-- The number of packets `createReadMemPackets` and `createWriteMemPackets`
make of `target`: one when it lies in one line, one per line otherwise. -/
def packetCount (cacheLineWidth : Nat) (target : MemoryAccessTarget) : Nat :=
  match isAligned cacheLineWidth target with
  | .ok false => (splitRegions cacheLineWidth target.size target.vaddr target.size 0).length
  | _ => 1

/-! ## The split -/

section Split

variable {width : Nat}

/-- A pass of the loop takes at least one byte. -/
theorem one_le_lineRest (hw : 0 < width) (a : Nat) : 1 ≤ downAlign a width + width - a := by
  have := Nat.lt_div_mul_add (a := a) hw
  unfold downAlign; omega

theorem sum_sizes_splitRegions (hw : 0 < width) {fuel remSize : Nat} (a s : Nat)
    (hf : remSize ≤ fuel) : ((splitRegions width fuel a remSize s).map fun r => r.2.1).sum = remSize := by
  induction fuel generalizing a remSize s with
  | zero => simp [splitRegions]; omega
  | succ fuel ih =>
    by_cases h0 : remSize = 0
    · simp [splitRegions, h0]
    · have := one_le_lineRest hw a
      simp only [splitRegions, h0, if_false, List.map_cons, List.sum_cons]
      rw [ih _ _ (by omega)]
      omega

theorem splitIds_splitRegions (fuel a remSize s : Nat) :
    (splitRegions width fuel a remSize s).map (fun r => r.2.2) =
      List.range' s (splitRegions width fuel a remSize s).length := by
  induction fuel generalizing a remSize s with
  | zero => rfl
  | succ fuel ih =>
    by_cases h0 : remSize = 0
    · simp [splitRegions, h0]
    · simp only [splitRegions, h0, if_false, List.map_cons, List.length_cons, List.range'_succ, ih]

theorem vaddr_head_splitRegions {fuel remSize : Nat} (a s : Nat) (hf : 0 < fuel) (hr : 0 < remSize) :
    (splitRegions width fuel a remSize s).head? = some (a, min (downAlign a width + width - a) remSize, s) := by
  obtain ⟨fuel, rfl⟩ := Nat.exists_eq_add_of_lt hf
  simp [splitRegions, Nat.pos_iff_ne_zero.1 hr]

/-- Each region is a positive part of what was left. -/
theorem size_pos_of_mem_splitRegions (hw : 0 < width) {fuel a remSize s : Nat} {r : Nat × Nat × Nat}
    (h : r ∈ splitRegions width fuel a remSize s) : 0 < r.2.1 := by
  induction fuel generalizing a remSize s with
  | zero => simp [splitRegions] at h
  | succ fuel ih =>
    by_cases h0 : remSize = 0
    · simp [splitRegions, h0] at h
    · simp only [splitRegions, h0, if_false, List.mem_cons] at h
      rcases h with rfl | h
      · have := one_le_lineRest hw a; simp only; omega
      · exact ih h

end Split

/-! ## Write payloads -/

theorem length_writeRequests (q o : Nat) (regions : List (Nat × Nat × Nat)) (data : List UInt8) :
    (writeRequests q o regions data).length = regions.length := by
  induction regions generalizing data with
  | nil => rfl
  | cons r rest ih => obtain ⟨a, sz, sid⟩ := r; simp [writeRequests, ih]

theorem isInstrRead_writeRequests {q o : Nat} {regions : List (Nat × Nat × Nat)} {data : List UInt8}
    {p : MemPacket} (h : p ∈ writeRequests q o regions data) : p.isInstrRead = false := by
  induction regions generalizing data with
  | nil => simp [writeRequests] at h
  | cons r rest ih =>
    obtain ⟨a, sz, sid⟩ := r
    simp only [writeRequests, List.mem_cons] at h
    rcases h with rfl | h
    · rfl
    · exact ih h

/-- Data of at least the regions' total size has every slice the loop
takes. -/
theorem slicesFit_of_le : ∀ (regions : List (Nat × Nat × Nat)) (data : List UInt8),
    (regions.map fun r => r.2.1).sum ≤ data.length → slicesFit regions data = true
  | [], _, _ => rfl
  | (_, regSize, _) :: rest, data, h => by
    simp only [List.map_cons, List.sum_cons] at h
    simp only [slicesFit, Bool.and_eq_true, decide_eq_true_eq]
    exact ⟨by omega, slicesFit_of_le rest _ (by rw [List.length_drop]; omega)⟩

/-- The payloads of a write's packets, joined in split order, are its data
cut to the regions' total size. -/
theorem join_writeRequests (q o : Nat) (regions : List (Nat × Nat × Nat)) (data : List UInt8) :
    (writeRequests q o regions data).flatMap MemPacket.payload =
      data.take (regions.map fun r => r.2.1).sum := by
  induction regions generalizing data with
  | nil => simp [writeRequests]
  | cons r rest ih =>
    obtain ⟨a, sz, sid⟩ := r
    simp only [writeRequests, List.flatMap_cons, createWriteRequest, ih, List.map_cons, List.sum_cons]
    rw [← List.take_add]

end SimEng.Memory
