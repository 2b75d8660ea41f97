import SimEng.Memory.MMU

/-!
# SimEng — splitting an access on cache lines partitions it

`MMU::createReadMemPackets` and `MMU::createWriteMemPackets` (MMU.cc) cut a
`MemoryAccessTarget` of `size` bytes at `vaddr` into packets. For a target in
one cache line they make one packet; otherwise the loop `splitRegions` takes,
pass after pass, the rest of the current line, until no byte is left.

For every target that does not run past the end of the 64-bit address space
and every positive line width, the packets tile `[vaddr, vaddr + size)`:
their ranges are non-empty, each lies in one line, and they follow each other
in ascending order from `vaddr` to `vaddr + size`, one per line the target
touches, numbered `0, 1, …`. A read makes the same packets, and a response
slot for each.

The write payloads are the slices of the data vector in the split case, and
the whole vector in the one-packet case. Both callers (`requestWrite` for an
instruction and for a target) build a vector of exactly `size` bytes
(`formatData_length`), for which the payloads joined are the vector; a
shorter vector would make the split loop slice past its end, which the source
leaves undefined.

Main results:

* `splitRegions_spec` — the loop's regions tile what is left, each in one
  line, one per line touched;
* `splitRegions_fuel` — the loop ends by running out of bytes: any fuel of at
  least `size` passes gives the same regions;
* `createMemPackets_partition` — the packets of both functions for every
  target and width, with a data vector of the target's size.
-/

namespace SimEng.Memory

/-- The number of lines of `width` bytes that the bytes of `target` touch. -/
def lineCount (width : Nat) (target : MemoryAccessTarget) : Nat :=
  (target.vaddr + target.size - 1) / width - target.vaddr / width + 1

/-- The ranges `(address, size)`, in order, are non-empty, each starts where
the one before it ends, and together they cover exactly `[a, b)`. -/
def Tiles : Nat → List (Nat × Nat) → Nat → Prop
  | a, [], b => a = b
  | a, r :: rest, b => r.1 = a ∧ 0 < r.2 ∧ Tiles (a + r.2) rest b

instance decTiles : (a : Nat) → (l : List (Nat × Nat)) → (b : Nat) → Decidable (Tiles a l b)
  | a, [], b => inferInstanceAs (Decidable (a = b))
  | a, r :: rest, b =>
    have := decTiles (a + r.2) rest b
    inferInstanceAs (Decidable (r.1 = a ∧ 0 < r.2 ∧ Tiles (a + r.2) rest b))

example : Tiles 60 [(60, 4), (64, 2)] 66 := by decide

section Split

variable {width : Nat}

/-- A byte after `a` and before the end of `a`'s line lies in `a`'s line. -/
theorem div_eq_of_lt_line {a e : Nat} (hae : a ≤ e)
    (he : e < downAlign a width + width) : e / width = a / width :=
  Nat.div_eq_of_lt_le (le_trans (Nat.div_mul_le_self a width) hae) (by rw [Nat.succ_mul]; exact he)

@[simp] theorem splitRegions_nothing_left (fuel a s : Nat) : splitRegions width fuel a 0 s = [] := by
  cases fuel <;> simp [splitRegions]

/-- The loop's regions tile the `r` bytes left from `a`; each lies in one
line; and there is one per line touched. -/
theorem splitRegions_spec (hw : 0 < width) {fuel a r : Nat} (s : Nat) (hr : r ≤ fuel)
    (hend : a + r ≤ 2 ^ 64) :
    Tiles a ((splitRegions width fuel a r s).map fun x => (x.1, x.2.1)) (a + r) ∧
    (∀ x ∈ splitRegions width fuel a r s, downAlign x.1 width = downAlign (x.1 + x.2.1 - 1) width) ∧
    (0 < r → (splitRegions width fuel a r s).length = (a + r - 1) / width - a / width + 1) := by
  induction fuel generalizing a r s with
  | zero => obtain rfl : r = 0 := by omega
            simp [Tiles]
  | succ fuel ih =>
    rcases Nat.eq_zero_or_pos r with rfl | hr0
    · simp [Tiles]
    have hdw : downAlign a width = a / width * width := rfl
    have hlo : downAlign a width ≤ a := Nat.div_mul_le_self a width
    have hhi : a < downAlign a width + width := Nat.lt_div_mul_add hw
    simp only [splitRegions, Nat.pos_iff_ne_zero.1 hr0, if_false, List.map_cons, List.mem_cons,
      List.length_cons]
    by_cases hL : r ≤ downAlign a width + width - a
    · -- the rest fits in the current line
      rw [Nat.min_eq_right hL, Nat.sub_self, splitRegions_nothing_left]
      have hdiv : (a + r - 1) / width = a / width := div_eq_of_lt_line (by omega) (by omega)
      refine ⟨⟨rfl, hr0, rfl⟩, ?_, fun _ => by simp [hdiv]⟩
      rintro x (rfl | hx)
      · simp only [downAlign, hdiv]
      · simp at hx
    · -- the pass takes the rest of the line, and the loop goes on from the next line
      rw [Nat.min_eq_left (by omega)]
      set L := downAlign a width + width - a with hL'
      have hA : a + L = (a / width + 1) * width := by rw [Nat.succ_mul]; omega
      have hend' : (a / width + 1) * width + (r - L) = a + r := by omega
      rw [Nat.mod_eq_of_lt (by omega), hA]
      obtain ⟨ht, hl, hn⟩ := ih (a := (a / width + 1) * width) (r := r - L) (s + 1) (by omega)
        (by omega)
      have hhead : (a + L - 1) / width = a / width := div_eq_of_lt_line (by omega) (by omega)
      refine ⟨⟨rfl, by omega, by rwa [hA, ← hend']⟩, ?_, fun _ => ?_⟩
      · rintro x (rfl | hx)
        exacts [by simp only [downAlign, hhead], hl x hx]
      · have hge : a / width + 1 ≤ (a + r - 1) / width :=
          (Nat.le_div_iff_mul_le hw).2 (by rw [Nat.succ_mul]; omega)
        rw [hn (by omega), hend', Nat.mul_div_cancel _ hw]
        omega

/-- The loop stops because no byte is left, not because its fuel runs out:
every fuel of at least the bytes left gives the same regions. -/
theorem splitRegions_fuel (hw : 0 < width) {f₁ f₂ a r s : Nat} (h₁ : r ≤ f₁) (h₂ : r ≤ f₂) :
    splitRegions width f₁ a r s = splitRegions width f₂ a r s := by
  induction f₁ generalizing f₂ a r s with
  | zero => obtain rfl : r = 0 := by omega
            simp
  | succ f₁ ih =>
    rcases Nat.eq_zero_or_pos r with rfl | hr0
    · simp
    obtain ⟨f₂, rfl⟩ := Nat.exists_eq_succ_of_ne_zero (by omega : f₂ ≠ 0)
    have h1 : 1 ≤ min (downAlign a width + width - a) r := Nat.le_min.2 ⟨one_le_lineRest hw a, hr0⟩
    have h2 := Nat.min_le_right (downAlign a width + width - a) r
    simp only [splitRegions, Nat.pos_iff_ne_zero.1 hr0, if_false]
    generalize min (downAlign a width + width - a) r = m at h1 h2 ⊢
    rw [@ih f₂ ((a + m) % 2 ^ 64) (r - m) (s + 1) (by omega) (by omega)]

end Split

/-- The regions of the split case as packets: their addresses, sizes, owner
and split numbers. -/
theorem readRequests_ranges (q o : Nat) (regions : List (Nat × Nat × Nat)) :
    (readRequests q o regions).map (fun p => (p.vaddr, p.size, p.insnSeqId, p.packetOrderId, p.packetSplitId)) =
      regions.map fun r => (r.1, r.2.1, q, o, r.2.2) := by
  simp [readRequests, MemPacket.createReadRequest, Function.comp_def]

theorem writeRequests_ranges (q o : Nat) (regions : List (Nat × Nat × Nat)) (data : List UInt8) :
    (writeRequests q o regions data).map
        (fun p => (p.vaddr, p.size, p.insnSeqId, p.packetOrderId, p.packetSplitId)) =
      regions.map fun r => (r.1, r.2.1, q, o, r.2.2) := by
  induction regions generalizing data with
  | nil => rfl
  | cons r rest ih => obtain ⟨a, sz, sid⟩ := r; simp [writeRequests, MemPacket.createWriteRequest, ih]

theorem isRead_writeRequests {q o : Nat} {regions : List (Nat × Nat × Nat)} {data : List UInt8}
    {p : MemPacket} (h : p ∈ writeRequests q o regions data) : p.isRead = false := by
  induction regions generalizing data with
  | nil => simp [writeRequests] at h
  | cons r rest ih =>
    obtain ⟨a, sz, sid⟩ := r
    simp only [writeRequests, List.mem_cons] at h
    rcases h with rfl | h
    exacts [rfl, ih h]

/-! ## The packets of one target -/

/-- The ranges and split numbers of the packets of `target`: the whole target
when it lies in one line, the loop's regions otherwise. -/
def splitOf (width : Nat) (target : MemoryAccessTarget) : List (Nat × Nat × Nat) :=
  match isAligned width target with
  | .ok false => splitRegions width target.size target.vaddr target.size 0
  | _ => [(target.vaddr, target.size, 0)]

section Target

variable {width : Nat} {target : MemoryAccessTarget}

/-- `isAligned`, for a target that does not run past the end of the address
space, compares the lines of its first and last byte. -/
theorem isAligned_eq (hs : 0 < target.size) (hend : target.vaddr + target.size ≤ 2 ^ 64) :
    isAligned width target = .ok (downAlign target.vaddr width ==
      downAlign (target.vaddr + target.size - 1) width) := by
  rw [isAligned, if_neg (by omega), Nat.mod_eq_of_lt (by omega)]

/-- The ranges of a target tile it, each lies in one line, there is one per
line touched, and they are numbered from 0. -/
theorem splitOf_spec (hw : 0 < width) (hs : 0 < target.size)
    (hend : target.vaddr + target.size ≤ 2 ^ 64) :
    Tiles target.vaddr ((splitOf width target).map fun x => (x.1, x.2.1)) (target.vaddr + target.size) ∧
    (∀ x ∈ splitOf width target, downAlign x.1 width = downAlign (x.1 + x.2.1 - 1) width) ∧
    (splitOf width target).length = lineCount width target ∧
    (splitOf width target).map (fun x => x.2.2) = List.range (splitOf width target).length := by
  have ha : isAligned width target = _ := isAligned_eq hs hend
  cases hb : (downAlign target.vaddr width == downAlign (target.vaddr + target.size - 1) width)
  · obtain ⟨ht, hl, hn⟩ := splitRegions_spec hw 0 (le_refl target.size) hend
    simp only [splitOf, ha, hb, lineCount]
    exact ⟨ht, hl, hn hs, by rw [splitIds_splitRegions, List.range_eq_range']⟩
  · have hd : downAlign target.vaddr width = downAlign (target.vaddr + target.size - 1) width := by
      simpa using hb
    have hdiv : target.vaddr / width = (target.vaddr + target.size - 1) / width :=
      Nat.eq_of_mul_eq_mul_right hw hd
    simp only [splitOf, ha, hb, lineCount, hdiv]
    exact ⟨⟨rfl, hs, rfl⟩, by simpa using hd, by simp, rfl⟩

/-- The bytes a caller formats for a target are exactly `target.size`. -/
theorem formatData_length {data : RegisterValue} {dt : List UInt8} (h : MMU.formatData target data = .ok dt) :
    dt.length = target.size := by
  unfold MMU.formatData at h
  split at h <;> cases h
  simpa using ‹target.size ≤ data.length›

/-- The packets `createWriteMemPackets` makes of a vector of the target's
size: one per range of `splitOf`, with the instruction's ids, their payloads
joined being the vector. -/
theorem createWriteMemPackets_ranges (limits : Limits) (hs : 0 < target.size)
    (hend : target.vaddr + target.size ≤ 2 ^ 64) {data : List UInt8} (hd : data.length = target.size)
    (q o : Nat) :
    ∃ pkts, MMU.createWriteMemPackets limits target [] data q o = .ok pkts ∧
      pkts.map (fun p => (p.vaddr, p.size, p.insnSeqId, p.packetOrderId, p.packetSplitId)) =
        (splitOf limits.cacheLineWidth target).map (fun r => (r.1, r.2.1, q, o, r.2.2)) ∧
      (∀ p ∈ pkts, p.isRead = false) ∧ pkts.flatMap MemPacket.payload = data := by
  have ha : isAligned limits.cacheLineWidth target = _ := isAligned_eq hs hend
  cases hb : (downAlign target.vaddr limits.cacheLineWidth ==
      downAlign (target.vaddr + target.size - 1) limits.cacheLineWidth)
  · rw [hb] at ha
    have hw := pos_of_isAligned_false ha
    have hsum := sum_sizes_splitRegions hw target.vaddr 0 (le_refl target.size)
    have hfit := slicesFit_of_le _ data (by rw [hsum, hd])
    refine ⟨_, by simp [MMU.createWriteMemPackets, ha, hfit]; rfl, ?_, fun p hp => isRead_writeRequests hp, ?_⟩
    · simp only [splitOf, ha]
      exact writeRequests_ranges q o _ data
    · rw [join_writeRequests, hsum, List.take_of_length_le hd.le]
  · rw [hb] at ha
    exact ⟨_, by simp [MMU.createWriteMemPackets, ha]; rfl, by simp [splitOf, ha, MemPacket.createWriteRequest],
      by simp [MemPacket.createWriteRequest], by simp [MemPacket.createWriteRequest]⟩

/-- `readResponses_[insnSeqId][pktOrderId].resize(n)` leaves `n` slots. -/
theorem length_resizeResponses (s : MMU) (q o n : Nat) :
    (((s.resizeResponses q o n).readResponses q).bind (·.find? o)).map List.length = some n := by
  simp only [MMU.resizeResponses, Function.update_same, Option.some_bind, OrderedMap.find?_assign,
    if_true, Option.map_some', MMU.resizeVector, List.length_append, List.length_take,
    List.length_replicate, Option.some.injEq]
  omega

/-- The packets `createReadMemPackets` makes: one per range of `splitOf`,
with the instruction's ids, and a response slot for each. -/
theorem createReadMemPackets_ranges (limits : Limits) (hs : 0 < target.size)
    (hend : target.vaddr + target.size ≤ 2 ^ 64) (q o : Nat) (s : MMU) :
    ∃ pkts s', s.createReadMemPackets limits target [] q o = .ok (pkts, s') ∧
      pkts.map (fun p => (p.vaddr, p.size, p.insnSeqId, p.packetOrderId, p.packetSplitId)) =
        (splitOf limits.cacheLineWidth target).map (fun r => (r.1, r.2.1, q, o, r.2.2)) ∧
      (∀ p ∈ pkts, p.isRead = true) ∧
      ((s'.readResponses q).bind (·.find? o)).map List.length = some pkts.length := by
  have ha : isAligned limits.cacheLineWidth target = _ := isAligned_eq hs hend
  cases hb : (downAlign target.vaddr limits.cacheLineWidth ==
      downAlign (target.vaddr + target.size - 1) limits.cacheLineWidth) <;> rw [hb] at ha
  · refine ⟨_, _, by simp [MMU.createReadMemPackets, ha]; rfl, ?_, ?_, ?_⟩
    · simp only [splitOf, ha]
      exact readRequests_ranges q o _
    · simp only [readRequests, List.mem_map]
      rintro p ⟨r, -, rfl⟩
      rfl
    · simpa [readRequests] using length_resizeResponses s q o _
  · exact ⟨_, _, by simp [MMU.createReadMemPackets, ha]; rfl,
      by simp [splitOf, ha, MemPacket.createReadRequest], by simp [MemPacket.createReadRequest],
      by simpa using length_resizeResponses s q o 1⟩

end Target

/-- The packets of every target of at least one byte that does not run past
the end of the address space, for every positive line width and every data
vector of the target's size, as both callers pass. The write packets tile the
target, each within one line, one per line touched, numbered from 0 and
carrying the instruction's ids; their payloads joined are the data. The loop
ends by running out of bytes. The read packets have the same ranges and ids,
and the target gets one response slot per packet. -/
theorem createMemPackets_partition (limits : Limits) (hw : 0 < limits.cacheLineWidth)
    (target : MemoryAccessTarget) (hs : 0 < target.size)
    (hend : target.vaddr + target.size ≤ 2 ^ 64) (data : List UInt8) (hdata : data.length = target.size)
    (insnSeqId pktOrderId : Nat) (s : MMU) :
    ∃ pkts, MMU.createWriteMemPackets limits target [] data insnSeqId pktOrderId = .ok pkts ∧
      pkts.length = lineCount limits.cacheLineWidth target ∧
      (isAligned limits.cacheLineWidth target = .ok true → pkts.length = 1) ∧
      pkts.map MemPacket.packetSplitId = List.range pkts.length ∧
      (∀ p ∈ pkts, p.insnSeqId = insnSeqId ∧ p.packetOrderId = pktOrderId ∧ p.isRead = false ∧
        downAlign p.vaddr limits.cacheLineWidth =
          downAlign (p.vaddr + p.size - 1) limits.cacheLineWidth) ∧
      Tiles target.vaddr (pkts.map fun p => (p.vaddr, p.size)) (target.vaddr + target.size) ∧
      pkts.flatMap MemPacket.payload = data ∧
      (∀ fuel, target.size ≤ fuel →
        splitRegions limits.cacheLineWidth fuel target.vaddr target.size 0 =
          splitRegions limits.cacheLineWidth target.size target.vaddr target.size 0) ∧
      ∃ reads s', s.createReadMemPackets limits target [] insnSeqId pktOrderId = .ok (reads, s') ∧
        reads.map (fun p => (p.vaddr, p.size, p.insnSeqId, p.packetOrderId, p.packetSplitId)) =
          pkts.map (fun p => (p.vaddr, p.size, p.insnSeqId, p.packetOrderId, p.packetSplitId)) ∧
        (∀ p ∈ reads, p.isRead = true) ∧
        ((s'.readResponses insnSeqId).bind (·.find? pktOrderId)).map List.length =
          some pkts.length := by
  obtain ⟨ht, hl, hn, hid⟩ := splitOf_spec hw hs hend
  obtain ⟨pkts, hpk, hr, hread, hpay⟩ := createWriteMemPackets_ranges limits hs hend hdata insnSeqId pktOrderId
  obtain ⟨reads, s', hrd, hrr, hrdr, hsz⟩ := createReadMemPackets_ranges limits hs hend insnSeqId pktOrderId s
  have hlen : pkts.length = (splitOf limits.cacheLineWidth target).length := by
    simpa using congrArg List.length hr
  -- the ranges and split numbers of the packets are those of `splitOf`
  have hranges : pkts.map (fun p => (p.vaddr, p.size)) =
      (splitOf limits.cacheLineWidth target).map fun x => (x.1, x.2.1) := by
    simpa [Function.comp_def] using congrArg (List.map fun x => (x.1, x.2.1)) hr
  have hids : pkts.map MemPacket.packetSplitId = (splitOf limits.cacheLineWidth target).map (·.2.2) := by
    simpa [Function.comp_def] using congrArg (List.map fun x => x.2.2.2.2) hr
  refine ⟨pkts, hpk, hlen.trans hn, fun h => by simp [hlen, splitOf, h], by rw [hids, hid, hlen],
    fun p hp => ?_, hranges ▸ ht, hpay, fun _ hf => splitRegions_fuel hw hf le_rfl,
    reads, s', hrd, hrr.trans hr.symm, hrdr, ?_⟩
  · have hm := List.mem_map_of_mem
      (fun p : MemPacket => (p.vaddr, p.size, p.insnSeqId, p.packetOrderId, p.packetSplitId)) hp
    rw [hr] at hm
    obtain ⟨r, hr', heq⟩ := List.mem_map.1 hm
    simp only [Prod.mk.injEq] at heq
    obtain ⟨h₁, h₂, h₃, h₄, -⟩ := heq
    exact ⟨h₃.symm, h₄.symm, hread p hp, h₁ ▸ h₂ ▸ hl r hr'⟩
  · have := congrArg List.length (hrr.trans hr.symm)
    simp only [List.length_map] at this
    rwa [← this]

/-- Lines of 64 bytes. -/
def lines64 : Limits :=
  { cacheLineWidth := 64, loadBandwidth := 0, storeBandwidth := 0, requestLimit := 0,
    loadRequestLimit := 0, storeRequestLimit := 0, exclusiveRequests := false }

/-- Eight bytes at `60`, across the line boundary at `64`. -/
def across64 : MemoryAccessTarget := ⟨60, 8, by decide, by decide⟩

/-- An access across one line boundary is written as two packets. -/
theorem across64_two_packets :
    lineCount 64 across64 = 2 ∧ ∃ pkts, MMU.createWriteMemPackets lines64 across64 []
      (List.replicate 8 0) 3 0 = .ok pkts ∧ pkts.length = 2 :=
  ⟨by decide,
    let ⟨pkts, h, hl, _⟩ := createMemPackets_partition lines64 (by decide) across64 (by decide)
      (by decide) (List.replicate 8 0) rfl 3 0 {}
    ⟨pkts, h, hl⟩⟩

end SimEng.Memory
