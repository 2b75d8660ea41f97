import Mathlib.Data.List.Forall2
import SimEng.Memory.MMU

/-!
# SimEng — the receiver's books for split loads and store-conditionals

A load's addresses are split on cache lines (`createReadMemPackets`), and the
responses to its splits come back in any order, mixed with other
instructions' responses. The receiver files each response in
`readResponses_[seqId][order][split]` and counts it off `requestedLoads_`.
At the last response, `supplyLoadInsnData` joins the splits of each address
and supplies the load. A store-conditional's responses are counted off
`requestedStores_`, and its last one reports whether any of them failed.

This module says what the books may hold for one instruction. They are read
against the packets still outstanding, each by its `Tag`: what a packet keeps
on its way to the memory and back. The module also proves what the receiver
computes at the last response.

Main results:

* `supplyTarget_some` — for an address whose splits have all come back,
  `supplyLoadInsnData` supplies `joinSplits` of them at the first split's
  address;
* `holes_set_perm`, `filled_set_perm` — filing a response turns one waiting
  slot into a filled one;
* `LoadPhase.perm`, `StorePhase.perm`, `Ledger.perm` — the books depend on
  the outstanding packets only as a multiset.
-/

namespace SimEng.Memory

open MemPacket

/-! ## Tags -/

/-- What a packet keeps between its request and its response: its
instruction, its kind, its address index and split number, its address and
its size. Issuing sets the physical address or the ignore flag, a data abort
sets the fault flag, and the memory sets the payload or the failure flag. -/
structure Tag where
  insnSeqId : Nat
  isRead : Bool
  isInstrRead : Bool
  packetOrderId : Nat
  packetSplitId : Nat
  vaddr : Nat
  size : Nat
deriving DecidableEq

namespace Tag

/-- A data read of instruction `q`. -/
def readOf (q : Nat) (x : Tag) : Bool := x.isRead && !x.isInstrRead && x.insnSeqId == q

/-- A data write of instruction `q`. -/
def writeOf (q : Nat) (x : Tag) : Bool := !x.isRead && !x.isInstrRead && x.insnSeqId == q

end Tag

/-- The tag of a packet. -/
def MemPacket.tag (p : MemPacket) : Tag :=
  ⟨p.insnSeqId, p.isRead, p.isInstrRead, p.packetOrderId, p.packetSplitId, p.vaddr, p.size⟩

/-- A `supplyData` call on instruction `q`. -/
def InsnCall.suppliesTo (q : Nat) : InsnCall → Bool
  | .supplyData insn _ _ => insn == q
  | _ => false

/-- An `updateCondStoreResult` call on instruction `q`. -/
def InsnCall.reportsTo (q : Nat) : InsnCall → Bool
  | .updateCondStoreResult insn _ => insn == q
  | _ => false

/-- Modelled from the spec: the value a load's address gets from the
responses to its splits, in split order. It is their payloads joined, or
empty when one of them is faulty. -/
def joinSplits (ps : List MemPacket) : List UInt8 :=
  if ps.any (·.isFaulty) then [] else ps.flatMap (·.payload)

/-! ## The requests of a load -/

/-- The read requests that `createReadMemPackets` makes for the address
`target` of index `pktOrderId` of load `insnSeqId`. -/
def targetReads (cacheLineWidth insnSeqId pktOrderId : Nat) (target : MemoryAccessTarget) :
    List MemPacket :=
  match isAligned cacheLineWidth target with
  | .ok false => readRequests insnSeqId pktOrderId
      (splitRegions cacheLineWidth target.size target.vaddr target.size 0)
  | _ => [createReadRequest target.vaddr target.size insnSeqId pktOrderId]

/-- The read requests of `requestRead`'s loop from index `i`, one list per
address. -/
def loadReads (cacheLineWidth insnSeqId : Nat) : Nat → List MemoryAccessTarget → List (List MemPacket)
  | _, [] => []
  | i, target :: rest =>
    targetReads cacheLineWidth insnSeqId i target :: loadReads cacheLineWidth insnSeqId (i + 1) rest

section Requests

variable {w q i : Nat} {t : MemoryAccessTarget}

theorem size_pos_of_isAligned_false (h : isAligned w t = .ok false) : 0 < t.size := by
  unfold isAligned at h
  split at h
  · cases h
  · omega

theorem length_targetReads : (targetReads w q i t).length = packetCount w t := by
  rcases h : isAligned w t with e | (_ | _) <;> simp [targetReads, packetCount, h, readRequests]

theorem targetReads_head : ∃ p rest, targetReads w q i t = p :: rest ∧ p.vaddr = t.vaddr := by
  rcases h : isAligned w t with e | (_ | _)
  · exact ⟨createReadRequest t.vaddr t.size q i, [], by simp only [targetReads, h], rfl⟩
  · have hs := size_pos_of_isAligned_false h
    have hd := @vaddr_head_splitRegions w t.size t.size t.vaddr 0 hs hs
    generalize hl : splitRegions w t.size t.vaddr t.size 0 = l at hd
    cases l with
    | nil => cases hd
    | cons r rest =>
    rw [List.head?_cons, Option.some_inj] at hd
    refine ⟨{ createReadRequest r.1 r.2.1 q i with packetSplitId := r.2.2 }, readRequests q i rest,
      by simp only [targetReads, h, hl, readRequests, List.map_cons], ?_⟩
    subst hd; rfl
  · exact ⟨createReadRequest t.vaddr t.size q i, [], by simp only [targetReads, h], rfl⟩

theorem targetReads_ne_nil : targetReads w q i t ≠ [] := by
  obtain ⟨p, rest, h, -⟩ := @targetReads_head w q i t
  simp [h]

/-- The splits of an address add up to its size. -/
theorem sum_sizes_targetReads : ((targetReads w q i t).map (·.size)).sum = t.size := by
  rcases h : isAligned w t with e | (_ | _)
  · simp [targetReads, h, createReadRequest]
  · have hw := pos_of_isAligned_false h
    simp only [targetReads, h, readRequests, List.map_map]
    exact sum_sizes_splitRegions hw _ _ le_rfl
  · simp [targetReads, h, createReadRequest]

/-- The `j`-th request of the address of index `i` is a data read of the
load, numbered `i` and `j`. -/
theorem tag_targetReads {j : Nat} {p : MemPacket} (h : (targetReads w q i t)[j]? = some p) :
    p.tag.readOf q = true ∧ p.packetOrderId = i ∧ p.packetSplitId = j := by
  rcases ha : isAligned w t with e | (_ | _) <;> simp only [targetReads, ha] at h
  · obtain ⟨rfl, rfl⟩ : j = 0 ∧ _ := by simpa [List.getElem?_cons] using h
    simp [MemPacket.tag, Tag.readOf, createReadRequest]
  · rw [readRequests, List.getElem?_map] at h
    obtain ⟨r, hr, rfl⟩ := Option.map_eq_some'.1 h
    have hj : j < (splitRegions w t.size t.vaddr t.size 0).length := (List.getElem?_eq_some_iff.1 hr).1
    have hid : ((splitRegions w t.size t.vaddr t.size 0).map fun r => r.2.2)[j]? =
        (List.range' 0 (splitRegions w t.size t.vaddr t.size 0).length)[j]? := by
      rw [splitIds_splitRegions]
    rw [List.getElem?_map, hr, Option.map_some', List.getElem?_range' 0 1 hj, Option.some_inj] at hid
    simp [MemPacket.tag, Tag.readOf, createReadRequest, hid]
  · obtain ⟨rfl, rfl⟩ : j = 0 ∧ _ := by simpa [List.getElem?_cons] using h
    simp [MemPacket.tag, Tag.readOf, createReadRequest]

theorem length_loadReads (targets : List MemoryAccessTarget) : (loadReads w q i targets).length = targets.length := by
  induction targets generalizing i with
  | nil => rfl
  | cons t rest ih => simp [loadReads, ih]

theorem getElem?_loadReads (targets : List MemoryAccessTarget) (j : Nat) :
    (loadReads w q i targets)[j]? = targets[j]?.map (targetReads w q (i + j)) := by
  induction targets generalizing i j with
  | nil => rfl
  | cons t rest ih =>
    cases j with
    | zero => simp [loadReads]
    | succ j => simp only [loadReads, List.getElem?_cons_succ, ih, Nat.add_right_comm, Nat.add_assoc]

theorem length_flatten_loadReads (targets : List MemoryAccessTarget) :
    (loadReads w q i targets).flatten.length = (targets.map (packetCount w)).sum := by
  induction targets generalizing i with
  | nil => rfl
  | cons t rest ih => simp [loadReads, ih, length_targetReads]

/-- Every request of a load is a data read of it. -/
theorem readOf_of_mem_loadReads {targets : List MemoryAccessTarget} {p : MemPacket}
    (hp : p ∈ (loadReads w q i targets).flatten) : p.tag.readOf q = true := by
  obtain ⟨row, hrow, hp⟩ := List.mem_flatten.1 hp
  obtain ⟨j, hj⟩ := List.mem_iff_getElem?.1 hrow
  rw [getElem?_loadReads] at hj
  obtain ⟨t, -, rfl⟩ := Option.map_eq_some'.1 hj
  obtain ⟨k, hk⟩ := List.mem_iff_getElem?.1 hp
  exact (tag_targetReads hk).1

theorem loadReads_ne_nil {targets : List MemoryAccessTarget} (h : targets ≠ []) :
    (loadReads w q i targets).flatten ≠ [] := by
  obtain ⟨t, rest, rfl⟩ := List.exists_cons_of_ne_nil h
  simp [loadReads, targetReads_ne_nil]

end Requests

/-! ## The value supplied for an address -/

namespace MMU

/-- `mergeSplits` over splits whose responses have all come back. -/
theorem mergeSplits_some : ∀ (ps : List MemPacket) {sz : Nat} (data : List UInt8), sz < 2 ^ 16 →
    mergeSplits (ps.map some) sz data =
      .ok (if ps.any (·.isFaulty) then none
        else some ((sz + (ps.map (·.size)).sum) % 2 ^ 16, data ++ ps.flatMap (·.payload)))
  | [], sz, data, hsz => by
    simp only [List.map_nil, mergeSplits, List.any_nil, Bool.false_eq_true, if_false, List.sum_nil,
      Nat.add_zero, Nat.mod_eq_of_lt hsz, List.flatMap_nil, List.append_nil]
  | p :: ps, sz, data, hsz => by
    by_cases hf : p.isFaulty
    · simp [mergeSplits, hf]
    · simp only [List.map_cons, mergeSplits, hf, Bool.false_eq_true, if_false,
        mergeSplits_some ps _ (Nat.mod_lt _ (Nat.two_pow_pos 16)), List.any_cons, Bool.false_or,
        List.sum_cons, List.flatMap_cons, List.append_assoc, Nat.mod_add_mod, Nat.add_assoc]

/-- Payloads of their packets' sizes join to the sum of the sizes. -/
theorem length_flatMap_payload {ps : List MemPacket} (h : ∀ x ∈ ps, x.payload.length = x.size) :
    (ps.flatMap (·.payload)).length = (ps.map (·.size)).sum := by
  rw [List.flatMap_def, List.length_flatten, List.map_map]
  exact congrArg List.sum (List.map_congr_left h)

/-- For an address whose splits have all come back, each non-faulty one with
a payload of its size and fewer than `2^16` bytes in all, the value
`supplyLoadInsnData` supplies is `joinSplits` of them, at the first split's
address. -/
theorem supplyTarget_some {q : Nat} {p : MemPacket} {ps : List MemPacket}
    (hsize : ((p :: ps).map (·.size)).sum < 2 ^ 16)
    (hpay : ∀ x ∈ p :: ps, x.isFaulty = false → x.payload.length = x.size) :
    supplyTarget q ((p :: ps).map some) = .ok (.supplyData q p.vaddr (joinSplits (p :: ps))) := by
  have hp : p.size < 2 ^ 16 := by simp only [List.map_cons, List.sum_cons] at hsize; omega
  by_cases hf : p.isFaulty
  · simp [supplyTarget, joinSplits, hf]
  · simp only [List.map_cons, supplyTarget, hf, Bool.false_eq_true, if_false, bind, Except.bind,
      mergeSplits_some ps _ hp]
    by_cases hr : ps.any (·.isFaulty)
    · simp [hr, pure, Except.pure, joinSplits]
    · have hall : ∀ x ∈ p :: ps, x.payload.length = x.size := fun x hx =>
        hpay x hx (by
          rcases List.mem_cons.1 hx with rfl | hx
          · simpa using hf
          · simpa using List.any_eq_false.1 (Bool.eq_false_iff.2 hr) x hx)
      have hlen := length_flatMap_payload hall
      simp only [List.flatMap_cons, List.map_cons, List.sum_cons] at hlen hsize
      have hmod : (p.size + (ps.map (·.size)).sum) % 2 ^ 16 = (p.payload ++ ps.flatMap (·.payload)).length := by
        rw [hlen, Nat.mod_eq_of_lt hsize]
      simp only [hr, Bool.false_eq_true, if_false, pure, Except.pure, joinSplits, List.any_cons, hf,
        Bool.false_or, List.flatMap_cons, hmod, List.take_length]

/-- `supplyLoadInsnData`'s loop over address indices `a, a + 1, …` whose slots
are `rows`, each of which gives its call. -/
theorem supplyTargets_of_rows {q : Nat} {R : ReadResponses} :
    ∀ {rows : List (List (Option MemPacket))} {calls : List InsnCall} {a : Nat},
      (∀ i (h : i < rows.length), R.find? (a + i) = some rows[i]) →
      List.Forall₂ (fun row c => supplyTarget q row = .ok c) rows calls →
      supplyTargets q R (List.range' a rows.length) = .ok calls
  | [], [], _, _, _ => rfl
  | row :: rest, c :: cs, a, hrows, .cons hc hcs => by
    have h₀ : R.find? a = some row := hrows 0 (Nat.zero_lt_succ _)
    have h₁ := @supplyTargets_of_rows q R rest cs (a + 1)
      (fun i h => by rw [Nat.add_assoc, Nat.add_comm 1 i]; exact hrows (i + 1) (Nat.succ_lt_succ h)) hcs
    simp only [List.length_cons, List.range'_succ, supplyTargets, h₀, Option.getD_some, hc, h₁, bind,
      Except.bind, pure, Except.pure]

end MMU

/-! ## Response slots -/

/-- The splits of a load: for each address, each split's request paired with
its response once that has come. -/
abbrev Cells := List (List (MemPacket × Option MemPacket))

namespace Cells

/-- The requests still waiting for their response. -/
def holes (C : Cells) : List MemPacket :=
  C.flatten.filterMap fun c => if c.2.isNone then some c.1 else none

/-- The responses that have come. -/
def filled (C : Cells) : List MemPacket := C.flatten.filterMap Prod.snd

theorem set_append_perm {α : Type} {l : List α} {j : Nat} {a a' : α} (h : l[j]? = some a) :
    (l.set j a' ++ [a]).Perm (l ++ [a']) := by
  obtain ⟨hj, rfl⟩ := List.getElem?_eq_some_iff.1 h
  rw [List.set_eq_take_append_cons_drop, if_pos hj]
  conv_rhs => rw [← List.take_append_drop j l, List.drop_eq_getElem_cons hj]
  simp only [List.append_assoc, List.cons_append]
  exact List.Perm.append_left _ <| ((List.perm_append_singleton _ _).cons a').trans <|
    (List.Perm.swap _ _ _).trans ((List.perm_append_singleton _ _).symm.cons _)

/-- Setting one element of a nested list swaps it in the flattened list. -/
theorem flatten_set_append_perm {α : Type} {C : List (List α)} {i j : Nat} {row : List α} {a a' : α}
    (hrow : C[i]? = some row) (ha : row[j]? = some a) :
    ((C.set i (row.set j a')).flatten ++ [a]).Perm (C.flatten ++ [a']) := by
  obtain ⟨hi, rfl⟩ := List.getElem?_eq_some_iff.1 hrow
  rw [List.set_eq_take_append_cons_drop, if_pos hi]
  conv_rhs => rw [← List.take_append_drop i C, List.drop_eq_getElem_cons hi]
  simp only [List.flatten_append, List.flatten_cons, List.append_assoc]
  refine List.Perm.append_left _ ?_
  have h₁ := (@set_append_perm _ _ _ _ a' ha).append_right (List.drop (i + 1) C).flatten
  simp only [List.append_assoc] at h₁
  exact (List.perm_append_comm.append_left _).trans (h₁.trans (List.perm_append_comm.append_left _))

variable {C : Cells} {i j : Nat} {row : List (MemPacket × Option MemPacket)} {t p : MemPacket}

/-- Filing a response takes its request off the waiting ones. -/
theorem holes_set_perm (hrow : C[i]? = some row) (hc : row[j]? = some (t, none)) :
    (holes (C.set i (row.set j (t, some p))) ++ [t]).Perm (holes C) := by
  simpa [holes] using (@flatten_set_append_perm _ _ _ _ _ _ (t, some p) hrow hc).filterMap
    (fun c : MemPacket × Option MemPacket => if c.2.isNone then some c.1 else none)

/-- Filing a response adds it to the filled ones. -/
theorem filled_set_perm (hrow : C[i]? = some row) (hc : row[j]? = some (t, none)) :
    (filled (C.set i (row.set j (t, some p)))).Perm (filled C ++ [p]) := by
  simpa [filled] using (@flatten_set_append_perm _ _ _ _ _ _ (t, some p) hrow hc).filterMap Prod.snd

/-- A waiting request sits in some slot `j` of some address `i`. -/
theorem exists_of_mem_holes (h : t ∈ holes C) :
    ∃ (i j : Nat) (row : List (MemPacket × Option MemPacket)), C[i]? = some row ∧ row[j]? = some (t, none) := by
  obtain ⟨c, hc, hct⟩ := List.mem_filterMap.1 h
  obtain ⟨row, hrow, hc⟩ := List.mem_flatten.1 hc
  obtain ⟨i, hi⟩ := List.mem_iff_getElem?.1 hrow
  obtain ⟨j, hj⟩ := List.mem_iff_getElem?.1 hc
  obtain ⟨t', o⟩ := c
  cases o with
  | none => cases hct; exact ⟨i, j, row, hi, hj⟩
  | some _ => cases hct

theorem length_holes_le : (holes C).length ≤ C.flatten.length := List.length_filterMap_le _ _

/-- With no request waiting, every slot holds its response. -/
theorem slots_of_holes_eq_nil (h : holes C = []) (row) (hrow : row ∈ C) :
    row.map Prod.snd = (row.filterMap Prod.snd).map some := by
  have hall : ∀ c ∈ row, c.2.isSome := fun c hc => by
    have := List.filterMap_eq_nil_iff.1 h c (List.mem_flatten.2 ⟨row, hrow, hc⟩)
    cases hc2 : c.2 <;> simp_all
  clear hrow
  induction row with
  | nil => rfl
  | cons c rest ih =>
    obtain ⟨t, o⟩ := c
    obtain ⟨x, rfl⟩ := Option.isSome_iff_exists.1 (hall _ (List.mem_cons_self _ _))
    simp [ih fun c hc => hall c (List.mem_cons_of_mem _ hc)]

/-- The cells of requests none of which has its response yet. -/
def unfilled (L : List (List MemPacket)) : Cells := L.map (List.map (·, none))

@[simp] theorem holes_unfilled (L : List (List MemPacket)) : holes (unfilled L) = L.flatten := by
  simp [holes, unfilled, ← List.map_flatten, List.filterMap_map, Function.comp_def]

@[simp] theorem filled_unfilled (L : List (List MemPacket)) : filled (unfilled L) = [] := by
  simp [filled, unfilled, ← List.map_flatten, List.filterMap_map, Function.comp_def]

@[simp] theorem length_flatten_unfilled (L : List (List MemPacket)) :
    (unfilled L).flatten.length = L.flatten.length := by
  simp [unfilled, ← List.map_flatten]

end Cells

/-! ## The books -/

/-- The receiver's books: the registered loads and stores, the response
slots, the delivered packets and the calls made on instructions. -/
structure Books where
  requestedLoads : Nat → Option Nat
  readResponses : Nat → Option ReadResponses
  requestedStores : Nat → Option StoreEntry
  delivered : List MemPacket
  insnCalls : List InsnCall

/-- The books of an MMU. -/
def MMU.books (s : MMU) : Books :=
  ⟨s.requestedLoads, s.readResponses, s.requestedStores, s.delivered, s.insnCalls⟩

/-- Load `q` waits for responses. `C` pairs each of its requests with its
response once that has come, `xs` are the tags of its reads still
outstanding, `n` is its counter in `requestedLoads_`, `R` its slots in
`readResponses_`, and `dl` the responses delivered so far. -/
structure LoadWaiting (w q : Nat) (targets : List MemoryAccessTarget) (xs : List Tag) (n : Nat)
    (R : ReadResponses) (dl : List MemPacket) (C : Cells) : Prop where
  requests : C.map (List.map Prod.fst) = loadReads w q 0 targets
  responses : ∀ row ∈ C, ∀ c ∈ row, ∀ p, c.2 = some p →
    p.tag = c.1.tag ∧ (p.isFaulty = false → p.payload.length = p.size)
  small : C.flatten.length < 2 ^ 16
  slots : ∀ i, R.find? i = C[i]?.map (List.map Prod.snd)
  counter : n = C.holes.length
  pending : C.holes ≠ []
  outstanding : xs.Perm (C.holes.map MemPacket.tag)
  delivered : dl.Perm C.filled

/-- A load just requested waits for all its reads, with an empty slot for
each. -/
theorem LoadWaiting.requested {w q : Nat} {targets : List MemoryAccessTarget} (hne : targets ≠ [])
    {R : ReadResponses} (hR : ∀ k, R.find? k = targets[k]?.map fun t => List.replicate (packetCount w t) none)
    (hsmall : (loadReads w q 0 targets).flatten.length < 2 ^ 16) {xs : List Tag}
    (hxs : xs.Perm ((loadReads w q 0 targets).flatten.map MemPacket.tag)) :
    LoadWaiting w q targets xs (loadReads w q 0 targets).flatten.length R []
      (Cells.unfilled (loadReads w q 0 targets)) where
  requests := by simp [Cells.unfilled, List.map_map, Function.comp_def]
  responses := by
    intro row hrow c hc p hp
    obtain ⟨L, -, rfl⟩ := List.mem_map.1 hrow
    obtain ⟨x, -, rfl⟩ := List.mem_map.1 hc
    cases hp
  small := (Cells.length_flatten_unfilled _).symm ▸ hsmall
  slots := fun k => by
    rw [hR, Cells.unfilled, List.getElem?_map, getElem?_loadReads]
    cases targets[k]? <;> simp [Function.comp_def, length_targetReads]
  counter := by simp
  pending := by simpa using loadReads_ne_nil hne
  outstanding := by simpa using hxs
  delivered := by simp

/-- The calls the spec asks for when load `q` is supplied with the responses
`resp`: for each address, a `supplyData` at the address with `joinSplits` of
that address's responses. -/
def supplyCalls (q : Nat) (targets : List MemoryAccessTarget) (resp : List (List MemPacket)) :
    List InsnCall :=
  (targets.zip resp).map fun tp => .supplyData q tp.1.vaddr (joinSplits tp.2)

/-- Load `q` has been supplied. `resp` are its responses: for each address,
in split order, one per request and with its request's tag. The calls made
on the load are one `supplyData` per address, at that address, with
`joinSplits` of its responses. -/
structure LoadSupplied (w q : Nat) (targets : List MemoryAccessTarget) (dl : List MemPacket)
    (cl : List InsnCall) (resp : List (List MemPacket)) : Prop where
  responses : List.Forall₂ (List.Forall₂ fun p t =>
    p.tag = t.tag ∧ (p.isFaulty = false → p.payload.length = p.size)) resp (loadReads w q 0 targets)
  delivered : dl.Perm resp.flatten
  calls : cl = supplyCalls q targets resp

/-- What the books say about load `q`. They are read through its reads still
outstanding `xs`, its entries `rl` and `rr` in `requestedLoads_` and
`readResponses_`, its delivered responses `dl` and the `supplyData` calls
`cl` on it. The load is not requested yet; waiting; supplied, with its
entries erased; or, with no address, registered with nothing to wait for. -/
def LoadPhase (w q : Nat) (targets : List MemoryAccessTarget) (xs : List Tag) (rl : Option Nat)
    (rr : Option ReadResponses) (dl : List MemPacket) (cl : List InsnCall) : Prop :=
  (xs = [] ∧ rl = none ∧ rr = none ∧ dl = [] ∧ cl = []) ∨
  (∃ n R C, rl = some n ∧ rr = some R ∧ cl = [] ∧ LoadWaiting w q targets xs n R dl C) ∨
  (xs = [] ∧ rl = none ∧ rr = none ∧ ∃ resp, LoadSupplied w q targets dl cl resp) ∨
  (targets = [] ∧ xs = [] ∧ rl = some 0 ∧ rr = none ∧ dl = [] ∧ cl = [])

/-- What the books say about store-conditional `q`. It is not requested yet;
or it is waiting, with its entry counting its outstanding writes and noting
whether a delivered response failed; or it has been reported once, after its
last response, with success when none of them failed; or, with no write, it
is registered with nothing to wait for. -/
def StorePhase (q : Nat) (xs : List Tag) (entry : Option StoreEntry) (dl : List MemPacket)
    (cl : List InsnCall) : Prop :=
  (xs = [] ∧ entry = none ∧ dl = [] ∧ cl = []) ∨
  (xs ≠ [] ∧ xs.length < 2 ^ 16 ∧ entry = some ⟨xs.length, dl.any (·.hasFailed)⟩ ∧ cl = []) ∨
  (xs = [] ∧ dl ≠ [] ∧ entry = some ⟨0, dl.any (·.hasFailed)⟩ ∧
    cl = [.updateCondStoreResult q !(dl.any (·.hasFailed))]) ∨
  (xs = [] ∧ dl = [] ∧ entry = some ⟨0, false⟩ ∧ cl = [])

/-- The books' part about instruction `q`, against the tags `X` of the
outstanding packets: its load phase and, for a store-conditional, its store
phase. -/
def LedgerAt (limits : Limits) (heap : Heap) (X : List Tag) (b : Books) (q : Nat) : Prop :=
  LoadPhase limits.cacheLineWidth q (heap q).generatedAddresses (X.filter (·.readOf q))
      (b.requestedLoads q) (b.readResponses q) (b.delivered.filter (·.tag.readOf q))
      (b.insnCalls.filter (·.suppliesTo q)) ∧
    ((heap q).isStoreCond = true → StorePhase q (X.filter (·.writeOf q)) (b.requestedStores q)
      (b.delivered.filter (·.tag.writeOf q)) (b.insnCalls.filter (·.reportsTo q)))

/-- The books against the tags `X` of the outstanding packets: every load and
every store-conditional is in one of its phases. -/
def Ledger (limits : Limits) (heap : Heap) (X : List Tag) (b : Books) : Prop :=
  ∀ q, LedgerAt limits heap X b q

section Perm

variable {w q : Nat} {targets : List MemoryAccessTarget} {xs xs' : List Tag} {rl : Option Nat}
  {rr : Option ReadResponses} {entry : Option StoreEntry} {dl : List MemPacket} {cl : List InsnCall}

theorem LoadPhase.perm (h : xs.Perm xs') (hp : LoadPhase w q targets xs rl rr dl cl) :
    LoadPhase w q targets xs' rl rr dl cl := by
  rcases hp with ⟨rfl, h₁⟩ | ⟨n, R, C, h₁, h₂, h₃, hw⟩ | ⟨rfl, h₁⟩ | ⟨h₀, rfl, h₁⟩
  · exact .inl ⟨h.symm.eq_nil, h₁⟩
  · exact .inr (.inl ⟨n, R, C, h₁, h₂, h₃, { hw with outstanding := h.symm.trans hw.outstanding }⟩)
  · exact .inr (.inr (.inl ⟨h.symm.eq_nil, h₁⟩))
  · exact .inr (.inr (.inr ⟨h₀, h.symm.eq_nil, h₁⟩))

/-- A load with no entry in `requestedLoads_` and no `supplyData` call has
nothing outstanding, no response slots and no delivered response. -/
theorem LoadPhase.fresh (hp : LoadPhase w q targets xs rl rr dl cl) (hrl : rl = none) (hcl : cl = []) :
    xs = [] ∧ rr = none ∧ dl = [] := by
  rcases hp with ⟨h₁, -, h₂, h₃, -⟩ | ⟨n, -, -, h, -⟩ | ⟨h₁, -, h₂, resp, hs⟩ | ⟨-, -, h, -⟩
  · exact ⟨h₁, h₂, h₃⟩
  · rw [hrl] at h; cases h
  · refine ⟨h₁, h₂, ?_⟩
    have hlen := hs.responses.length_eq
    rw [length_loadReads] at hlen
    have hnil : (targets.zip resp).map (fun tp => InsnCall.supplyData q tp.1.vaddr (joinSplits tp.2)) = [] :=
      hcl ▸ hs.calls.symm
    rw [List.map_eq_nil_iff, List.zip_eq_nil_iff] at hnil
    have hresp : resp = [] := by
      rcases hnil with rfl | rfl
      · exact List.length_eq_zero.1 (hlen.trans rfl)
      · rfl
    simpa [hresp] using hs.delivered
  · rw [hrl] at h; cases h

/-- A store-conditional with no entry in `requestedStores_` has nothing
outstanding, no delivered response and no report. -/
theorem StorePhase.fresh (hp : StorePhase q xs entry dl cl) (he : entry = none) : xs = [] ∧ dl = [] ∧ cl = [] := by
  rcases hp with ⟨h₁, -, h₂, h₃⟩ | ⟨-, -, h, -⟩ | ⟨-, -, h, -⟩ | ⟨-, -, h, -⟩
  · exact ⟨h₁, h₂, h₃⟩
  all_goals rw [he] at h; cases h

theorem StorePhase.perm (h : xs.Perm xs') (hp : StorePhase q xs entry dl cl) :
    StorePhase q xs' entry dl cl := by
  have hl := h.length_eq
  have hn : xs = [] ↔ xs' = [] := by constructor <;> rintro rfl <;> simp_all
  unfold StorePhase at hp ⊢
  rw [ne_eq, ← hl, ← hn]
  exact hp

theorem Ledger.perm {limits : Limits} {heap : Heap} {X X' : List Tag} {b : Books} (h : X.Perm X')
    (hl : Ledger limits heap X b) : Ledger limits heap X' b := fun q =>
  ⟨(hl q).1.perm (h.filter _), fun hc => ((hl q).2 hc).perm (h.filter _)⟩

end Perm

end SimEng.Memory
