import Mathlib.Data.List.Forall2
import SimEng.Memory.Ledger

/-!
# SimEng — the receiver files each response in the books

The port's receiver takes one response at a time, in any order. Against the
books (`Ledger`), a response to an outstanding packet is always accepted,
and afterwards the books hold with that packet no longer outstanding:

* a data read goes to its slot, found by its address index and split
  number, and its load's counter drops; at the load's last response
  `supplyLoadInsnData` supplies every address with `joinSplits` of its
  responses in split order, and erases the load's entries;
* a data write is counted off its store; a store-conditional's last
  response reports whether any of its writes failed;
* an instruction read leaves no trace in the books.

Main results:

* `receiveRead_ledger` — filing a data read, and the supply at the last one;
* `receiveWrite_ledger` — filing a data write, and the report at the last
  one of a store-conditional;
* `receiver_ledger` — the receiver accepts every outstanding response.
-/

namespace SimEng.Memory

open MemPacket

namespace Tag

theorem readOf_of_ne {x : Tag} {q : Nat} (h : x.insnSeqId ≠ q) : x.readOf q = false := by
  simp [readOf, h]

theorem writeOf_of_ne {x : Tag} {q : Nat} (h : x.insnSeqId ≠ q) : x.writeOf q = false := by
  simp [writeOf, h]

theorem eq_of_readOf {x : Tag} {q : Nat} (h : x.readOf q = true) : x.insnSeqId = q := by
  simp only [readOf, Bool.and_eq_true, beq_iff_eq] at h; exact h.2

theorem eq_of_writeOf {x : Tag} {q : Nat} (h : x.writeOf q = true) : x.insnSeqId = q := by
  simp only [writeOf, Bool.and_eq_true, beq_iff_eq] at h; exact h.2

end Tag

/-! ## One instruction's part of the books -/

/-- Two books agree on load `q`, against outstanding tags `X` and `X'`. -/
structure SameLoad (X X' : List Tag) (b b' : Books) (q : Nat) : Prop where
  reads : X'.filter (·.readOf q) = X.filter (·.readOf q)
  requestedLoads : b'.requestedLoads q = b.requestedLoads q
  readResponses : b'.readResponses q = b.readResponses q
  delivered : b'.delivered.filter (·.tag.readOf q) = b.delivered.filter (·.tag.readOf q)
  supplies : b'.insnCalls.filter (·.suppliesTo q) = b.insnCalls.filter (·.suppliesTo q)

/-- Two books agree on store `q`, against outstanding tags `X` and `X'`. -/
structure SameStore (X X' : List Tag) (b b' : Books) (q : Nat) : Prop where
  writes : X'.filter (·.writeOf q) = X.filter (·.writeOf q)
  requestedStores : b'.requestedStores q = b.requestedStores q
  delivered : b'.delivered.filter (·.tag.writeOf q) = b.delivered.filter (·.tag.writeOf q)
  reports : b'.insnCalls.filter (·.reportsTo q) = b.insnCalls.filter (·.reportsTo q)

variable {limits : Limits} {heap : Heap}


theorem SameLoad.phase {X X' : List Tag} {b b' : Books} {q : Nat} (h : SameLoad X X' b b' q)
    (hp : LoadPhase limits.cacheLineWidth q (heap q).generatedAddresses (X.filter (·.readOf q))
      (b.requestedLoads q) (b.readResponses q) (b.delivered.filter (·.tag.readOf q))
      (b.insnCalls.filter (·.suppliesTo q))) :
    LoadPhase limits.cacheLineWidth q (heap q).generatedAddresses (X'.filter (·.readOf q))
      (b'.requestedLoads q) (b'.readResponses q) (b'.delivered.filter (·.tag.readOf q))
      (b'.insnCalls.filter (·.suppliesTo q)) := by
  rw [h.reads, h.requestedLoads, h.readResponses, h.delivered, h.supplies]; exact hp

theorem SameStore.phase {X X' : List Tag} {b b' : Books} {q : Nat} (h : SameStore X X' b b' q)
    (hp : StorePhase q (X.filter (·.writeOf q)) (b.requestedStores q) (b.delivered.filter (·.tag.writeOf q))
      (b.insnCalls.filter (·.reportsTo q))) :
    StorePhase q (X'.filter (·.writeOf q)) (b'.requestedStores q) (b'.delivered.filter (·.tag.writeOf q))
      (b'.insnCalls.filter (·.reportsTo q)) := by
  rw [h.writes, h.requestedStores, h.delivered, h.reports]; exact hp

theorem LedgerAt.congr {X X' : List Tag} {b b' : Books} {q : Nat} (hL : SameLoad X X' b b' q)
    (hS : (heap q).isStoreCond = true → SameStore X X' b b' q)
    (hl : LedgerAt limits heap X b q) : LedgerAt limits heap X' b' q :=
  ⟨hL.phase hl.1, fun hc => (hS hc).phase (hl.2 hc)⟩

/-- The books change at instruction `q₀` only. -/
theorem Ledger.update {X X' : List Tag} {b b' : Books} (q₀ : Nat)
    (hL : ∀ q, q ≠ q₀ → SameLoad X X' b b' q) (hS : ∀ q, q ≠ q₀ → SameStore X X' b b' q)
    (h₀ : LedgerAt limits heap X' b' q₀) (hl : Ledger limits heap X b) : Ledger limits heap X' b' := fun q => by
  by_cases hq : q = q₀
  · subst hq; exact h₀
  · exact (hl q).congr (hL q hq) fun _ => hS q hq

/-- A packet that is neither a data read nor a data write, or a data write of
an instruction whose store the books do not follow, leaves no trace in
them. -/
theorem Ledger.drop_untracked {X : List Tag} {b : Books} {p : MemPacket}
    (hr : ∀ q, p.tag.readOf q = false) (hw : ∀ q, (heap q).isStoreCond = true → p.tag.writeOf q = false)
    (hl : Ledger limits heap (p.tag :: X) b) :
    Ledger limits heap X { b with delivered := b.delivered ++ [p] } := fun q => by
  refine (hl q).congr ?_ fun hc => ?_
  · exact ⟨(List.filter_cons_of_neg (by simp [hr q])).symm, rfl, rfl, by simp [hr q], rfl⟩
  · exact ⟨(List.filter_cons_of_neg (by simp [hw q hc])).symm, rfl, by simp [hw q hc], rfl⟩

/-! ## Filing a load's response -/

section Fill

variable {w q : Nat} {targets : List MemoryAccessTarget} {xs : List Tag} {n : Nat} {R : ReadResponses}
  {dl : List MemPacket} {C : Cells} {p t : MemPacket} {i j : Nat} {row : List (MemPacket × Option MemPacket)}

theorem set_self_of_getElem? {α : Type} {l : List α} {k : Nat} {a : α} (h : l[k]? = some a) :
    l.set k a = l := by
  apply List.ext_getElem?
  intro m
  rw [List.getElem?_set]
  split_ifs with h₁ h₂
  · subst h₁; exact h.symm
  · exact absurd (List.getElem?_eq_some_iff.1 h).1 h₂
  · rfl

/-- The response `p` of a waiting load finds the slot of its request: at the
address of index `p.packetOrderId`, split `p.packetSplitId`. -/
theorem LoadWaiting.locate (hw : LoadWaiting w q targets (p.tag :: xs) n R dl C) :
    ∃ row t, C[p.packetOrderId]? = some row ∧ row[p.packetSplitId]? = some (t, none) ∧ t.tag = p.tag := by
  obtain ⟨x, hx, hxt⟩ := List.mem_map.1 (hw.outstanding.subset (List.mem_cons_self _ _))
  obtain ⟨i, j, row, hrow, hc⟩ := Cells.exists_of_mem_holes hx
  have hT : (loadReads w q 0 targets)[i]? = some (row.map Prod.fst) := by
    rw [← hw.requests, List.getElem?_map, hrow, Option.map_some']
  rw [getElem?_loadReads] at hT
  obtain ⟨target, -, htr⟩ := Option.map_eq_some'.1 hT
  have hx' : (targetReads w q (0 + i) target)[j]? = some x := by rw [htr, List.getElem?_map, hc]; rfl
  obtain ⟨-, hi, hj⟩ := tag_targetReads hx'
  have ho : p.packetOrderId = i := by
    have := congrArg Tag.packetOrderId hxt; simp only [MemPacket.tag] at this; omega
  have hs : p.packetSplitId = j := by
    have := congrArg Tag.packetSplitId hxt; simp only [MemPacket.tag] at this; omega
  exact ⟨row, x, ho ▸ hrow, hs ▸ hc, hxt⟩

variable (hrow : C[i]? = some row) (hc : row[j]? = some (t, none))
include hrow hc

theorem set_requests : (C.set i (row.set j (t, some p))).map (List.map Prod.fst) = C.map (List.map Prod.fst) := by
  have hr : (row.map Prod.fst)[j]? = some t := by rw [List.getElem?_map, hc]; rfl
  have hC : (C.map (List.map Prod.fst))[i]? = some (row.map Prod.fst) := by
    rw [List.getElem?_map, hrow]; rfl
  rw [List.map_set, List.map_set, set_self_of_getElem? hr, set_self_of_getElem? hC]

omit hc in
theorem set_slots (hs : ∀ k, R.find? k = C[k]?.map (List.map Prod.snd)) (k : Nat) :
    (R.assign i ((row.map Prod.snd).set j (some p))).find? k =
      (C.set i (row.set j (t, some p)))[k]?.map (List.map Prod.snd) := by
  have hi : i < C.length := (List.getElem?_eq_some_iff.1 hrow).1
  rw [OrderedMap.find?_assign, List.getElem?_set, hs k]
  by_cases hk : k = i
  · subst hk; simp [hi, List.map_set]
  · simp [hk, Ne.symm hk]

omit hc in
theorem set_responses (hpay : p.isFaulty = false → p.payload.length = p.size) (ht : t.tag = p.tag)
    (hr : ∀ row ∈ C, ∀ c ∈ row, ∀ x, c.2 = some x → x.tag = c.1.tag ∧ (x.isFaulty = false → x.payload.length = x.size)) :
    ∀ row' ∈ C.set i (row.set j (t, some p)), ∀ c ∈ row', ∀ x, c.2 = some x →
      x.tag = c.1.tag ∧ (x.isFaulty = false → x.payload.length = x.size) := by
  intro row' hrow' c hc' x hx
  rcases List.mem_or_eq_of_mem_set hrow' with hrow' | rfl
  · exact hr row' hrow' c hc' x hx
  · rcases List.mem_or_eq_of_mem_set hc' with hc' | rfl
    · exact hr row (List.mem_iff_getElem?.2 ⟨i, hrow⟩) c hc' x hx
    · cases hx; exact ⟨ht.symm, hpay⟩

theorem length_holes_set : (Cells.holes (C.set i (row.set j (t, some p)))).length + 1 = C.holes.length := by
  simpa using (@Cells.holes_set_perm C i j row t p hrow hc).length_eq

theorem length_flatten_set : (C.set i (row.set j (t, some p))).flatten.length = C.flatten.length := by
  have h₀ : (C.set i (row.set j (t, some p))).map (List.map Prod.fst) = C.map (List.map Prod.fst) :=
    set_requests hrow hc
  have h := congrArg (fun L : List (List MemPacket) => L.flatten.length) h₀
  simpa [List.length_flatten, List.map_map, Function.comp_def] using h

/-- The response leaves the load's other reads outstanding: those of the
slots still empty. -/
theorem LoadWaiting.fill_outstanding (hw : LoadWaiting w q targets (p.tag :: xs) n R dl C) (ht : t.tag = p.tag) :
    xs.Perm ((Cells.holes (C.set i (row.set j (t, some p)))).map MemPacket.tag) := by
  have h₀ : (Cells.holes (C.set i (row.set j (t, some p))) ++ [t]).Perm C.holes := Cells.holes_set_perm hrow hc
  have h := (h₀.map MemPacket.tag).symm
  rw [List.map_append, List.map_singleton, ht] at h
  exact (hw.outstanding.trans (h.trans (List.perm_append_singleton _ _))).cons_inv

theorem LoadWaiting.fill_delivered (hw : LoadWaiting w q targets xs n R dl C) :
    (dl ++ [p]).Perm (Cells.filled (C.set i (row.set j (t, some p)))) :=
  (hw.delivered.append_right [p]).trans (Cells.filled_set_perm hrow hc).symm

/-- A response that is not the load's last leaves it waiting, with one slot
less to fill. -/
theorem LoadWaiting.fill_waiting (hw : LoadWaiting w q targets (p.tag :: xs) n R dl C)
    (hpay : p.isFaulty = false → p.payload.length = p.size) (ht : t.tag = p.tag)
    (hne : Cells.holes (C.set i (row.set j (t, some p))) ≠ []) :
    LoadWaiting w q targets xs (Cells.holes (C.set i (row.set j (t, some p)))).length
      (R.assign i ((row.map Prod.snd).set j (some p))) (dl ++ [p]) (C.set i (row.set j (t, some p))) where
  requests := (set_requests hrow hc).trans hw.requests
  responses := set_responses hrow hpay ht hw.responses
  small := (length_flatten_set hrow hc).symm ▸ hw.small
  slots := set_slots hrow hw.slots
  counter := rfl
  pending := hne
  outstanding := hw.fill_outstanding hrow hc ht
  delivered := hw.fill_delivered hrow hc

end Fill

/-! ## The last response -/

section Last

variable {w q : Nat}

/-- The responses of a row whose slots are all filled, each with its
request's tag. -/
theorem forall₂_filled {row : List (MemPacket × Option MemPacket)} (hall : ∀ c ∈ row, c.2.isSome)
    (hr : ∀ c ∈ row, ∀ x, c.2 = some x → x.tag = c.1.tag ∧ (x.isFaulty = false → x.payload.length = x.size)) :
    List.Forall₂ (fun p t => p.tag = t.tag ∧ (p.isFaulty = false → p.payload.length = p.size))
      (row.filterMap Prod.snd) (row.map Prod.fst) := by
  induction row with
  | nil => exact .nil
  | cons c rest ih =>
    obtain ⟨t, o⟩ := c
    obtain ⟨x, rfl⟩ := Option.isSome_iff_exists.1 (hall _ (List.mem_cons_self _ _))
    exact .cons (hr _ (List.mem_cons_self _ _) x rfl)
      (ih (fun c hc => hall c (List.mem_cons_of_mem _ hc)) fun c hc => hr c (List.mem_cons_of_mem _ hc))

theorem forall_of_forall₂ {α β : Type} {F : α → β → Prop} {P : α → Prop} (hF : ∀ a b, F a b → P a)
    {l₁ : List α} {l₂ : List β} (h : List.Forall₂ F l₁ l₂) : ∀ a ∈ l₁, P a := by
  induction h with
  | nil => simp
  | cons hab _ ih =>
    intro a ha
    rcases List.mem_cons.1 ha with rfl | ha
    exacts [hF _ _ hab, ih a ha]

/-- Responses with their requests' tags have their requests' sizes. -/
theorem sizes_eq_of_forall₂ {F : MemPacket → MemPacket → Prop} (hF : ∀ p t, F p t → p.tag = t.tag ∧ True)
    {ps ts : List MemPacket} (h : List.Forall₂ F ps ts) : ps.map (·.size) = ts.map (·.size) := by
  induction h with
  | nil => rfl
  | cons hpt _ ih =>
    have := congrArg Tag.size (hF _ _ hpt).1
    simp only [MemPacket.tag] at this
    simp [this, ih]

/-- The slots of a load whose responses have all come, read from index `k`:
the call `supplyLoadInsnData` makes for each address is a `supplyData` at the
address with `joinSplits` of its responses. -/
theorem forall₂_supplyTarget :
    ∀ {targets : List MemoryAccessTarget} {k : Nat} {D : Cells},
      D.map (List.map Prod.fst) = loadReads w q k targets →
      (∀ row ∈ D, ∀ c ∈ row, c.2.isSome) →
      (∀ row ∈ D, ∀ c ∈ row, ∀ x, c.2 = some x →
        x.tag = c.1.tag ∧ (x.isFaulty = false → x.payload.length = x.size)) →
      List.Forall₂ (fun row c => MMU.supplyTarget q row = .ok c) (D.map (List.map Prod.snd))
        (supplyCalls q targets (D.map (List.filterMap Prod.snd)))
  | [], _, D, hD, _, _ => by
    rw [loadReads, List.map_eq_nil_iff] at hD
    subst hD; exact .nil
  | target :: rest, k, D, hD, hall, hr => by
    obtain ⟨row, D', rfl⟩ : ∃ row D', D = row :: D' := by
      cases D with
      | nil => cases hD
      | cons row D' => exact ⟨row, D', rfl⟩
    simp only [loadReads, List.map_cons, List.cons.injEq] at hD
    refine .cons ?_ (forall₂_supplyTarget hD.2 (fun r hr' => hall r (List.mem_cons_of_mem _ hr'))
      fun r hr' => hr r (List.mem_cons_of_mem _ hr'))
    have hrow := forall₂_filled (hall row (List.mem_cons_self _ _)) (hr row (List.mem_cons_self _ _))
    rw [hD.1] at hrow
    have hsnd : row.map Prod.snd = (row.filterMap Prod.snd).map some :=
      Cells.slots_of_holes_eq_nil (C := [row]) (by
        simp only [Cells.holes, List.flatten_cons, List.flatten_nil, List.append_nil,
          List.filterMap_eq_nil_iff]
        intro c hc
        simp [Option.isSome_iff_ne_none.1 (hall row (List.mem_cons_self _ _) c hc)]) row
        (List.mem_singleton_self _)
    obtain ⟨t₀, ts, hts, hv⟩ := @targetReads_head w q k target
    rw [hts] at hrow
    obtain ⟨p₀, ps, -, -, hps⟩ := List.forall₂_cons_right_iff.1 hrow
    rw [hps] at hrow hsnd
    have hsizes := sizes_eq_of_forall₂ (fun _ _ h => ⟨h.1, trivial⟩) hrow
    have hsum : ((p₀ :: ps).map (·.size)).sum < 2 ^ 16 := by
      rw [hsizes, ← hts, sum_sizes_targetReads]; exact target.size_lt
    have hvaddr : p₀.vaddr = target.vaddr := by
      obtain ⟨h₀, -⟩ := (List.forall₂_cons.1 hrow).1
      have := congrArg Tag.vaddr h₀
      simp only [MemPacket.tag] at this
      rw [this, hv]
    have hpay : ∀ x ∈ p₀ :: ps, x.isFaulty = false → x.payload.length = x.size :=
      forall_of_forall₂ (fun _ _ h => h.2) hrow
    rw [hsnd, hps, MMU.supplyTarget_some hsum hpay, hvaddr]

/-- A load whose responses have all come: `supplyLoadInsnData`'s loop
succeeds with the spec's calls, and the load is supplied. -/
theorem supplied_of_filled {targets : List MemoryAccessTarget} {D : Cells} {R : ReadResponses}
    {dl : List MemPacket} (hreq : D.map (List.map Prod.fst) = loadReads w q 0 targets)
    (hr : ∀ row ∈ D, ∀ c ∈ row, ∀ x, c.2 = some x →
      x.tag = c.1.tag ∧ (x.isFaulty = false → x.payload.length = x.size))
    (hnil : D.holes = []) (hs : ∀ k, R.find? k = D[k]?.map (List.map Prod.snd)) (hd : dl.Perm D.filled) :
    MMU.supplyTargets q R (List.range R.size) = .ok (supplyCalls q targets (D.map (List.filterMap Prod.snd))) ∧
      LoadSupplied w q targets dl (supplyCalls q targets (D.map (List.filterMap Prod.snd)))
        (D.map (List.filterMap Prod.snd)) := by
  have hall : ∀ row ∈ D, ∀ c ∈ row, c.2.isSome := fun row hrow c hc => by
    have := List.filterMap_eq_nil_iff.1 hnil c (List.mem_flatten.2 ⟨row, hrow, hc⟩)
    cases hc2 : c.2 <;> simp_all
  have hsize : R.size = (D.map (List.map Prod.snd)).length := by
    refine OrderedMap.size_eq_of_find? fun k => ?_
    rw [hs k, Option.isSome_map', List.length_map]
    by_cases hk : k < D.length
    · simp [List.getElem?_eq_getElem hk, hk]
    · simp [List.getElem?_eq_none (Nat.le_of_not_lt hk), hk]
  refine ⟨?_, ⟨?_, hd.trans (by rw [Cells.filled, List.filterMap_flatten]), rfl⟩⟩
  · rw [hsize, List.range_eq_range']
    refine MMU.supplyTargets_of_rows (fun k h => ?_) (forall₂_supplyTarget hreq hall hr)
    have hk : k < D.length := by simpa using h
    rw [Nat.zero_add, hs k, List.getElem?_eq_getElem hk]
    simp
  · rw [← hreq, List.forall₂_map_left_iff, List.forall₂_map_right_iff, List.forall₂_same]
    exact fun row hrow => forall₂_filled (hall row hrow) (hr row hrow)

end Last

/-! ## The receiver -/

@[simp] theorem filter_suppliesTo_supplyCalls (q q' : Nat) (targets : List MemoryAccessTarget)
    (resp : List (List MemPacket)) :
    (supplyCalls q targets resp).filter (·.suppliesTo q') = if q = q' then supplyCalls q targets resp else [] := by
  by_cases h : q = q' <;> simp [supplyCalls, List.filter_map, Function.comp_def, InsnCall.suppliesTo, h]

@[simp] theorem filter_reportsTo_supplyCalls (q q' : Nat) (targets : List MemoryAccessTarget)
    (resp : List (List MemPacket)) : (supplyCalls q targets resp).filter (·.reportsTo q') = [] := by
  simp [supplyCalls, List.filter_map, Function.comp_def, InsnCall.reportsTo]

/-- The spec's calls on load `q`, one per address, count at each address as
many calls as the load has addresses there. -/
theorem countP_suppliesAt_supplyCalls {q a : Nat} {targets : List MemoryAccessTarget}
    {resp : List (List MemPacket)} (hlen : targets.length ≤ resp.length) :
    (supplyCalls q targets resp).countP (·.suppliesAt q a) = (targets.map (·.vaddr)).count a := by
  calc (supplyCalls q targets resp).countP (·.suppliesAt q a)
      = ((targets.zip resp).map Prod.fst).countP (·.vaddr == a) := by
        simp [supplyCalls, List.countP_map, InsnCall.suppliesAt, Function.comp_def]
    _ = (targets.map (·.vaddr)).count a := by
        rw [List.map_fst_zip _ _ hlen, List.count, List.countP_map]
        rfl

/-- **A load supplied by the spec's calls has all its data.** -/
theorem hasAllData_supplyCalls {q : Nat} (calls : List InsnCall) {resp : List (List MemPacket)}
    (hlen : (heap q).generatedAddresses.length ≤ resp.length) :
    MMU.hasAllData heap q (calls ++ supplyCalls q (heap q).generatedAddresses resp) = true := by
  simp only [MMU.hasAllData, List.all_eq_true, decide_eq_true_eq, List.countP_append]
  intro a _
  rw [countP_suppliesAt_supplyCalls hlen]
  exact Nat.le_add_left _ _

namespace MMU

variable {s : MMU}

/-- The receiver's branch for a data read of a load registered with counter
`n`, whose response slots at the packet's address are `row`. -/
theorem receiveRead_eq {p : MemPacket} {n : Nat} {R : ReadResponses} {row : List (Option MemPacket)}
    (hn : s.requestedLoads p.insnSeqId = some n) (hR : s.readResponses p.insnSeqId = some R)
    (hfind : R.find? p.packetOrderId = some row) (hj : p.packetSplitId < row.length) :
    s.receiveRead heap p =
      if (n + (2 ^ 16 - 1)) % 2 ^ 16 = 0 then
        { s with
          readResponses := Function.update s.readResponses p.insnSeqId
            (some (R.assign p.packetOrderId (row.set p.packetSplitId (some p))))
          requestedLoads := Function.update s.requestedLoads p.insnSeqId
            (some ((n + (2 ^ 16 - 1)) % 2 ^ 16)) }.supplyLoadInsnData heap p.insnSeqId
      else .ok { s with
          readResponses := Function.update s.readResponses p.insnSeqId
            (some (R.assign p.packetOrderId (row.set p.packetSplitId (some p))))
          requestedLoads := Function.update s.requestedLoads p.insnSeqId
            (some ((n + (2 ^ 16 - 1)) % 2 ^ 16)) } := by
  simp only [receiveRead, hn, hR, hfind, Option.getD_some, hj, if_true]

theorem supplyLoadInsnData_eq {q n : Nat} {R : ReadResponses} {calls : List InsnCall}
    (hn : s.requestedLoads q = some n) (hR : s.readResponses q = some R)
    (hc : supplyTargets q R (List.range R.size) = .ok calls)
    (hall : hasAllData heap q (s.insnCalls ++ calls) = true) :
    s.supplyLoadInsnData heap q = .ok { s with
      insnCalls := s.insnCalls ++ calls
      requestedLoads := Function.update s.requestedLoads q none
      readResponses := Function.update s.readResponses q none } := by
  simp only [supplyLoadInsnData, hn, hR, hc, hall, bind, Except.bind, pure, Except.pure, if_true]

/-- Filing a data read of instruction `p.insnSeqId` keeps every store's
books, and every other load's; the books hold when the load's own are in
a phase. -/
theorem Ledger.fileRead {X : List Tag} {b b' : Books} {p : MemPacket} (calls : List InsnCall)
    (hread : p.isRead = true) (hcalls : ∀ q, calls.filter (·.reportsTo q) = [] ∧
      (q ≠ p.insnSeqId → calls.filter (·.suppliesTo q) = []))
    (hL : ∀ q, q ≠ p.insnSeqId → b'.requestedLoads q = b.requestedLoads q ∧ b'.readResponses q = b.readResponses q)
    (hS : b'.requestedStores = b.requestedStores) (hd : b'.delivered = b.delivered ++ [p])
    (hc : b'.insnCalls = b.insnCalls ++ calls)
    (h₀ : LoadPhase limits.cacheLineWidth p.insnSeqId (heap p.insnSeqId).generatedAddresses
      (X.filter (·.readOf p.insnSeqId)) (b'.requestedLoads p.insnSeqId) (b'.readResponses p.insnSeqId)
      (b'.delivered.filter (·.tag.readOf p.insnSeqId)) (b'.insnCalls.filter (·.suppliesTo p.insnSeqId)))
    (hl : Ledger limits heap (p.tag :: X) b) : Ledger limits heap X b' := by
  have hw : ∀ q, p.tag.writeOf q = false := fun q => by simp [Tag.writeOf, MemPacket.tag, hread]
  have hS' : ∀ q, SameStore (p.tag :: X) X b b' q := fun q =>
    ⟨(List.filter_cons_of_neg (by simp [hw q])).symm, by rw [hS], by simp [hd, hw q], by simp [hc, (hcalls q).1]⟩
  refine Ledger.update p.insnSeqId (fun q hq => ⟨?_, (hL q hq).1, (hL q hq).2, ?_, ?_⟩) (fun q _ => hS' q)
    ⟨h₀, fun hsc => (hS' _).phase ((hl _).2 hsc)⟩ hl
  · exact (List.filter_cons_of_neg (by simp [@Tag.readOf_of_ne p.tag q (Ne.symm hq)])).symm
  · simp [hd, @Tag.readOf_of_ne p.tag q (Ne.symm hq)]
  · simp [hc, (hcalls q).2 hq]

/-- **Filing a data read.** The receiver files a data read of a waiting load
in its slot, and the load's counter drops. At the last response the load is
supplied with the spec's calls, and its entries are erased. -/
theorem receiveRead_ledger {b : Books} {p : MemPacket} {X : List Tag}
    (hb : s.books = { b with delivered := b.delivered ++ [p] }) (hl : Ledger limits heap (p.tag :: X) b)
    (hread : p.isRead = true) (hdata : p.isInstrRead = false)
    (hpay : p.isFaulty = false → p.payload.length = p.size) :
    ∃ s', s.receiveRead heap p = .ok s' ∧ Ledger limits heap X s'.books := by
  have hrq : p.tag.readOf p.insnSeqId = true := by simp [Tag.readOf, MemPacket.tag, hread, hdata]
  obtain ⟨hload, hstore⟩ := hl p.insnSeqId
  rw [List.filter_cons_of_pos hrq] at hload
  obtain ⟨n, R, C, hn, hR, hcl, hw⟩ : ∃ n R C, b.requestedLoads p.insnSeqId = some n ∧
      b.readResponses p.insnSeqId = some R ∧ b.insnCalls.filter (·.suppliesTo p.insnSeqId) = [] ∧
      LoadWaiting limits.cacheLineWidth p.insnSeqId (heap p.insnSeqId).generatedAddresses
        (p.tag :: X.filter (·.readOf p.insnSeqId)) n R (b.delivered.filter (·.tag.readOf p.insnSeqId)) C := by
    rcases hload with ⟨h, -⟩ | h | ⟨h, -⟩ | ⟨-, h, -⟩
    · cases h
    · exact h
    · cases h
    · cases h
  obtain ⟨row, t, hrow, hc, ht⟩ := hw.locate
  have hfind : R.find? p.packetOrderId = some (row.map Prod.snd) := by rw [hw.slots, hrow]; rfl
  have hj : p.packetSplitId < (row.map Prod.snd).length := by
    simpa using (List.getElem?_eq_some_iff.1 hc).1
  have hsn : s.requestedLoads = b.requestedLoads := congrArg Books.requestedLoads hb
  have hsR : s.readResponses = b.readResponses := congrArg Books.readResponses hb
  have hsS : s.requestedStores = b.requestedStores := congrArg Books.requestedStores hb
  have hsd : s.delivered = b.delivered ++ [p] := congrArg Books.delivered hb
  have hsc : s.insnCalls = b.insnCalls := congrArg Books.insnCalls hb
  rw [receiveRead_eq (hsn ▸ hn) (hsR ▸ hR) hfind hj]
  set C' := C.set p.packetOrderId (row.set p.packetSplitId (t, some p))
  have hlen : (Cells.holes C').length + 1 =
      C.holes.length := length_holes_set hrow hc
  have hsmall := lt_of_le_of_lt Cells.length_holes_le hw.small
  rw [show (n + (2 ^ 16 - 1)) % 2 ^ 16 =
      (Cells.holes C').length by
    rw [hw.counter]; omega]
  have hout := hw.fill_outstanding hrow hc ht
  have hdel : (b.delivered.filter (·.tag.readOf p.insnSeqId) ++ [p]).Perm
      (Cells.filled C') := hw.fill_delivered hrow hc
  by_cases hnil : Cells.holes C' = []
  · -- the last response: the load is supplied
    obtain ⟨hcalls, hsup⟩ := supplied_of_filled ((set_requests hrow hc).trans hw.requests)
      (set_responses hrow hpay ht hw.responses) hnil (set_slots hrow hw.slots) hdel
    have hlen : (heap p.insnSeqId).generatedAddresses.length ≤ (C'.map (List.filterMap Prod.snd)).length := by
      rw [hsup.responses.length_eq, length_loadReads]
    rw [hnil, List.length_nil, if_pos rfl, supplyLoadInsnData_eq (n := 0) (by simp) (by simp) hcalls
      (hasAllData_supplyCalls _ hlen)]
    refine ⟨_, rfl, ?_⟩
    refine Ledger.fileRead (supplyCalls p.insnSeqId (heap p.insnSeqId).generatedAddresses
      (C'.map (List.filterMap Prod.snd))) hread (fun q => ⟨by simp, fun hq => by simp [Ne.symm hq]⟩)
      (fun q hq => by simp [MMU.books, Function.update_noteq hq, hsn, hsR]) (by simp [MMU.books, hsS])
      (by simp [MMU.books, hsd]) (by simp [MMU.books, hsc, C']) ?_ hl
    refine .inr (.inr (.inl ⟨?_, by simp [MMU.books], by simp [MMU.books, C'],
      C'.map (List.filterMap Prod.snd), ?_⟩))
    · simpa [hnil] using hout
    · simpa [MMU.books, hsd, hrq, hsc, hcl, C'] using hsup
  · -- more responses to come: the load keeps waiting
    rw [if_neg (by simpa using hnil)]
    refine ⟨_, rfl, ?_⟩
    refine Ledger.fileRead [] hread (fun _ => ⟨rfl, fun _ => rfl⟩)
      (fun q hq => by simp [MMU.books, Function.update_noteq hq, hsn, hsR]) (by simp [MMU.books, hsS])
      (by simp [MMU.books, hsd]) (by simp [MMU.books, hsc]) ?_ hl
    refine .inr (.inl ⟨(Cells.holes C').length,
      R.assign p.packetOrderId ((row.map Prod.snd).set p.packetSplitId (some p)),
      C', by simp [MMU.books], by simp [MMU.books],
      by simpa [MMU.books, hsc] using hcl, ?_⟩)
    simpa [MMU.books, hsd, hrq] using hw.fill_waiting hrow hc hpay ht hnil

/-- Filing a data write of instruction `p.insnSeqId` keeps every load's
books, and every other store's; the books hold when the store's own are in
a phase. -/
theorem Ledger.fileWrite {X : List Tag} {b b' : Books} {p : MemPacket} (calls : List InsnCall)
    (hwrite : p.isRead = false) (hcalls : ∀ q, calls.filter (·.suppliesTo q) = [] ∧
      (q ≠ p.insnSeqId → calls.filter (·.reportsTo q) = []))
    (hL : b'.requestedLoads = b.requestedLoads) (hR : b'.readResponses = b.readResponses)
    (hS : ∀ q, q ≠ p.insnSeqId → b'.requestedStores q = b.requestedStores q)
    (hd : b'.delivered = b.delivered ++ [p]) (hc : b'.insnCalls = b.insnCalls ++ calls)
    (h₀ : (heap p.insnSeqId).isStoreCond = true → StorePhase p.insnSeqId (X.filter (·.writeOf p.insnSeqId))
      (b'.requestedStores p.insnSeqId) (b'.delivered.filter (·.tag.writeOf p.insnSeqId))
      (b'.insnCalls.filter (·.reportsTo p.insnSeqId)))
    (hl : Ledger limits heap (p.tag :: X) b) : Ledger limits heap X b' := by
  have hr : ∀ q, p.tag.readOf q = false := fun q => by simp [Tag.readOf, MemPacket.tag, hwrite]
  have hL' : ∀ q, SameLoad (p.tag :: X) X b b' q := fun q =>
    ⟨(List.filter_cons_of_neg (by simp [hr q])).symm, by rw [hL], by rw [hR], by simp [hd, hr q],
      by simp [hc, (hcalls q).1]⟩
  refine Ledger.update p.insnSeqId (fun q _ => hL' q) (fun q hq => ⟨?_, hS q hq, ?_, ?_⟩)
    ⟨(hL' _).phase (hl _).1, h₀⟩ hl
  · exact (List.filter_cons_of_neg (by simp [@Tag.writeOf_of_ne p.tag q (Ne.symm hq)])).symm
  · simp [hd, @Tag.writeOf_of_ne p.tag q (Ne.symm hq)]
  · simp [hc, (hcalls q).2 hq]

theorem receiveWrite_of_none {p : MemPacket} (h : s.requestedStores p.insnSeqId = none) :
    s.receiveWrite p = s := by
  simp [receiveWrite, h]

/-- The receiver's branch for a data write of a store registered with
`str`: the counter drops, the failure flag takes the packet's, and at zero
the result is reported. -/
theorem receiveWrite_of_some {p : MemPacket} {str : StoreEntry} (h : s.requestedStores p.insnSeqId = some str) :
    s.receiveWrite p = { s with
      requestedStores := Function.update s.requestedStores p.insnSeqId
        (some ⟨(str.totalPacketsRemaining + (2 ^ 16 - 1)) % 2 ^ 16, str.failed || p.hasFailed⟩)
      insnCalls := s.insnCalls ++
        if (str.totalPacketsRemaining + (2 ^ 16 - 1)) % 2 ^ 16 = 0 then
          [.updateCondStoreResult p.insnSeqId !(str.failed || p.hasFailed)]
        else [] } := by
  simp only [receiveWrite, h]
  split_ifs <;> simp

@[simp] theorem filter_suppliesTo_report (q q' : Nat) (ok : Bool) :
    [InsnCall.updateCondStoreResult q ok].filter (·.suppliesTo q') = [] := rfl

theorem filter_reportsTo_report {q q' : Nat} (h : q' ≠ q) (ok : Bool) :
    [InsnCall.updateCondStoreResult q ok].filter (·.reportsTo q') = [] := by
  simp [InsnCall.reportsTo, Ne.symm h]

/-- **Filing a data write.** The receiver counts a data write off its store.
For a waiting store-conditional, the counter drops to the number of its
writes still outstanding, the failure flag notes a failed response, and the
last response reports the result. -/
theorem receiveWrite_ledger {b : Books} {p : MemPacket} {X : List Tag}
    (hb : s.books = { b with delivered := b.delivered ++ [p] }) (hl : Ledger limits heap (p.tag :: X) b)
    (hread : p.isRead = false) (hdata : p.isInstrRead = false) :
    Ledger limits heap X (s.receiveWrite p).books := by
  have hwq : p.tag.writeOf p.insnSeqId = true := by simp [Tag.writeOf, MemPacket.tag, hread, hdata]
  have hsn : s.requestedLoads = b.requestedLoads := congrArg Books.requestedLoads hb
  have hsR : s.readResponses = b.readResponses := congrArg Books.readResponses hb
  have hsS : s.requestedStores = b.requestedStores := congrArg Books.requestedStores hb
  have hsd : s.delivered = b.delivered ++ [p] := congrArg Books.delivered hb
  have hsc : s.insnCalls = b.insnCalls := congrArg Books.insnCalls hb
  -- a store-conditional's entry while its write is outstanding
  have hphase : (heap p.insnSeqId).isStoreCond = true →
      b.requestedStores p.insnSeqId = some ⟨(X.filter (·.writeOf p.insnSeqId)).length + 1,
        (b.delivered.filter (·.tag.writeOf p.insnSeqId)).any (·.hasFailed)⟩ ∧
      (X.filter (·.writeOf p.insnSeqId)).length + 1 < 2 ^ 16 ∧
      b.insnCalls.filter (·.reportsTo p.insnSeqId) = [] := fun hsc' => by
    have h := (hl p.insnSeqId).2 hsc'
    rw [List.filter_cons_of_pos hwq] at h
    rcases h with ⟨h, -⟩ | ⟨-, hlen, hentry, hcl⟩ | ⟨h, -⟩ | ⟨h, -⟩
    · cases h
    · exact ⟨hentry, hlen, hcl⟩
    · cases h
    · cases h
  cases hstr : s.requestedStores p.insnSeqId with
  | none =>
    rw [receiveWrite_of_none hstr]
    refine Ledger.fileWrite [] hread (fun _ => ⟨rfl, fun _ => rfl⟩) (by simp [MMU.books, hsn])
      (by simp [MMU.books, hsR]) (fun q _ => by simp [MMU.books, hsS]) (by simp [MMU.books, hsd])
      (by simp [MMU.books, hsc]) (fun hsc' => ?_) hl
    rw [hsS, (hphase hsc').1] at hstr
    cases hstr
  | some str =>
    rw [receiveWrite_of_some hstr]
    refine Ledger.fileWrite (if (str.totalPacketsRemaining + (2 ^ 16 - 1)) % 2 ^ 16 = 0 then
        [.updateCondStoreResult p.insnSeqId !(str.failed || p.hasFailed)] else []) hread
      (fun q => ⟨?_, fun hq => ?_⟩) (by simp [MMU.books, hsn])
      (by simp [MMU.books, hsR]) (fun q hq => by simp [MMU.books, Function.update_noteq hq, hsS])
      (by simp [MMU.books, hsd]) (by simp [MMU.books, hsc]) (fun hsc' => ?_) hl
    · split_ifs <;> rfl
    · split_ifs
      · exact filter_reportsTo_report hq _
      · rfl
    obtain ⟨hentry, hlen, hcl⟩ := hphase hsc'
    rw [hsS, hentry, Option.some_inj] at hstr
    subst hstr
    have hdec : ((X.filter (·.writeOf p.insnSeqId)).length + 1 + (2 ^ 16 - 1)) % 2 ^ 16 =
        (X.filter (·.writeOf p.insnSeqId)).length := by omega
    have hdl : (b.delivered ++ [p]).filter (·.tag.writeOf p.insnSeqId) =
        b.delivered.filter (·.tag.writeOf p.insnSeqId) ++ [p] := by
      rw [List.filter_append, List.filter_singleton, hwq]; rfl
    have hany : (b.delivered.filter (·.tag.writeOf p.insnSeqId) ++ [p]).any (·.hasFailed) =
        ((b.delivered.filter (·.tag.writeOf p.insnSeqId)).any (·.hasFailed) || p.hasFailed) := by
      simp only [List.any_append, List.any_cons, List.any_nil, Bool.or_false]
    simp only [MMU.books, Function.update_same, hdec, hsd, hsc, List.filter_append, hcl, List.nil_append, hdl,
      hany]
    by_cases hx : X.filter (·.writeOf p.insnSeqId) = []
    · -- the last write: the result is reported
      rw [hx, List.length_nil, if_pos rfl]
      exact .inr (.inr (.inl ⟨rfl, by simp, by rw [hany], by simp [InsnCall.reportsTo, hany]⟩))
    · rw [if_neg (by simpa using hx)]
      exact .inr (.inl ⟨hx, by omega, by rw [hany], rfl⟩)

/-- **The receiver.** A response to an outstanding packet is accepted: an
instruction read goes to the completed reads and leaves no trace in the
books, and a data packet is filed in them. A data read that is not faulty
must carry a payload of its size. -/
theorem receiver_ledger {p : MemPacket} {X : List Tag} (hl : Ledger limits heap (p.tag :: X) s.books)
    (hpay : p.isInstrRead = false → p.isRead = true → p.isFaulty = false → p.payload.length = p.size) :
    ∃ s', s.receiver heap p = .ok s' ∧ Ledger limits heap X s'.books := by
  unfold receiver
  by_cases hi : p.isInstrRead = true
  · have hr : ∀ q, p.tag.readOf q = false := fun q => by simp [Tag.readOf, MemPacket.tag, hi]
    have hw : ∀ q, p.tag.writeOf q = false := fun q => by simp [Tag.writeOf, MemPacket.tag, hi]
    simp only [hi, if_true]
    split_ifs <;> exact ⟨_, rfl, Ledger.drop_untracked hr (fun q _ => hw q) hl⟩
  · rw [Bool.not_eq_true] at hi
    simp only [hi, Bool.false_eq_true, if_false]
    by_cases hread : p.isRead = true
    · rw [if_pos hread]
      exact receiveRead_ledger rfl hl hread hi (hpay hi hread)
    · rw [if_neg hread]
      exact ⟨_, rfl, receiveWrite_ledger rfl hl (Bool.eq_false_iff.2 hread) hi⟩

end MMU

end SimEng.Memory
