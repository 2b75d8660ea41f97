import Mathlib.Data.List.Nodup
import SimEng.Assertions
import SimEng.OutOfOrder.DispatchIssueUnit

/-!
# SimEng — `readyCount` is exact while nothing is purged

`outoforder::DispatchIssueUnit` keeps `readyCount`, the number of entries of
the reservation station whose operands are all supplied, by hand: `tick` adds
one for each instruction dispatched ready, `forwardOperands` one for each
waiting instruction a result makes ready, and `issue` subtracts one for each
entry sent. `issue` trusts it: `readyRemaining` starts from it.

An instruction that misses an operand waits in the dependency matrix under
the register it reads. The count stays exact because the matrix holds, for
each register, exactly the instructions of the station that miss the operand
read from it, once each: a result then makes ready exactly the instructions it
was the last missing operand of. `purgeFlushed` breaks this, since it leaves
the purged instructions in the matrix (`readyCount_counts_purged_uop`).

The instructions' operand slots are modelled from the spec, as in
`OutOfOrder/DispatchIssueUnit.lean`. The results assume that an instruction
reads each register in one slot only: one that reads a register in two slots
is pushed into the matrix once per slot, `supplyOperand` fills both slots at
the first push, and the result then counts the instruction once per push.

Main results:

* `Counted` — the count and the matrix as described, for a station within its
  size;
* `tick_counted`, `issue_counted`, `forwardLoop_counted` — each of the unit's
  calls keeps it;
* `step_counted` / `run_counted` — every event but `purgeFlushed` keeps it,
  when `tick` dispatches each instruction once;
* `readyCount_exact` — over every such run from a new unit, `readyCount` is
  the number of entries that can execute, and an instruction waits on a
  register exactly while it is in the station and misses that operand.
-/

namespace SimEng.OutOfOrder

namespace Uop

/-- Operand slots line up with the operand registers, which are distinct:
no register is read in two slots. -/
structure WellFormed (u : Uop) : Prop where
  length : u.operands.length = u.operandRegisters.length
  nodup : u.operandRegisters.Nodup

/-- The instruction misses the operand it reads from `reg`. -/
def Misses (u : Uop) (reg : Register) : Prop := (reg, none) ∈ u.operandRegisters.zip u.operands

instance (u : Uop) (reg : Register) : Decidable (u.Misses reg) :=
  inferInstanceAs (Decidable ((reg, none) ∈ u.operandRegisters.zip u.operands))

theorem zip_zipWith_self {α β : Type} (f : α → β → β) :
    ∀ (as : List α) (bs : List β), as.zip (List.zipWith f as bs) = (as.zip bs).map fun p => (p.1, f p.1 p.2)
  | [], _ => rfl
  | _ :: _, [] => rfl
  | a :: as, b :: bs => by simp [zip_zipWith_self f as bs]

/-- Supplying `reg` fills exactly the operands read from `reg`. -/
theorem misses_supplyOperand (u : Uop) (reg : Register) (value : RegisterValue) (r : Register) :
    (u.supplyOperand reg value).Misses r ↔ u.Misses r ∧ r ≠ reg := by
  simp only [Misses, supplyOperand, zip_zipWith_self, List.mem_map, Prod.mk.injEq]
  constructor
  · rintro ⟨⟨r', o⟩, hp, rfl, ho⟩
    by_cases hc : r' = reg ∧ o.isNone = true
    · simp [hc] at ho
    · simp only [hc, if_false] at ho
      subst ho
      exact ⟨hp, fun h => hc ⟨h, rfl⟩⟩
  · rintro ⟨hp, hr⟩
    exact ⟨(r, none), hp, rfl, by simp [hr]⟩

theorem wellFormed_supplyOperand {u : Uop} (hw : u.WellFormed) (reg : Register) (value : RegisterValue) :
    (u.supplyOperand reg value).WellFormed :=
  ⟨by simp [supplyOperand, List.length_zipWith, hw.length], hw.nodup⟩

/-- An operand slot is empty exactly when the instruction misses the register
that slot reads. -/
theorem isOperandReady_eq_false {u : Uop} (hw : u.WellFormed) {i : Nat} {reg : Register}
    (hi : u.operandRegisters[i]? = some reg) : u.isOperandReady i = false ↔ u.Misses reg := by
  obtain ⟨hlt, hreg⟩ := List.getElem?_eq_some_iff.1 hi
  have hlt' : i < u.operands.length := hw.length ▸ hlt
  have hslot : u.isOperandReady i = u.operands[i].isSome := by
    simp [isOperandReady, List.getD_eq_getElem?_getD, List.getElem?_eq_getElem hlt']
  rw [hslot]
  constructor
  · intro h
    refine List.mem_iff_getElem?.2 ⟨i, List.getElem?_zip_eq_some.2 ⟨hi, ?_⟩⟩
    rw [List.getElem?_eq_getElem hlt']
    cases ho : u.operands[i] <;> simp_all
  · intro hm
    obtain ⟨j, hj⟩ := List.mem_iff_getElem?.1 hm
    obtain ⟨hj₁, hj₂⟩ := List.getElem?_zip_eq_some.1 hj
    obtain ⟨hj', hjreg⟩ := List.getElem?_eq_some_iff.1 hj₁
    obtain rfl : j = i := (hw.nodup.getElem_inj_iff).1 (hjreg.trans hreg.symm)
    rw [List.getElem?_eq_getElem hlt'] at hj₂
    simp_all

/-- An instruction can execute exactly when it misses no operand. -/
theorem canExecute_iff {u : Uop} (hw : u.WellFormed) : u.canExecute = true ↔ ∀ r, ¬u.Misses r := by
  simp only [canExecute, List.all_eq_true, Misses]
  constructor
  · exact fun h r hr => by simpa using h _ (List.of_mem_zip hr).2
  · intro h o ho
    obtain ⟨i, hi⟩ := List.mem_iff_getElem?.1 ho
    obtain ⟨hlt, -⟩ := List.getElem?_eq_some_iff.1 hi
    rcases o with _ | v
    · exact absurd (List.mem_iff_getElem?.2 ⟨i, List.getElem?_zip_eq_some.2
        ⟨List.getElem?_eq_getElem (hw.length ▸ hlt), hi⟩⟩) (h _)
    · rfl

end Uop

namespace DispatchIssueUnit

open Uop

/-! ## Dispatch -/

section Dispatch

variable (regFile : Register → RegisterValue) (uop : Nat) (sb : Register → Bool)

/-- The register-read loop over the operand slots `l` (index and register):
the instruction gets the operand read from `reg` when it misses it and the
scoreboard marks `reg` ready, and otherwise waits on `reg` in the matrix;
`ready` stays set while no operand has to wait. -/
theorem readOperands_spec {regs : List Register} :
    ∀ (l : List (Nat × Register)) (u : Uop) (m : Register → List Nat) (ready : Bool),
      u.operandRegisters = regs → u.WellFormed → (∀ p ∈ l, regs[p.1]? = some p.2) →
      (l.map Prod.snd).Nodup →
      let r := readOperands regFile uop sb l (u, m, ready)
      r.1.operandRegisters = regs ∧ r.1.WellFormed ∧
      (∀ reg, r.1.Misses reg ↔ u.Misses reg ∧ (reg ∈ l.map Prod.snd → sb reg = false)) ∧
      (∀ reg, r.2.1 reg =
        m reg ++ if reg ∈ l.map Prod.snd ∧ u.Misses reg ∧ sb reg = false then [uop] else []) ∧
      (r.2.2 = true ↔ ready = true ∧ ∀ reg ∈ l.map Prod.snd, ¬(u.Misses reg ∧ sb reg = false))
  | [], u, m, ready, hr, hw, _, _ => by simp [readOperands, hr, hw]
  | (i, reg) :: rest, u, m, ready, hr, hw, hl, hnd => by
    have hi : u.operandRegisters[i]? = some reg := hr ▸ hl (i, reg) (List.mem_cons_self _ _)
    have hl' : ∀ p ∈ rest, regs[p.1]? = some p.2 := fun p hp => hl p (List.mem_cons_of_mem _ hp)
    simp only [List.map_cons, List.nodup_cons] at hnd
    obtain ⟨hreg, hnd⟩ := hnd
    simp only [readOperands, List.map_cons, List.mem_cons]
    by_cases hready : u.isOperandReady i = true
    · -- the slot is already supplied
      have hm : ¬u.Misses reg := fun h => by
        rw [(isOperandReady_eq_false hw hi).2 h] at hready; cases hready
      obtain ⟨h₁, h₂, h₃, h₄, h₅⟩ := readOperands_spec rest u m ready hr hw hl' hnd
      simp only [hready, if_true]
      refine ⟨h₁, h₂, fun r => ?_, fun r => ?_, ?_⟩
      · rw [h₃]
        by_cases hr' : r = reg
        · subst hr'; simp [hm]
        · simp only [hr', false_or]
      · rw [h₄]
        by_cases hr' : r = reg
        · subst hr'; simp [hm]
        · simp only [hr', false_or]
      · rw [h₅]; simp [hm]
    have hm : u.Misses reg := (isOperandReady_eq_false hw hi).1 (Bool.eq_false_iff.2 hready)
    simp only [hready, Bool.false_eq_true, if_false]
    by_cases hsb : sb reg = true
    · -- the scoreboard marks the register ready: it is read
      obtain ⟨h₁, h₂, h₃, h₄, h₅⟩ := readOperands_spec rest (u.supplyOperand reg (regFile reg)) m ready
        hr (wellFormed_supplyOperand hw _ _) hl' hnd
      have hm₁ := misses_supplyOperand u reg (regFile reg)
      simp only [hsb, if_true]
      refine ⟨h₁, h₂, fun r => ?_, fun r => ?_, ?_⟩
      · rw [h₃, hm₁]
        by_cases hr' : r = reg
        · subst hr'; simp [hsb]
        · simp only [hr', false_or, ne_eq, not_false_eq_true, and_true]
      · rw [h₄]
        by_cases hr' : r = reg
        · subst hr'; simp [hm₁, hsb]
        · simp only [hm₁, hr', false_or, ne_eq, not_false_eq_true, and_true]
      · rw [h₅, forall_eq_or_imp]
        have hrest : ∀ r ∈ rest.map Prod.snd, (u.supplyOperand reg (regFile reg)).Misses r ↔ u.Misses r :=
          fun r hr' => by rw [hm₁]; exact and_iff_left fun h => hreg (h ▸ hr')
        simp only [hsb, Bool.true_eq_false, and_false, not_false_eq_true, true_and]
        exact and_congr_right fun _ => forall₂_congr fun r hr' => by rw [hrest r hr']
    · -- otherwise the instruction waits on it
      have hsb : sb reg = false := Bool.eq_false_iff.2 hsb
      obtain ⟨h₁, h₂, h₃, h₄, h₅⟩ :=
        readOperands_spec rest u (Function.update m reg (m reg ++ [uop])) false hr hw hl' hnd
      simp only [hsb, Bool.false_eq_true, if_false]
      refine ⟨h₁, h₂, fun r => ?_, fun r => ?_, ?_⟩
      · rw [h₃]
        by_cases hr' : r = reg
        · subst hr'; simp [hm, hsb, hreg]
        · simp only [hr', false_or]
      · rw [h₄]
        by_cases hr' : r = reg
        · subst hr'; simp [hm, hsb, hreg]
        · simp only [Function.update_apply, hr', if_false, false_or]
      · rw [h₅]; simp [hm, hsb]

/-- The register read of one dispatch, over all operand slots: the instruction
still misses exactly the operands whose register the scoreboard marks not
ready, it waits on each of those registers, and it is ready when it can
execute. -/
theorem readOperands_enum {u : Uop} (hw : u.WellFormed) (m : Register → List Nat) :
    let r := readOperands regFile uop sb u.operandRegisters.enum (u, m, true)
    r.1.WellFormed ∧ (∀ reg, r.1.Misses reg ↔ u.Misses reg ∧ sb reg = false) ∧
      (∀ reg, r.2.1 reg = m reg ++ if r.1.Misses reg then [uop] else []) ∧ r.2.2 = r.1.canExecute := by
  obtain ⟨-, h₂, h₃, h₄, h₅⟩ := readOperands_spec regFile uop sb u.operandRegisters.enum u m true rfl hw
    (fun p hp => List.mem_enum_iff_getElem?.1 hp) (by rw [List.enum_map_snd]; exact hw.nodup)
  simp only [List.enum_map_snd] at h₃ h₄ h₅
  -- a missed operand is read from one of the instruction's registers
  have hmem : ∀ reg, u.Misses reg → reg ∈ u.operandRegisters := fun reg h => (List.of_mem_zip h).1
  have hmiss : ∀ reg, (readOperands regFile uop sb u.operandRegisters.enum (u, m, true)).1.Misses reg ↔
      u.Misses reg ∧ sb reg = false := fun reg => by
    rw [h₃]; exact ⟨fun h => ⟨h.1, h.2 (hmem reg h.1)⟩, fun h => ⟨h.1, fun _ => h.2⟩⟩
  refine ⟨h₂, hmiss, fun reg => ?_, ?_⟩
  · rw [h₄]
    congr 2
    exact propext ⟨fun h => (hmiss reg).2 h.2, fun h => ⟨hmem reg ((hmiss reg).1 h).1, (hmiss reg).1 h⟩⟩
  · rw [Bool.eq_iff_iff, h₅, canExecute_iff h₂]
    simp only [true_and, hmiss]
    exact ⟨fun h reg hr => h reg (hmem reg hr.1) hr, fun h reg _ => h reg⟩

end Dispatch

/-! ## The invariant -/

/-- `readyCount` counts the entries of the station that can execute, and the
dependency matrix holds, for each register, exactly the instructions of the
station that miss the operand read from it, each once; the station holds each
instruction once and stays within its size, below `2 ^ 32`. -/
structure Counted (st : DispatchIssueUnit × Uops) : Prop where
  wellFormed : ∀ q, (st.2 q).WellFormed
  nodup : (st.1.reservationStation.map Entry.uop).Nodup
  size_le : st.1.reservationStation.length ≤ st.1.maxReservationStationSize
  max_lt : st.1.maxReservationStationSize < 2 ^ 32
  readyCount : st.1.readyCount = readyEntries st
  waiting : ∀ reg q, q ∈ st.1.dependencyMatrix reg ↔
    q ∈ st.1.reservationStation.map Entry.uop ∧ (st.2 q).Misses reg
  waiting_nodup : ∀ reg, (st.1.dependencyMatrix reg).Nodup

theorem counted_init {maxSize : Nat} (hmax : maxSize < 2 ^ 32) {uops : Uops} (hw : ∀ q, (uops q).WellFormed) :
    Counted ({ maxReservationStationSize := maxSize }, uops) :=
  ⟨hw, List.nodup_nil, Nat.zero_le _, hmax, rfl, fun _ _ => by simp, fun _ => List.nodup_nil⟩

theorem readyEntries_le (st : DispatchIssueUnit × Uops) : readyEntries st ≤ st.1.reservationStation.length :=
  List.length_filter_le _ _

/-- `dispatch`, with its register read named. -/
theorem dispatch_eq (regFile : Register → RegisterValue) (allocate : Nat → Nat) (uop : Nat)
    (st : DispatchIssueUnit × Uops) :
    let r := readOperands regFile uop st.1.scoreboard (st.2 uop).operandRegisters.enum
      (st.2 uop, st.1.dependencyMatrix, true)
    dispatch regFile allocate uop st =
      ({ st.1 with
          dependencyMatrix := r.2.1
          readyCount := if r.2.2 then uint32Succ st.1.readyCount else st.1.readyCount
          scoreboard := fun reg => if reg ∈ r.1.destinationRegisters then false else st.1.scoreboard reg
          reservationStation := st.1.reservationStation ++ [⟨uop, allocate uop % 2 ^ 8⟩]
          portCalls := st.1.portCalls ++ [.allocate r.1.group] },
        Function.update st.2 uop r.1) := rfl

/-- One instruction entering the station. -/
theorem dispatch_counted (regFile : Register → RegisterValue) (allocate : Nat → Nat)
    {st : DispatchIssueUnit × Uops} (hc : Counted st) {uop : Nat}
    (hfresh : uop ∉ st.1.reservationStation.map Entry.uop)
    (hroom : st.1.reservationStation.length < st.1.maxReservationStationSize) :
    Counted (dispatch regFile allocate uop st) := by
  obtain ⟨hw', hmiss, hmat, hready⟩ :=
    readOperands_enum regFile uop st.1.scoreboard (hc.wellFormed uop) st.1.dependencyMatrix
  rw [dispatch_eq]
  dsimp only
  set r := readOperands regFile uop st.1.scoreboard (st.2 uop).operandRegisters.enum
    (st.2 uop, st.1.dependencyMatrix, true)
  have hne : ∀ q ∈ st.1.reservationStation.map Entry.uop, q ≠ uop := fun q hq h => hfresh (h ▸ hq)
  have hnotin : ∀ reg, uop ∉ st.1.dependencyMatrix reg := fun reg h => hfresh ((hc.waiting reg uop).1 h).1
  -- the entries already there keep whether they can execute
  have hentries : (st.1.reservationStation.filter fun e =>
      (Function.update st.2 uop r.1 e.uop).canExecute) =
      st.1.reservationStation.filter fun e => (st.2 e.uop).canExecute :=
    List.filter_congr fun e he => by rw [Function.update_noteq (hne e.uop (List.mem_map_of_mem _ he))]
  have hle := readyEntries_le st
  have hmax := hc.max_lt
  refine ⟨fun q => ?_, ?_, ?_, hc.max_lt, ?_, fun reg q => ?_, fun reg => ?_⟩ <;> dsimp only
  · rw [Function.update_apply]; split
    · exact hw'
    · exact hc.wellFormed q
  · simpa [List.nodup_append] using ⟨hc.nodup, fun x hx h => hfresh (h ▸ List.mem_map_of_mem _ hx)⟩
  · simp only [List.length_append, List.length_singleton]; omega
  · simp only [readyEntries, List.filter_append, List.length_append, hentries, hready, hc.readyCount,
      uint32Succ, List.filter_singleton, Function.update_same]
    simp only [readyEntries] at hle
    cases r.1.canExecute <;> simp only [cond_true, cond_false, if_true, Bool.false_eq_true, if_false,
      List.length_singleton, List.length_nil] <;> omega
  · simp only [hmat, List.mem_append, List.map_append, List.map_singleton, List.mem_singleton, hc.waiting reg q]
    by_cases hq : q = uop
    · subst hq; simp [hfresh, Function.update_same]
    · simp only [hq, or_false, Function.update_noteq hq]; split <;> simp [hq]
  · simp only [hmat]
    split
    · exact (hc.waiting_nodup reg).append (List.nodup_singleton _) (List.disjoint_singleton.2 (hnotin reg))
    · simpa using hc.waiting_nodup reg

/-- `tick` over the head slots, when each instruction in them is new to the
station and appears once. -/
theorem tick_counted (regFile : Register → RegisterValue) (allocate : Nat → Nat) :
    ∀ (slots : List (Option Nat)) (stall : Bool) (st : DispatchIssueUnit × Uops), Counted st →
      (slots.filterMap id).Nodup → (∀ q ∈ slots.filterMap id, q ∉ st.1.reservationStation.map Entry.uop) →
      Counted (tick regFile allocate slots stall st).2.2
  | [], _, _, hc, _, _ => hc
  | none :: rest, stall, st, hc, hn, hf => tick_counted regFile allocate rest stall st hc hn hf
  | some uop :: rest, _, st, hc, hn, hf => by
    simp only [List.filterMap_cons, id_eq, List.nodup_cons, List.mem_cons, forall_eq_or_imp] at hn hf
    simp only [tick]
    split
    · exact hc
    · rename_i hfull
      have hroom : st.1.reservationStation.length < st.1.maxReservationStationSize :=
        lt_of_le_of_ne hc.size_le hfull
      refine tick_counted regFile allocate rest false _ (dispatch_counted regFile allocate hc hf.1 hroom) hn.2
        fun q hq => ?_
      simp only [dispatch, List.map_append, List.map_singleton, List.mem_append, List.mem_singleton, not_or]
      exact ⟨hf.2 q hq, fun h => hn.1 (h ▸ hq)⟩

/-! ## Issue -/

/-- What `issue`'s loop keeps, from a station `rs₀`: `readyCount` counts the
entries left that can execute, the entries left are a sublist of `rs₀`, and
every entry of `rs₀` that cannot execute is still there. -/
structure IssueInv (uops : Uops) (rs₀ : List Entry) (st : IssueState) : Prop where
  count : st.readyCount = (st.rs.filter fun e => (uops e.uop).canExecute).length
  sublist : st.rs.Sublist rs₀
  waiting : ∀ e ∈ rs₀, (uops e.uop).canExecute = false → e ∈ st.rs

/-- Sending the entry at the iterator takes one off the entries that can
execute. -/
theorem length_filter_eraseIdx {p : Entry → Bool} {rs : List Entry} {i : Nat} {e : Entry}
    (he : rs[i]? = some e) (hp : p e = true) :
    ((rs.eraseIdx i).filter p).length + 1 = (rs.filter p).length := by
  obtain ⟨hi, rfl⟩ := List.getElem?_eq_some_iff.1 he
  have h := congrArg (fun l => (l.filter p).length) (List.take_append_drop i rs)
  rw [List.drop_eq_getElem_cons hi] at h
  simp only [List.filter_append, List.length_append, List.filter_cons, hp, if_true, List.length_cons] at h
  simp only [List.eraseIdx_eq_take_drop_succ, List.filter_append, List.length_append]
  omega

theorem issueLoop_inv {uops : Uops} {maxIssue : Nat} {rs₀ : List Entry} (hlt : rs₀.length < 2 ^ 32) :
    ∀ (fuel : Nat) (st : IssueState), IssueInv uops rs₀ st → IssueInv uops rs₀ (issueLoop uops maxIssue fuel st)
  | 0, _, h => h
  | fuel + 1, st, h => by
    unfold issueLoop
    split
    · exact h
    · rename_i entry he
      split
      · split
        · split
          · exact issueLoop_inv hlt fuel _ ⟨h.count, h.sublist, h.waiting⟩
          · rename_i hx _
            refine issueLoop_inv hlt fuel _ ⟨?_, (List.eraseIdx_sublist _ _).trans h.sublist, fun e he' hc => ?_⟩
            · -- the entry sent was counted
              have hsum := length_filter_eraseIdx (p := fun e => (uops e.uop).canExecute) he hx
              have hle : (st.rs.filter fun e => (uops e.uop).canExecute).length < 2 ^ 32 :=
                lt_of_le_of_lt ((List.length_filter_le _ _).trans h.sublist.length_le) hlt
              simp only [uint32Pred, h.count]
              omega
            · obtain ⟨j, hj⟩ := List.mem_iff_getElem?.1 (h.waiting e he' hc)
              refine List.mem_eraseIdx_iff_getElem?.2 ⟨j, fun hji => ?_, hj⟩
              subst hji
              rw [he, Option.some.injEq] at hj
              subst hj
              rw [hx] at hc
              cases hc
        · exact issueLoop_inv hlt fuel _ ⟨h.count, h.sublist, h.waiting⟩
      · exact h

/-- `issue` removes only entries that can execute, and counts them off. -/
theorem issue_counted (stalled : List Bool) {st : DispatchIssueUnit × Uops} (hc : Counted st) :
    Counted ((issue stalled st.2 st.1).1, st.2) := by
  have hlt : st.1.reservationStation.length < 2 ^ 32 := lt_of_le_of_lt hc.size_le hc.max_lt
  have h := @issueLoop_inv st.2 stalled.length _ hlt st.1.issueFuel
    { rs := st.1.reservationStation, it := 0, available := stalled.map (!·), issued := 0,
      readyRemaining := st.1.readyCount, readyCount := st.1.readyCount, out := [], calls := st.1.portCalls }
    ⟨hc.readyCount, List.Sublist.refl _, fun e he _ => he⟩
  refine ⟨hc.wellFormed, (h.sublist.map _).nodup hc.nodup, h.sublist.length_le.trans hc.size_le, hc.max_lt,
    h.count, fun reg q => ?_, hc.waiting_nodup⟩
  simp only [issue]
  rw [hc.waiting reg q]
  constructor
  · rintro ⟨hq, hm⟩
    obtain ⟨e, he, rfl⟩ := List.mem_map.1 hq
    have hx : (st.2 e.uop).canExecute = false :=
      Bool.eq_false_iff.2 fun h' => ((canExecute_iff (hc.wellFormed _)).1 h' reg) hm
    exact ⟨List.mem_map_of_mem _ (h.waiting e he hx), hm⟩
  · rintro ⟨hq, hm⟩
    exact ⟨(h.sublist.map _).subset hq, hm⟩

/-! ## Forwarding -/

/-- Entries of two disjoint kinds are counted apart. -/
theorem length_filter_or_of_disjoint {α : Type} {l : List α} {p q : α → Bool}
    (h : ∀ a ∈ l, p a = true → q a = false) :
    (l.filter fun a => p a || q a).length = (l.filter p).length + (l.filter q).length := by
  induction l with
  | nil => rfl
  | cons a l ih =>
    have ih := ih fun b hb => h b (List.mem_cons_of_mem _ hb)
    have ha := h a (List.mem_cons_self _ _)
    cases hp : p a <;> cases hq : q a <;> simp_all [List.filter_cons] <;> omega

/-- The entries of a station whose instruction is among distinct instructions
`D` of the station are as many as those instructions. -/
theorem length_filter_mem {S : List Entry} {D : List Nat} (hS : (S.map Entry.uop).Nodup) (hD : D.Nodup)
    (hsub : ∀ q ∈ D, q ∈ S.map Entry.uop) (p : Nat → Bool) :
    (S.filter fun e => p e.uop && decide (e.uop ∈ D)).length = (D.filter p).length := by
  have hmap : (S.filter fun e => p e.uop && decide (e.uop ∈ D)).length =
      ((S.map Entry.uop).filter fun q => p q && decide (q ∈ D)).length := by
    rw [List.filter_map, List.length_map]; rfl
  have hperm : ((S.map Entry.uop).filter fun q => decide (q ∈ D)).Perm D :=
    (List.perm_ext_iff_of_nodup (hS.filter _) hD).2 fun q => by
      simp only [List.mem_filter, decide_eq_true_eq]
      exact ⟨And.right, fun h => ⟨hsub q h, h⟩⟩
  rw [hmap, ← List.filter_filter]
  exact (hperm.filter p).length_eq

section Forward

variable (reg : Register) (value : RegisterValue)

/-- The supply loop of `forwardOperands`: each instruction waiting on `reg`
gets the value once, and each that can then execute is counted. -/
theorem supplyDependents_spec : ∀ (D : List Nat) (c : Nat) (uops : Uops), D.Nodup → c < 2 ^ 32 →
    (supplyDependents reg value D (c, uops)).1 =
      (c + (D.filter fun q => ((uops q).supplyOperand reg value).canExecute).length) % 2 ^ 32 ∧
    ∀ q, (supplyDependents reg value D (c, uops)).2 q =
      if q ∈ D then (uops q).supplyOperand reg value else uops q
  | [], c, uops, _, hc => ⟨(Nat.mod_eq_of_lt hc).symm, fun _ => by simp [supplyDependents]⟩
  | q :: rest, c, uops, hn, hc => by
    rw [List.nodup_cons] at hn
    simp only [supplyDependents]
    set uops₁ := Function.update uops q ((uops q).supplyOperand reg value)
    have hlt : (if ((uops q).supplyOperand reg value).canExecute then uint32Succ c else c) < 2 ^ 32 := by
      split
      · exact Nat.mod_lt _ (Nat.two_pow_pos 32)
      · exact hc
    obtain ⟨h₁, h₂⟩ := supplyDependents_spec rest _ uops₁ hn.2 hlt
    have hrest : ∀ p ∈ rest, uops₁ p = uops p := fun p hp =>
      Function.update_noteq (fun h => hn.1 (by subst h; exact hp)) _ _
    have hf : (rest.filter fun p => ((uops₁ p).supplyOperand reg value).canExecute) =
        rest.filter fun p => ((uops p).supplyOperand reg value).canExecute :=
      List.filter_congr fun p hp => by rw [hrest p hp]
    refine ⟨?_, fun p => ?_⟩
    · rw [h₁, hf, List.filter_cons]
      split <;> simp only [uint32Succ, if_true, if_false, List.length_cons, *]
      omega
    · rw [h₂]
      by_cases hp : p = q
      · subst hp; simp [uops₁, hn.1]
      · simp [uops₁, hp, Function.update_noteq hp]

/-- One result forwarded: the instructions waiting on `reg` get it, those it
makes ready are counted, and none waits on `reg` any more. -/
theorem forwardOne_counted {st : DispatchIssueUnit × Uops} (hc : Counted st) :
    let r := supplyDependents reg value (st.1.dependencyMatrix reg) (st.1.readyCount, st.2)
    Counted ({ st.1 with
        scoreboard := Function.update st.1.scoreboard reg true
        readyCount := r.1
        dependencyMatrix := Function.update st.1.dependencyMatrix reg [] }, r.2) := by
  intro r
  set D := st.1.dependencyMatrix reg
  have hD : ∀ q ∈ D, q ∈ st.1.reservationStation.map Entry.uop ∧ (st.2 q).Misses reg :=
    fun q hq => (hc.waiting reg q).1 hq
  have hcount : st.1.readyCount < 2 ^ 32 := by
    rw [hc.readyCount]; exact lt_of_le_of_lt ((readyEntries_le st).trans hc.size_le) hc.max_lt
  obtain ⟨h₁, h₂⟩ := supplyDependents_spec reg value D _ st.2 (hc.waiting_nodup reg) hcount
  -- an instruction that gets the value could not execute before
  have hnot : ∀ q ∈ D, (st.2 q).canExecute = false := fun q hq =>
    Bool.eq_false_iff.2 fun h => ((canExecute_iff (hc.wellFormed q)).1 h reg) (hD q hq).2
  set sce : Nat → Bool := fun q => ((st.2 q).supplyOperand reg value).canExecute
  have hready : readyEntries (st.1, r.2) = st.1.readyCount + (D.filter sce).length := by
    have hcongr : (st.1.reservationStation.filter fun e => (r.2 e.uop).canExecute) =
        st.1.reservationStation.filter fun e =>
          (st.2 e.uop).canExecute || (sce e.uop && decide (e.uop ∈ D)) :=
      List.filter_congr fun e _ => by
        rw [h₂]
        by_cases he : e.uop ∈ D
        · simp [he, hnot _ he, sce]
        · simp [he]
    have hdisj : ∀ e ∈ st.1.reservationStation, (st.2 e.uop).canExecute = true →
        (sce e.uop && decide (e.uop ∈ D)) = false := fun e _ h => by
      by_cases he : e.uop ∈ D
      · rw [hnot _ he] at h; cases h
      · simp [he]
    unfold readyEntries
    rw [hcongr, length_filter_or_of_disjoint hdisj,
      length_filter_mem hc.nodup (hc.waiting_nodup reg) (fun q hq => (hD q hq).1), hc.readyCount]
    rfl
  refine ⟨fun q => ?_, hc.nodup, hc.size_le, hc.max_lt, ?_, fun reg' q => ?_, fun reg' => ?_⟩
  · rw [h₂]; split
    · exact wellFormed_supplyOperand (hc.wellFormed q) _ _
    · exact hc.wellFormed q
  · have hle : readyEntries (st.1, r.2) ≤ st.1.reservationStation.length := readyEntries_le _
    have hmax := hc.max_lt
    have hsize := hc.size_le
    show r.1 = readyEntries (st.1, r.2)
    rw [hready, h₁, Nat.mod_eq_of_lt (by rw [← hready]; omega)]
  · show q ∈ Function.update st.1.dependencyMatrix reg [] reg' ↔
      q ∈ st.1.reservationStation.map Entry.uop ∧ (r.2 q).Misses reg'
    rw [h₂]
    by_cases hr : reg' = reg
    · subst hr
      rw [Function.update_same]
      split
      · simp [misses_supplyOperand]
      · rename_i hq
        simp only [List.not_mem_nil, false_iff, not_and]
        exact fun hs hm => hq ((hc.waiting reg' q).2 ⟨hs, hm⟩)
    · rw [Function.update_noteq hr, hc.waiting reg' q]
      split
      · simp [misses_supplyOperand, hr]
      · rfl
  · show (Function.update st.1.dependencyMatrix reg [] reg').Nodup
    rw [Function.update_apply]; split
    · exact List.nodup_nil
    · exact hc.waiting_nodup reg'

end Forward

/-- `forwardOperands`' loop over the results. -/
theorem forwardLoop_counted : ∀ (results : List (Register × RegisterValue)) (st : DispatchIssueUnit × Uops),
    Counted st → Counted (forwardLoop results st)
  | [], _, hc => hc
  | (reg, value) :: rest, _, hc => forwardLoop_counted rest _ (forwardOne_counted reg value hc)

/-! ## Runs -/

/-- The count reads only the operand registers and slots of an instruction. -/
theorem Counted.of_operands {st : DispatchIssueUnit × Uops} (hc : Counted st) {uops : Uops}
    (h : ∀ q, (uops q).operandRegisters = (st.2 q).operandRegisters ∧ (uops q).operands = (st.2 q).operands) :
    Counted (st.1, uops) := by
  have hx : ∀ q, (uops q).canExecute = (st.2 q).canExecute := fun q => by simp only [canExecute, (h q).2]
  have hm : ∀ q reg, (uops q).Misses reg ↔ (st.2 q).Misses reg := fun q reg => by
    simp only [Misses, (h q).1, (h q).2]
  refine ⟨fun q => ⟨?_, ?_⟩, hc.nodup, hc.size_le, hc.max_lt, ?_, fun reg q => ?_, hc.waiting_nodup⟩
  · rw [(h q).1, (h q).2]; exact (hc.wellFormed q).length
  · rw [(h q).1]; exact (hc.wellFormed q).nodup
  · rw [hc.readyCount]; exact congrArg List.length (List.filter_congr fun e _ => (hx e.uop).symm)
  · rw [hc.waiting reg q, hm q reg]

/-- An event that keeps the count: `tick` dispatches instructions new to the
station, each once, and nothing is purged. -/
def tame (st : DispatchIssueUnit × Uops) : Event → Bool
  | .tick slots _ _ => decide (slots.filterMap id).Nodup &&
      (slots.filterMap id).all fun q => decide (q ∉ st.1.reservationStation.map Entry.uop)
  | .purgeFlushed => false
  | _ => true

/-- Every event of the run is tame in the state it meets. -/
def tameRun (st : DispatchIssueUnit × Uops) : List Event → Bool
  | [] => true
  | e :: rest => tame st e && match step st e with
    | .ok st' => tameRun st' rest
    | .error _ => true

/-- **Every tame event keeps the count.** -/
theorem step_counted {st st' : DispatchIssueUnit × Uops} {e : Event} (hc : Counted st)
    (ht : tame st e = true) (h : step st e = .ok st') : Counted st' := by
  cases e with
  | tick slots regFile allocate =>
    simp only [tame, Bool.and_eq_true, decide_eq_true_eq, List.all_eq_true] at ht
    cases h
    exact tick_counted regFile allocate slots false st hc ht.1 ht.2
  | issue stalled => cases h; exact issue_counted stalled hc
  | forwardOperands registers values =>
    simp only [step, forwardOperands] at h
    split at h
    · cases h; exact forwardLoop_counted _ _ hc
    · cases h
  | setRegisterReady reg =>
    cases h
    exact ⟨hc.wellFormed, hc.nodup, hc.size_le, hc.max_lt, hc.readyCount, hc.waiting, hc.waiting_nodup⟩
  | purgeFlushed => cases ht
  | flush uop =>
    cases h
    refine hc.of_operands fun q => ?_
    rw [Function.update_apply]; split
    · subst q; exact ⟨rfl, rfl⟩
    · exact ⟨rfl, rfl⟩

theorem run_counted {st st' : DispatchIssueUnit × Uops} {events : List Event} (hc : Counted st)
    (ht : tameRun st events = true) (h : run st events = .ok st') : Counted st' := by
  induction events generalizing st with
  | nil => cases h; exact hc
  | cons e rest ih =>
    obtain ⟨st₁, h₁, h⟩ := bind_eq_ok.1 h
    simp only [tameRun, h₁, Bool.and_eq_true] at ht
    exact ih (step_counted hc ht.1 h₁) ht.2 h

/-- **`readyCount` is exact while nothing is purged.** Over every run from a
new unit of well-formed instructions in which `tick` dispatches each
instruction once and `purgeFlushed` is not called, `readyCount` is the number
of entries of the station that can execute, and an instruction waits on a
register in the dependency matrix exactly while it is in the station and
misses the operand read from that register. -/
theorem readyCount_exact {maxSize : Nat} {uops : Uops} {events : List Event}
    {st : DispatchIssueUnit × Uops} (hmax : maxSize < 2 ^ 32) (hw : ∀ q, (uops q).WellFormed)
    (ht : tameRun ({ maxReservationStationSize := maxSize }, uops) events = true)
    (h : run ({ maxReservationStationSize := maxSize }, uops) events = .ok st) :
    st.1.readyCount = readyEntries st ∧
      ∀ reg q, q ∈ st.1.dependencyMatrix reg ↔
        q ∈ st.1.reservationStation.map Entry.uop ∧ (st.2 q).Misses reg :=
  have hc := run_counted (counted_init hmax hw) ht h
  ⟨hc.readyCount, hc.waiting⟩

/-- Why the operand registers must be distinct: an instruction reading `r5` in
two slots waits twice under `r5`, and the result of `r5` counts it twice:
with the writer, three counted against two entries that can execute. -/
example : (run ({ maxReservationStationSize := 4 }, fun n =>
      if n = 0 then { operandRegisters := [r5, r5], operands := [none, none] } else producerConsumer n)
      [.tick [some 1, some 0] (fun _ => []) (fun _ => 0), .forwardOperands [r5] [[7]]]).map
      (fun st => (st.1.readyCount, readyEntries st)) = .ok (3, 2) := rfl

/-- The run of `readyCount_counts_purged_uop` without the flush and the purge:
both instructions are dispatched and the writer's result is forwarded. -/
def forwardedRun : List Event :=
  [.tick [some 1, some 0] (fun _ => []) (fun _ => 0), .forwardOperands [r5] [[7]]]

theorem forwardedRun_exact : ∃ st, run ({ maxReservationStationSize := 4 }, producerConsumer) forwardedRun = .ok st ∧
    4 < 2 ^ 32 ∧ (∀ q, (producerConsumer q).WellFormed) ∧
    tameRun ({ maxReservationStationSize := 4 }, producerConsumer) forwardedRun = true ∧
    st.1.readyCount = readyEntries st ∧
    ∀ reg q, q ∈ st.1.dependencyMatrix reg ↔ q ∈ st.1.reservationStation.map Entry.uop ∧ (st.2 q).Misses reg :=
  have hw : ∀ q, (producerConsumer q).WellFormed := fun q => by
    unfold producerConsumer
    split
    · exact ⟨rfl, by decide⟩
    · split <;> exact ⟨rfl, by decide⟩
  ⟨_, rfl, by decide, hw, rfl, @readyCount_exact 4 producerConsumer forwardedRun _ (by decide) hw rfl rfl⟩

end DispatchIssueUnit

end SimEng.OutOfOrder
