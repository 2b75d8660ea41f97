import SimEng.Assertions
import SimEng.Pipeline.Completion
import SimEng.Pipeline.Retirement

/-!
# SimEng — the queues stay within their capacities

The rename unit adds an instruction to the reorder buffer and the load/store
queue only when `getFreeSpace`, and `getLoadQueueSpace` or
`getStoreQueueSpace` for a load or a store, are not zero. The three getters
are `unsigned int` subtractions (`unsignedDiff`): were a queue ever to hold
more entries than its capacity, they would wrap to a large number and the
check would hold nothing back.

Every event of the back end other than a rename keeps the queue's
configuration and never lengthens a queue (`Shrinks`), and `reserve`, `commit`
and `flush` keep the reorder buffer well formed. So, with capacities below
`2 ^ 32`, no queue outgrows its capacity, the getters count the free entries,
and the rename check always spares `reserve` its assertion. The one
assumption: in a combined queue, no renamed instruction is both a load and a
store, since such an instruction takes two entries after a check for one.

Main results:

* `Within.add` — what a rename adds keeps the queues within capacity;
* `step_bounded` / `run_bounded` — every event, hence every run, keeps the
  reorder buffer and the queues within their capacities;
* `queues_within_capacity` — in every state a run reaches from `init`, the
  getters return the free entries and renaming never fails.
-/

namespace SimEng.Pipeline

namespace LoadStoreQueue

/-- The capacities fit the `unsigned int` the space getters compute in. -/
def Config.Fits (c : Config) : Prop :=
  c.maxCombinedSpace < 2 ^ 32 ∧ c.maxLoadQueueSpace < 2 ^ 32 ∧ c.maxStoreQueueSpace < 2 ^ 32

instance (c : Config) : Decidable c.Fits := inferInstanceAs (Decidable (_ ∧ _ ∧ _))

/-- The queues hold no more than the configuration allows: loads and stores
together within `maxCombinedSpace` in a combined queue, each within its own
capacity in split queues. -/
def Within (s : LoadStoreQueue) : Prop :=
  if s.config.combined then s.loadQueue.length + s.storeQueue.length ≤ s.config.maxCombinedSpace
  else s.loadQueue.length ≤ s.config.maxLoadQueueSpace ∧
    s.storeQueue.length ≤ s.config.maxStoreQueueSpace

instance (s : LoadStoreQueue) : Decidable s.Within := by unfold Within; infer_instance

/-! ## The getters count free entries -/

section Getters

variable {s : LoadStoreQueue} (hw : s.Within) (hc : s.config.Fits)
include hw hc

theorem getLoadQueueSpace_eq : s.getLoadQueueSpace =
    if s.config.combined then s.config.maxCombinedSpace - (s.loadQueue.length + s.storeQueue.length)
    else s.config.maxLoadQueueSpace - s.loadQueue.length := by
  unfold Within at hw
  unfold getLoadQueueSpace getCombinedSpace getLoadQueueSplitSpace
  split at hw <;> rename_i hcomb
  · rw [if_pos hcomb, if_pos hcomb, ReorderBuffer.unsignedDiff_of_le hw hc.1]
  · rw [if_neg hcomb, if_neg hcomb, ReorderBuffer.unsignedDiff_of_le hw.1 hc.2.1]

theorem getStoreQueueSpace_eq : s.getStoreQueueSpace =
    if s.config.combined then s.config.maxCombinedSpace - (s.loadQueue.length + s.storeQueue.length)
    else s.config.maxStoreQueueSpace - s.storeQueue.length := by
  unfold Within at hw
  unfold getStoreQueueSpace getCombinedSpace getStoreQueueSplitSpace
  split at hw <;> rename_i hcomb
  · rw [if_pos hcomb, if_pos hcomb, ReorderBuffer.unsignedDiff_of_le hw hc.1]
  · rw [if_neg hcomb, if_neg hcomb, ReorderBuffer.unsignedDiff_of_le hw.2 hc.2.2]

end Getters

/-- What a rename adds to the queue: the instruction `q` joins the load queue
if it is a load and the store queue if it is a store. When the getter of each
queue it joins is not zero and, in a combined queue, it joins only one, the
queues stay within capacity. -/
theorem Within.add {s : LoadStoreQueue} (hw : s.Within) (hc : s.config.Fits) {isLoad isStore : Bool}
    (hl : isLoad = true → s.getLoadQueueSpace ≠ 0) (hs : isStore = true → s.getStoreQueueSpace ≠ 0)
    (hd : s.config.combined = true → isLoad = false ∨ isStore = false) (q : Nat) :
    (if isStore then (if isLoad then s.addLoad q else s).addStore q
      else if isLoad then s.addLoad q else s).Within := by
  rw [getLoadQueueSpace_eq hw hc] at hl
  rw [getStoreQueueSpace_eq hw hc] at hs
  unfold Within at hw ⊢
  cases isLoad <;> cases isStore <;> by_cases hcomb : s.config.combined <;>
    simp_all [addLoad, addStore] <;> omega

/-! ## Events that only shrink the queues -/

/-- `s'` has the configuration of `s` and no more loads or stores. -/
structure Shrinks (s s' : LoadStoreQueue) : Prop where
  config : s'.config = s.config
  loads : s'.loadQueue.length ≤ s.loadQueue.length
  stores : s'.storeQueue.length ≤ s.storeQueue.length

theorem Shrinks.refl (s : LoadStoreQueue) : s.Shrinks s := ⟨rfl, le_rfl, le_rfl⟩

theorem Shrinks.trans {s₁ s₂ s₃ : LoadStoreQueue} (h₁ : s₁.Shrinks s₂) (h₂ : s₂.Shrinks s₃) :
    s₁.Shrinks s₃ :=
  ⟨h₂.config.trans h₁.config, h₂.loads.trans h₁.loads, h₂.stores.trans h₁.stores⟩

theorem Within.of_shrinks {s s' : LoadStoreQueue} (hw : s.Within) (h : s.Shrinks s') : s'.Within := by
  unfold Within at hw ⊢
  have hl := h.loads
  have hs := h.stores
  rw [h.config]
  split at hw <;> rename_i hcomb
  · rw [if_pos hcomb]; omega
  · rw [if_neg hcomb]; omega

variable (heap : Heap)

theorem shrinks_startLoad (uop : Nat) (s : LoadStoreQueue) : s.Shrinks (s.startLoad heap uop).2 := by
  obtain ⟨hl, hs, -⟩ := @startLoad_spec heap uop s
  exact ⟨(startLoad_completion heap uop s).1, by rw [hl], by rw [hs]⟩

theorem shrinks_commitStore {uop : Nat} {s s' : LoadStoreQueue} {b : Bool}
    (h : s.commitStore heap uop = .ok (b, s')) : s.Shrinks s' := by
  obtain ⟨d, rest, hq, hq', hl, -⟩ := commitStore_spec h
  exact ⟨(frame_commitStore heap h).config, by rw [hl], by simp [hq, hq']⟩

theorem shrinks_commitLoad {uop : Nat} {s s' : LoadStoreQueue} (h : s.commitLoad heap uop = .ok s') :
    s.Shrinks s' := by
  unfold commitLoad at h
  split at h
  · cases h
  · split at h
    · cases h
    · split at h <;> cases h
      · exact ⟨rfl, List.length_erase_le _ _, le_rfl⟩
      · exact .refl _

theorem shrinks_purgeFlushed (s : LoadStoreQueue) : s.Shrinks (s.purgeFlushed heap) :=
  ⟨rfl, List.length_filter_le _ _, List.length_filter_le _ _⟩

theorem shrinks_tickRequests {σ : Type} (mmu : MemoryInterface σ) (s : LoadStoreQueue) (m : σ) :
    s.Shrinks (s.tickRequests mmu heap m).1 :=
  ⟨rfl, le_rfl, le_rfl⟩

end LoadStoreQueue

namespace ReorderBuffer

open LoadStoreQueue

variable {heap : Heap}

theorem shrinks_retireEntry {uop : Nat} {lsq lsq' : LoadStoreQueue} {b : Bool}
    (h : retireEntry heap uop lsq = .ok (b, lsq')) : lsq.Shrinks lsq' := by
  unfold retireEntry at h
  split at h
  · cases h; exact .refl _
  · split at h
    · obtain ⟨⟨b', l⟩, hr, he⟩ := map_eq_ok.1 h
      cases he
      exact shrinks_commitStore heap hr
    · split at h
      · obtain ⟨l, hr, he⟩ := map_eq_ok.1 h
        cases he
        exact shrinks_commitLoad heap hr
      · cases h; exact .refl _

theorem Retires.shrinks {us : List Nat} {lsq lsq' : LoadStoreQueue} (h : Retires heap us lsq lsq') :
    lsq.Shrinks lsq' := by
  induction h with
  | nil lsq => exact .refl lsq
  | cons he _ ih => exact (shrinks_retireEntry he).trans ih

/-- `commit` keeps the queue's configuration and never lengthens a queue. -/
theorem shrinks_commit {k n : Nat} {rob rob' : ReorderBuffer} {lsq lsq' : LoadStoreQueue}
    (h : commit heap k (rob, lsq) = .ok (n, rob', lsq')) : lsq.Shrinks lsq' := by
  rcases (commit_spec heap h).stop with ⟨hr, -⟩ | ⟨u, lsq₁, -, -, hr, he, -⟩
  · exact hr.shrinks
  · exact hr.shrinks.trans (shrinks_retireEntry he)

end ReorderBuffer

/-! ## Runs of the back end -/

namespace Backend

open LoadStoreQueue

/-- The capacities the back end keeps: a well-formed reorder buffer of
`maxSize` entries, and a load/store queue of configuration `config` within its
capacities. -/
structure Bounded (maxSize : Nat) (config : LoadStoreQueue.Config) (s : Backend) : Prop where
  rob : s.rob.Wf
  maxSize : s.rob.maxSize = maxSize
  config : s.lsq.config = config
  within : s.lsq.Within

variable {maxSize : Nat} {config : LoadStoreQueue.Config} {s s' : Backend}

theorem bounded_init : (init maxSize config).Bounded maxSize config :=
  ⟨⟨by simp [init], by simp [init], by simp [init]⟩, rfl, rfl, by simp [init, Within]⟩

theorem Bounded.of_shrinks (hb : s.Bounded maxSize config) (hr : s'.rob.Wf)
    (hm : s'.rob.maxSize = s.rob.maxSize) (hq : s.lsq.Shrinks s'.lsq) : s'.Bounded maxSize config :=
  ⟨hr, hm.trans hb.maxSize, hq.config.trans hb.config, hb.within.of_shrinks hq⟩

/-- A reorder buffer with a free entry: `reserve` succeeds. -/
theorem reserve_ok (hb : s.Bounded maxSize config) (hmax : maxSize < 2 ^ 32)
    (hfree : s.rob.getFreeSpace ≠ 0) (insn : Instruction) :
    ReorderBuffer.reserve insn (s.heap, s.rob) =
      .ok (Function.update s.heap s.rob.seqId insn,
        { s.rob with seqId := s.rob.seqId + 1, buffer := s.rob.buffer ++ [s.rob.seqId] }) := by
  have := ReorderBuffer.getFreeSpace_add_length hb.rob (hb.maxSize ▸ hmax)
  simp only [ReorderBuffer.reserve, if_pos (show s.rob.buffer.length < s.rob.maxSize by omega)]

section Rename

variable (hmax : maxSize < 2 ^ 32) (hfit : config.Fits)
include hmax hfit

/-- A rename either stalls or reserves the instruction and adds it to the
queues it joins, each with room for it. -/
theorem rename_bounded (hb : s.Bounded maxSize config) {insn : Instruction}
    (hd : config.combined = true → insn.isLoad = false ∨ insn.isStore = false)
    (h : s.rename insn = .ok s') : s'.Bounded maxSize config := by
  unfold rename at h
  split at h
  · cases h; exact hb
  · rename_i hroom
    simp only [not_or, not_and] at hroom
    obtain ⟨hfree, hl, hs⟩ := hroom
    rw [reserve_ok hb hmax hfree, Except.map] at h
    cases h
    refine ⟨hb.rob.reserve (reserve_ok hb hmax hfree insn), hb.maxSize, ?_, ?_⟩
    · cases insn.isStore <;> cases insn.isLoad <;> exact hb.config
    · exact hb.within.add (hb.config ▸ hfit) hl hs (hb.config ▸ hd) s.rob.seqId

end Rename

/-- Renaming never fails: a flushed instruction is dropped, and otherwise the
rename check spares `reserve` its assertion. -/
theorem rename_ok (hmax : maxSize < 2 ^ 32) (hb : s.Bounded maxSize config) (insn : Instruction) :
    ∃ s', s.step (.rename insn) = .ok s' := by
  simp only [step]
  split
  · exact ⟨_, rfl⟩
  · unfold rename
    split
    · exact ⟨_, rfl⟩
    · rename_i hroom
      rw [reserve_ok hb hmax (not_or.1 hroom).1]
      exact ⟨_, rfl⟩

/-- **Every event keeps the capacities.** -/
theorem step_bounded (hmax : maxSize < 2 ^ 32) (hfit : config.Fits) (hb : s.Bounded maxSize config)
    {a : Action} (hd : ∀ insn, a = .rename insn → config.combined = true →
      insn.isLoad = false ∨ insn.isStore = false)
    (h : s.step a = .ok s') : s'.Bounded maxSize config := by
  cases a with
  | rename insn =>
    simp only [step] at h
    split at h
    · cases h; exact hb
    · exact rename_bounded hmax hfit hb (hd insn rfl) h
  | generateAddresses uop addrs =>
    simp only [step] at h
    split at h <;> (cases h; exact hb.of_shrinks hb.rob rfl (.refl _))
  | startLoad uop =>
    simp only [step] at h
    split at h <;> cases h
    · exact hb.of_shrinks hb.rob rfl (shrinks_startLoad _ _ _)
    · exact hb
  | complete uop e =>
    simp only [step] at h
    split at h <;> (cases h; exact hb.of_shrinks hb.rob rfl (.refl _))
  | commit k =>
    obtain ⟨⟨n, rob', lsq'⟩, hc, rfl⟩ := map_eq_ok.1 h
    exact hb.of_shrinks (hb.rob.commit hc) (ReorderBuffer.commit_spec s.heap hc).maxSize
      (ReorderBuffer.shrinks_commit hc)
  | flush a =>
    simp only [step, Except.ok.injEq] at h
    subst h
    exact hb.of_shrinks (hb.rob.flush s.heap a)
      (ReorderBuffer.flush_spec' s.heap a hb.rob.sorted).maxSize (shrinks_purgeFlushed _ _)
  | tick answers =>
    simp only [step, Except.ok.injEq] at h
    subst h
    exact hb.of_shrinks hb.rob rfl (shrinks_tickRequests _ _ _ _)

/-- Every run whose renamed instructions fit the queue keeps the capacities. -/
theorem run_bounded (hmax : maxSize < 2 ^ 32) (hfit : config.Fits) {actions : List Action}
    (hd : config.combined = true → ∀ insn, Action.rename insn ∈ actions →
      insn.isLoad = false ∨ insn.isStore = false)
    (hb : s.Bounded maxSize config) (h : s.run actions = .ok s') : s'.Bounded maxSize config := by
  induction actions generalizing s with
  | nil => simp only [run, Except.ok.injEq] at h; exact h ▸ hb
  | cons a rest ih =>
    obtain ⟨s₁, hs₁, h⟩ := bind_eq_ok.1 h
    have hd₁ : ∀ insn, a = .rename insn → config.combined = true →
        insn.isLoad = false ∨ insn.isStore = false :=
      fun insn ha hc => hd hc insn (ha ▸ List.mem_cons_self _ _)
    exact ih (fun hc insn hi => hd hc insn (List.mem_cons_of_mem _ hi))
      (step_bounded hmax hfit hb hd₁ hs₁) h

/-- **The queues stay within their capacities.** Along every run of the back
end from `init`, with capacities below `2 ^ 32` and, in a combined queue, no
renamed instruction both a load and a store: the reorder buffer and the queues
hold no more than their capacities, `getFreeSpace`, `getLoadQueueSpace` and
`getStoreQueueSpace` return the number of free entries, and renaming never
fails. -/
theorem queues_within_capacity {actions : List Action} (hmax : maxSize < 2 ^ 32)
    (hfit : config.Fits)
    (hd : config.combined = true → ∀ insn, Action.rename insn ∈ actions →
      insn.isLoad = false ∨ insn.isStore = false)
    (h : (init maxSize config).run actions = .ok s) :
    s.rob.getFreeSpace + s.rob.buffer.length = maxSize ∧
    s.lsq.config = config ∧ s.lsq.Within ∧
    s.lsq.getLoadQueueSpace = (if config.combined then
        config.maxCombinedSpace - (s.lsq.loadQueue.length + s.lsq.storeQueue.length)
      else config.maxLoadQueueSpace - s.lsq.loadQueue.length) ∧
    s.lsq.getStoreQueueSpace = (if config.combined then
        config.maxCombinedSpace - (s.lsq.loadQueue.length + s.lsq.storeQueue.length)
      else config.maxStoreQueueSpace - s.lsq.storeQueue.length) ∧
    ∀ insn, ∃ s', s.step (.rename insn) = .ok s' := by
  have hb := run_bounded hmax hfit hd bounded_init h
  have hfit' : s.lsq.config.Fits := hb.config ▸ hfit
  refine ⟨hb.maxSize ▸ ReorderBuffer.getFreeSpace_add_length hb.rob (hb.maxSize ▸ hmax), hb.config,
    hb.within, ?_, ?_, rename_ok hmax hb⟩
  · rw [getLoadQueueSpace_eq hb.within hfit', hb.config]
  · rw [getStoreQueueSpace_eq hb.within hfit', hb.config]

/-- A combined queue of one entry: the load takes it, so the store stalls. -/
def stallRun : List Action := [.rename { isLoad := true }, .rename { isStore := true }]

example : ∃ s, (init 4 (combinedQueue 1 .INORDER).config).run stallRun = .ok s ∧
    s.lsq.loadQueue = [0] ∧ s.lsq.storeQueue = [] ∧ s.rob.buffer = [0] :=
  ⟨_, rfl, rfl, rfl, rfl⟩

theorem stallRun_within_capacity : ∃ s, (init 4 (combinedQueue 1 .INORDER).config).run stallRun = .ok s ∧
    (4 < 2 ^ 32 ∧ (combinedQueue 1 .INORDER).config.Fits ∧
      ((combinedQueue 1 .INORDER).config.combined = true → ∀ insn, Action.rename insn ∈ stallRun →
        insn.isLoad = false ∨ insn.isStore = false)) ∧
    s.rob.getFreeSpace + s.rob.buffer.length = 4 ∧ s.lsq.getStoreQueueSpace = 0 :=
  have hd : (combinedQueue 1 .INORDER).config.combined = true → ∀ insn, Action.rename insn ∈ stallRun →
      insn.isLoad = false ∨ insn.isStore = false := fun _ insn hi => by
    simp only [stallRun, List.mem_cons, Action.rename.injEq, List.mem_singleton,
      List.not_mem_nil, or_false] at hi
    rcases hi with rfl | rfl <;> simp
  have h := queues_within_capacity (by decide) (by decide) hd
    (show (init 4 (combinedQueue 1 .INORDER).config).run stallRun = _ from rfl)
  ⟨_, rfl, ⟨by decide, by decide, hd⟩, h.1, h.2.2.2.2.1.trans (by decide)⟩

end Backend

end SimEng.Pipeline
