import Mathlib.Data.Multiset.Basic
import SimEng.Pipeline.QueueSteps
import SimEng.Pipeline.Violation

/-!
# SimEng — no started load is lost, duplicated or issued past a conflict

Over every run of the back end, a load that an execution unit passed to
`startLoad` with addresses, and that has not left the load queue (by
`commitLoad`, or by `purgeFlushed` after a flush), is in exactly one place:

* registered in `requestedLoads_`, and either scheduled once in
  `requestLoadQueue_` or already accepted by the memory management unit; or
* parked in the confliction list of exactly one store, still in the store
  queue, older than the load, whose addresses overlap the load's, and which
  `startLoad` chose for it: the youngest such store (`parkingStore_youngest`).

The argument runs over a `LoadBook`: what this placement reads of a back-end
state. Each event of the back end moves the book by one of a few transitions
(a heap change, a reservation, a start, a pop, a commit of a load or a store,
a flush, a tick), and each transition keeps `LoadBook.Placement`; the
`book_*` lemmas connect the events to the transitions, from the effect lemmas
of `Pipeline/QueueSteps.lean`.

Main results:

* `step_placement` / `run_placement` — every event, hence every run from
  `init`, keeps the placement;
* `startedLoad_placed` — the placement of every live started load in every
  reachable state, the choice of the store a load parks on, the release of
  parked loads by `commitStore`, and what `purgeFlushed` keeps.
-/

namespace SimEng.Pipeline

open LoadStoreQueue

theorem anyOverlap_ne_nil {xs ys : List MemoryAccessTarget} (h : anyOverlap xs ys = true) :
    xs ≠ [] ∧ ys ≠ [] := by
  constructor <;> rintro rfl <;> simp [anyOverlap] at h

/-- An element of a filtered optional list. -/
theorem mem_getD_map_filter {o : Option (List Nat)} {p : Nat → Bool} {x : Nat} :
    x ∈ (o.map (List.filter p)).getD [] ↔ x ∈ o.getD [] ∧ p x = true := by
  cases o <;> simp

/-! ## The load book -/

/-- What the placement of started loads reads of a back-end state: the shared
instructions, the sequence ids of the reorder buffer and of both queues, the
loads registered in `requestedLoads_`, the loads scheduled in
`requestLoadQueue_` (only how often each occurs matters), `conflictionMap_`,
and the three ghost records. -/
structure LoadBook where
  heap : Heap
  buffer : List Nat
  seqId : Nat
  loadQueue : List Nat
  storeQueue : List Nat
  requested : List Nat
  scheduled : Multiset Nat
  parked : OrderedMap (List Nat)
  started : List Nat
  parkedOn : List (Nat × Nat)
  handed : Multiset Nat

/-- The load book of a back-end state. -/
def Backend.book (s : Backend) : LoadBook where
  heap := s.heap
  buffer := s.rob.buffer
  seqId := s.rob.seqId
  loadQueue := s.lsq.loadQueue
  storeQueue := s.lsq.storeQueue.map Prod.fst
  requested := s.lsq.requestedLoads.keys
  scheduled := s.lsq.requestLoadQueue.values
  parked := s.lsq.conflictionMap
  started := s.started
  parkedOn := s.parkedOn
  handed := s.handed

namespace Backend

variable (s : Backend)

@[simp] theorem book_heap : s.book.heap = s.heap := rfl
@[simp] theorem book_buffer : s.book.buffer = s.rob.buffer := rfl
@[simp] theorem book_seqId : s.book.seqId = s.rob.seqId := rfl
@[simp] theorem book_loadQueue : s.book.loadQueue = s.lsq.loadQueue := rfl
@[simp] theorem book_storeQueue : s.book.storeQueue = s.lsq.storeQueue.map Prod.fst := rfl
@[simp] theorem book_requested : s.book.requested = s.lsq.requestedLoads.keys := rfl
@[simp] theorem book_scheduled : s.book.scheduled = ↑s.lsq.requestLoadQueue.values := rfl
@[simp] theorem book_parked : s.book.parked = s.lsq.conflictionMap := rfl
@[simp] theorem book_started : s.book.started = s.started := rfl
@[simp] theorem book_parkedOn : s.book.parkedOn = s.parkedOn := rfl
@[simp] theorem book_handed : s.book.handed = ↑s.handed := rfl

end Backend

namespace LoadBook

/-- Where started loads are, with the facts about sequence ids, `flushed`
flags, the reorder buffer and the queues that keep it so. -/
structure Placement (b : LoadBook) : Prop where
  buffer_sorted : b.buffer.Pairwise (· < ·)
  buffer_lt : ∀ q ∈ b.buffer, q < b.seqId
  buffer_live : ∀ q ∈ b.buffer, (b.heap q).flushed = false
  buffer_loads : ∀ q ∈ b.buffer, (b.heap q).isLoad = true → q ∈ b.loadQueue
  loadQueue_nodup : b.loadQueue.Nodup
  loadQueue_lt : ∀ q ∈ b.loadQueue, q < b.seqId
  loadQueue_loads : ∀ q ∈ b.loadQueue, (b.heap q).isLoad = true
  storeQueue_sorted : b.storeQueue.Pairwise (· < ·)
  storeQueue_lt : ∀ q ∈ b.storeQueue, q < b.seqId
  storeQueue_live : ∀ q ∈ b.storeQueue, (b.heap q).flushed = false
  started_lt : ∀ q ∈ b.started, q < b.seqId
  started_loads : ∀ q ∈ b.started, (b.heap q).isLoad = true
  requested_queued : ∀ L ∈ b.requested, L ∈ b.loadQueue
  requested_started : ∀ L ∈ b.requested, L ∈ b.started
  scheduled_started : ∀ L ∈ b.scheduled, L ∈ b.started
  handed_started : ∀ L ∈ b.handed, L ∈ b.started
  parked_started : ∀ L ∈ b.parked.values, L ∈ b.started
  parked_buffered : ∀ L ∈ b.parked.values, L ∈ b.buffer
  parked_waiting : ∀ L ∈ b.parked.values, (b.heap L).commitReady = false
  parked_once : ∀ L, b.parked.values.count L ≤ 1
  parked_apart : ∀ L ∈ b.parked.values, L ∉ b.requested ∧ L ∉ b.scheduled ∧ L ∉ b.handed
  scheduled_once : ∀ L, b.scheduled.count L + b.handed.count L ≤ 1
  requested_scheduled : ∀ L ∈ b.requested, b.scheduled.count L + b.handed.count L = 1
  parked_on : ∀ S L, L ∈ (b.parked.find? S).getD [] →
    S ∈ b.storeQueue ∧ S < L ∧
    anyOverlap (b.heap S).generatedAddresses (b.heap L).generatedAddresses = true ∧
    (L, S) ∈ b.parkedOn
  placed : ∀ L ∈ b.started, (b.heap L).generatedAddresses ≠ [] → L ∈ b.loadQueue →
    L ∈ b.requested ∨ L ∈ b.parked.values

variable {b : LoadBook}

namespace Placement

/-- A load that has not started is nowhere in the bookkeeping. -/
theorem unplaced_of_not_started (hb : b.Placement) {uop : Nat} (hs : uop ∉ b.started) :
    uop ∉ b.requested ∧ b.scheduled.count uop = 0 ∧ b.handed.count uop = 0 ∧
      b.parked.values.count uop = 0 :=
  ⟨fun h => hs (hb.requested_started uop h),
    Multiset.count_eq_zero.2 fun h => hs (hb.scheduled_started uop h),
    Multiset.count_eq_zero.2 fun h => hs (hb.handed_started uop h),
    List.count_eq_zero.2 fun h => hs (hb.parked_started uop h)⟩

/-- A parked load is in the load queue. -/
theorem parked_queued (hb : b.Placement) {L : Nat} (hL : L ∈ b.parked.values) : L ∈ b.loadQueue :=
  hb.buffer_loads L (hb.parked_buffered L hL) (hb.started_loads L (hb.parked_started L hL))

/-- A started load with addresses in the load queue is registered and
scheduled or accepted once, or parked in the list of exactly one older store
of the store queue whose addresses overlap its own. -/
theorem placed_exactly (hb : b.Placement) {L : Nat} (hL : L ∈ b.started)
    (ha : (b.heap L).generatedAddresses ≠ []) (hq : L ∈ b.loadQueue) :
    (L ∈ b.requested ∧ L ∉ b.parked.values ∧ b.scheduled.count L + b.handed.count L = 1) ∨
    (L ∉ b.requested ∧ L ∉ b.scheduled ∧ L ∉ b.handed ∧ b.parked.values.count L = 1 ∧
      ∃ S, L ∈ (b.parked.find? S).getD [] ∧ (∀ S', L ∈ (b.parked.find? S').getD [] → S' = S) ∧
        S ∈ b.storeQueue ∧ S < L ∧
        anyOverlap (b.heap S).generatedAddresses (b.heap L).generatedAddresses = true ∧
        (L, S) ∈ b.parkedOn) := by
  rcases hb.placed L hL ha hq with h | h
  · exact .inl ⟨h, fun h' => (hb.parked_apart L h').1 h, hb.requested_scheduled L h⟩
  · obtain ⟨h₁, h₂, h₃⟩ := hb.parked_apart L h
    obtain ⟨S, hS⟩ := OrderedMap.exists_find?_of_mem_values h
    exact .inr ⟨h₁, h₂, h₃, le_antisymm (hb.parked_once L) (List.count_pos_iff.2 h), S, hS,
      fun S' h' => OrderedMap.eq_of_mem_find?_of_count_le_one (hb.parked_once L) h' hS,
      hb.parked_on S L hS⟩

/-! ## Transitions -/

/-- A change of the shared instructions that keeps, at every sequence id
handed out, the `flushed` and `isLoad` flags, any addresses a load has
started with or a store overlaps with, and the `commitReady` flag of every
parked load. -/
theorem with_heap (hb : b.Placement) {heap : Heap}
    (hf : ∀ q < b.seqId, (heap q).flushed = (b.heap q).flushed ∧ (heap q).isLoad = (b.heap q).isLoad)
    (ha : ∀ q < b.seqId, (b.heap q).generatedAddresses ≠ [] ∨ q ∈ b.started →
      (heap q).generatedAddresses = (b.heap q).generatedAddresses)
    (hc : ∀ q ∈ b.parked.values, (heap q).commitReady = (b.heap q).commitReady) :
    Placement { b with heap := heap } where
  __ := hb
  buffer_live q hq := (hf q (hb.buffer_lt q hq)).1.trans (hb.buffer_live q hq)
  buffer_loads q hq hl := hb.buffer_loads q hq ((hf q (hb.buffer_lt q hq)).2.symm.trans hl)
  loadQueue_loads q hq := (hf q (hb.loadQueue_lt q hq)).2.trans (hb.loadQueue_loads q hq)
  storeQueue_live q hq := (hf q (hb.storeQueue_lt q hq)).1.trans (hb.storeQueue_live q hq)
  started_loads q hq := (hf q (hb.started_lt q hq)).2.trans (hb.started_loads q hq)
  parked_waiting L hL := (hc L hL).trans (hb.parked_waiting L hL)
  parked_on S L hL := by
    obtain ⟨h₁, h₂, h₃, h₄⟩ := hb.parked_on S L hL
    have hLs := hb.parked_started L (OrderedMap.mem_of_mem_find? hL)
    refine ⟨h₁, h₂, ?_, h₄⟩
    rw [ha S (hb.storeQueue_lt S h₁) (.inl (anyOverlap_ne_nil h₃).1),
      ha L (hb.started_lt L hLs) (.inr hLs)]
    exact h₃
  placed L hL hne hq := by
    rw [ha L (hb.started_lt L hL) (.inr hL)] at hne
    exact hb.placed L hL hne hq

/-- Renaming: the next sequence id joins the reorder buffer and, by its kind,
the queues. -/
theorem reserve (hb : b.Placement) {insn : Instruction} (hf : insn.flushed = false) :
    Placement { b with
      heap := Function.update b.heap b.seqId insn
      buffer := b.buffer ++ [b.seqId]
      seqId := b.seqId + 1
      loadQueue := b.loadQueue ++ if insn.isLoad then [b.seqId] else []
      storeQueue := b.storeQueue ++ if insn.isStore then [b.seqId] else [] } := by
  have hu : ∀ q < b.seqId, Function.update b.heap b.seqId insn q = b.heap q :=
    fun q hq => Function.update_noteq hq.ne _ _
  have hb' : Placement { b with heap := Function.update b.heap b.seqId insn } :=
    hb.with_heap (fun q hq => by rw [hu q hq]; exact ⟨rfl, rfl⟩) (fun q hq _ => by rw [hu q hq])
      (fun q hq => by rw [hu q (hb.started_lt q (hb.parked_started q hq))])
  have hnew : Function.update b.heap b.seqId insn b.seqId = insn := Function.update_same _ _ _
  exact { hb' with
    buffer_sorted := List.pairwise_append.2 ⟨hb.buffer_sorted, List.pairwise_singleton _ _,
      fun q hq _ h => (List.mem_singleton.1 h) ▸ hb.buffer_lt q hq⟩
    buffer_lt := fun q hq => by
      rcases List.mem_append.1 hq with h | h
      · exact (hb.buffer_lt q h).trans (Nat.lt_succ_self _)
      · rw [List.mem_singleton.1 h]; exact Nat.lt_succ_self _
    buffer_live := fun q hq => by
      rcases List.mem_append.1 hq with h | h
      · exact hb'.buffer_live q h
      · rw [List.mem_singleton.1 h]; exact (congrArg Instruction.flushed hnew).trans hf
    buffer_loads := fun q hq hl => by
      rcases List.mem_append.1 hq with h | h
      · exact List.mem_append_left _ (hb'.buffer_loads q h hl)
      · rw [List.mem_singleton.1 h] at hl ⊢
        exact List.mem_append_right _ (List.mem_ite_nil_right.2 ⟨hnew ▸ hl, List.mem_singleton_self _⟩)
    loadQueue_nodup := List.nodup_append.2 ⟨hb.loadQueue_nodup, by split <;> simp,
      fun q hq h => by
        rw [List.mem_ite_nil_right, List.mem_singleton] at h
        exact (hb.loadQueue_lt q hq).ne h.2⟩
    loadQueue_lt := fun q hq => by
      rcases List.mem_append.1 hq with h | h
      · exact (hb.loadQueue_lt q h).trans (Nat.lt_succ_self _)
      · rw [List.mem_ite_nil_right, List.mem_singleton] at h; rw [h.2]; exact Nat.lt_succ_self _
    loadQueue_loads := fun q hq => by
      rcases List.mem_append.1 hq with h | h
      · exact hb'.loadQueue_loads q h
      · rw [List.mem_ite_nil_right, List.mem_singleton] at h; rw [h.2]; exact (congrArg Instruction.isLoad hnew).trans h.1
    storeQueue_sorted := List.pairwise_append.2 ⟨hb.storeQueue_sorted, by split <;> simp,
      fun q hq r h => by
        rw [List.mem_ite_nil_right, List.mem_singleton] at h
        exact h.2 ▸ hb.storeQueue_lt q hq⟩
    storeQueue_lt := fun q hq => by
      rcases List.mem_append.1 hq with h | h
      · exact (hb.storeQueue_lt q h).trans (Nat.lt_succ_self _)
      · rw [List.mem_ite_nil_right, List.mem_singleton] at h; rw [h.2]; exact Nat.lt_succ_self _
    storeQueue_live := fun q hq => by
      rcases List.mem_append.1 hq with h | h
      · exact hb'.storeQueue_live q h
      · rw [List.mem_ite_nil_right, List.mem_singleton] at h; rw [h.2]; exact (congrArg Instruction.flushed hnew).trans hf
    started_lt := fun q hq => (hb.started_lt q hq).trans (Nat.lt_succ_self _)
    requested_queued := fun L hL => List.mem_append_left _ (hb.requested_queued L hL)
    parked_buffered := fun L hL => List.mem_append_left _ (hb.parked_buffered L hL)
    parked_on := fun S L hL => by
      obtain ⟨h₁, h₂⟩ := hb'.parked_on S L hL
      exact ⟨List.mem_append_left _ h₁, h₂⟩
    placed := fun L hL hne hq => by
      rcases List.mem_append.1 hq with h | h
      · exact hb'.placed L hL hne h
      · rw [List.mem_ite_nil_right, List.mem_singleton] at h
        exact absurd (hb.started_lt L hL) (by omega) }

section Start

variable {uop : Nat} (hu : uop ∈ b.buffer) (hl : (b.heap uop).isLoad = true)
  (hs : uop ∉ b.started)

include hu hl in
/-- Starting a load keeps every fact about started loads but placement. -/
theorem start_facts (hb : b.Placement) :
    (∀ q ∈ b.started ++ [uop], q < b.seqId) ∧ (∀ q ∈ b.started ++ [uop], (b.heap q).isLoad = true) := by
  refine ⟨fun q hq => ?_, fun q hq => ?_⟩ <;> rcases List.mem_append.1 hq with h | h
  · exact hb.started_lt q h
  · exact List.mem_singleton.1 h ▸ hb.buffer_lt uop hu
  · exact hb.started_loads q h
  · exact List.mem_singleton.1 h ▸ hl

include hu hl in
/-- A load that starts without addresses executes at once and is placed
nowhere. -/
theorem start_unplaced (hb : b.Placement) (ha : (b.heap uop).generatedAddresses = []) :
    Placement { b with started := b.started ++ [uop] } :=
  { hb with
    started_lt := (hb.start_facts hu hl).1
    started_loads := (hb.start_facts hu hl).2
    requested_started := fun L h => List.mem_append_left _ (hb.requested_started L h)
    scheduled_started := fun L h => List.mem_append_left _ (hb.scheduled_started L h)
    handed_started := fun L h => List.mem_append_left _ (hb.handed_started L h)
    parked_started := fun L h => List.mem_append_left _ (hb.parked_started L h)
    placed := fun L hL hne hq => by
      rcases List.mem_append.1 hL with h | h
      · exact hb.placed L h hne hq
      · exact absurd (List.mem_singleton.1 h ▸ ha) hne }

include hu hl hs in
/-- A load that overlaps an older store in the queue parks on it. -/
theorem park (hb : b.Placement) (hc : (b.heap uop).commitReady = false) {S : Nat}
    (hS : S ∈ b.storeQueue) (hlt : S < uop)
    (hov : anyOverlap (b.heap S).generatedAddresses (b.heap uop).generatedAddresses = true) :
    Placement { b with
      parked := b.parked.pushBack S uop
      started := b.started ++ [uop]
      parkedOn := b.parkedOn ++ [(uop, S)] } := by
  obtain ⟨hr, hsc, hh, hp⟩ := hb.unplaced_of_not_started hs
  have hmem : ∀ L, L ∈ (b.parked.pushBack S uop).values ↔ L ∈ b.parked.values ∨ L = uop := fun L => by
    rw [(OrderedMap.values_pushBack_perm _ _ _).mem_iff, List.mem_append, List.mem_singleton]
  exact { hb with
    started_lt := (hb.start_facts hu hl).1
    started_loads := (hb.start_facts hu hl).2
    requested_started := fun L h => List.mem_append_left _ (hb.requested_started L h)
    scheduled_started := fun L h => List.mem_append_left _ (hb.scheduled_started L h)
    handed_started := fun L h => List.mem_append_left _ (hb.handed_started L h)
    parked_started := fun L h => by
      rcases (hmem L).1 h with h | rfl
      · exact List.mem_append_left _ (hb.parked_started L h)
      · exact List.mem_append_right _ (List.mem_singleton_self _)
    parked_buffered := fun L h => by
      rcases (hmem L).1 h with h | rfl
      · exact hb.parked_buffered L h
      · exact hu
    parked_waiting := fun L h => by
      rcases (hmem L).1 h with h | rfl
      · exact hb.parked_waiting L h
      · exact hc
    parked_once := fun L => by
      rw [OrderedMap.count_values_pushBack]
      split
      · subst_vars; omega
      · exact hb.parked_once L
    parked_apart := fun L h => by
      rcases (hmem L).1 h with h | rfl
      · exact hb.parked_apart L h
      · exact ⟨hr, Multiset.count_eq_zero.1 hsc, Multiset.count_eq_zero.1 hh⟩
    parked_on := fun S' L h => by
      rw [OrderedMap.find?_pushBack] at h
      split at h
      · subst S'
        rcases List.mem_append.1 h with h | h
        · obtain ⟨h₁, h₂, h₃, h₄⟩ := hb.parked_on S L h
          exact ⟨h₁, h₂, h₃, List.mem_append_left _ h₄⟩
        · rw [List.mem_singleton.1 h]
          exact ⟨hS, hlt, hov, List.mem_append_right _ (List.mem_singleton_self _)⟩
      · obtain ⟨h₁, h₂, h₃, h₄⟩ := hb.parked_on S' L h
        exact ⟨h₁, h₂, h₃, List.mem_append_left _ h₄⟩
    placed := fun L hL hne hq => by
      rcases List.mem_append.1 hL with h | h
      · exact (hb.placed L h hne hq).imp_right fun h => (hmem L).2 (.inl h)
      · exact .inr ((hmem L).2 (.inr (List.mem_singleton.1 h))) }

include hu hl hs in
/-- A load with addresses and no conflicting older store is registered in
`requestedLoads_` and scheduled once. -/
theorem register (hb : b.Placement) {requested : List Nat}
    (hreq : ∀ x, x ∈ requested ↔ x = uop ∨ x ∈ b.requested) :
    Placement { b with
      requested := requested
      scheduled := uop ::ₘ b.scheduled
      started := b.started ++ [uop] } := by
  obtain ⟨hr, hsc, hh, hp⟩ := hb.unplaced_of_not_started hs
  have hne : ∀ L ∈ b.parked.values, L ≠ uop := fun L h e => hs (e ▸ hb.parked_started L h)
  exact { hb with
    started_lt := (hb.start_facts hu hl).1
    started_loads := (hb.start_facts hu hl).2
    requested_queued := fun L h => by
      rcases (hreq L).1 h with rfl | h
      · exact hb.buffer_loads L hu hl
      · exact hb.requested_queued L h
    requested_started := fun L h => by
      rcases (hreq L).1 h with rfl | h
      · exact List.mem_append_right _ (List.mem_singleton_self _)
      · exact List.mem_append_left _ (hb.requested_started L h)
    scheduled_started := fun L h => by
      rcases Multiset.mem_cons.1 h with rfl | h
      · exact List.mem_append_right _ (List.mem_singleton_self _)
      · exact List.mem_append_left _ (hb.scheduled_started L h)
    handed_started := fun L h => List.mem_append_left _ (hb.handed_started L h)
    parked_started := fun L h => List.mem_append_left _ (hb.parked_started L h)
    parked_apart := fun L h => by
      obtain ⟨h₁, h₂, h₃⟩ := hb.parked_apart L h
      refine ⟨fun h' => ?_, fun h' => ?_, h₃⟩
      · rcases (hreq L).1 h' with h' | h'
        · exact hne L h h'
        · exact h₁ h'
      · rcases Multiset.mem_cons.1 h' with h' | h'
        · exact hne L h h'
        · exact h₂ h'
    scheduled_once := fun L => by
      rw [Multiset.count_cons]
      split
      · subst_vars; simp [hsc, hh]
      · simpa using hb.scheduled_once L
    requested_scheduled := fun L h => by
      rw [Multiset.count_cons]
      rcases (hreq L).1 h with rfl | h
      · simp [hsc, hh]
      · have hL : L ≠ uop := fun e => hr (e ▸ h)
        simpa [hL] using hb.requested_scheduled L h
    placed := fun L hL hne' hq => by
      rcases List.mem_append.1 hL with h | h
      · exact (hb.placed L h hne' hq).imp_left fun h => (hreq L).2 (.inr h)
      · exact .inl ((hreq L).2 (.inl (List.mem_singleton.1 h))) }

end Start

section Commit

variable {uop : Nat} {rest : List Nat}

/-- The head of a sorted reorder buffer is not in its tail. -/
theorem head_not_mem_tail (hb : b.Placement) (hbuf : b.buffer = uop :: rest) : uop ∉ rest :=
  fun h => (List.rel_of_pairwise_cons (hbuf ▸ hb.buffer_sorted) h).false

/-- A commit-ready instruction leaves the head of the reorder buffer. -/
theorem pop (hb : b.Placement) (hbuf : b.buffer = uop :: rest) (hc : (b.heap uop).commitReady = true) :
    Placement { b with buffer := rest } := by
  have hsub : ∀ q ∈ rest, q ∈ b.buffer := fun q h => hbuf ▸ List.mem_cons_of_mem _ h
  exact { hb with
    buffer_sorted := (hbuf ▸ hb.buffer_sorted).of_cons
    buffer_lt := fun q h => hb.buffer_lt q (hsub q h)
    buffer_live := fun q h => hb.buffer_live q (hsub q h)
    buffer_loads := fun q h => hb.buffer_loads q (hsub q h)
    parked_buffered := fun L h => by
      have hL := hb.parked_buffered L h
      rw [hbuf] at hL
      rcases List.mem_cons.1 hL with rfl | hL
      · exact absurd (hb.parked_waiting L h) (by simp [hc])
      · exact hL }

/-- `commitLoad`: the load at the head of the load queue, no longer in the
reorder buffer, leaves the load queue and `requestedLoads_`. -/
theorem dropLoad (hb : b.Placement) (hlq : b.loadQueue = uop :: rest) (hnb : uop ∉ b.buffer)
    {requested : List Nat} (hreq : ∀ x, x ∈ requested ↔ x ∈ b.requested ∧ x ≠ uop) :
    Placement { b with loadQueue := rest, requested := requested } := by
  have hnd := hlq ▸ hb.loadQueue_nodup
  have hsub : ∀ q ∈ rest, q ∈ b.loadQueue := fun q h => hlq ▸ List.mem_cons_of_mem _ h
  have hin : ∀ q ∈ b.loadQueue, q ≠ uop → q ∈ rest := fun q h hq => by
    rw [hlq] at h; exact (List.mem_cons.1 h).resolve_left hq
  exact { hb with
    buffer_loads := fun q h hl => hin q (hb.buffer_loads q h hl) fun e => hnb (e ▸ h)
    loadQueue_nodup := (List.nodup_cons.1 hnd).2
    loadQueue_lt := fun q h => hb.loadQueue_lt q (hsub q h)
    loadQueue_loads := fun q h => hb.loadQueue_loads q (hsub q h)
    requested_queued := fun L h => hin L (hb.requested_queued L ((hreq L).1 h).1) ((hreq L).1 h).2
    requested_started := fun L h => hb.requested_started L ((hreq L).1 h).1
    parked_apart := fun L h => by
      obtain ⟨h₁, h₂, h₃⟩ := hb.parked_apart L h
      exact ⟨fun h' => h₁ ((hreq L).1 h').1, h₂, h₃⟩
    requested_scheduled := fun L h => hb.requested_scheduled L ((hreq L).1 h).1
    placed := fun L hL hne hq => (hb.placed L hL hne (hsub L hq)).imp_left fun h =>
      (hreq L).2 ⟨h, fun e => (List.nodup_cons.1 hnd).1 (e ▸ hq)⟩ }

/-- `commitStore` of a store without addresses: it leaves the store queue;
no load can be parked on it. -/
theorem dropStore (hb : b.Placement) (hsq : b.storeQueue = uop :: rest)
    (ha : (b.heap uop).generatedAddresses = []) : Placement { b with storeQueue := rest } := by
  have hsub : ∀ q ∈ rest, q ∈ b.storeQueue := fun q h => hsq ▸ List.mem_cons_of_mem _ h
  exact { hb with
    storeQueue_sorted := (hsq ▸ hb.storeQueue_sorted).of_cons
    storeQueue_lt := fun q h => hb.storeQueue_lt q (hsub q h)
    storeQueue_live := fun q h => hb.storeQueue_live q (hsub q h)
    parked_on := fun S L h => by
      obtain ⟨h₁, h₂, h₃, h₄⟩ := hb.parked_on S L h
      rw [hsq] at h₁
      rcases List.mem_cons.1 h₁ with rfl | h₁
      · exact absurd ha (anyOverlap_ne_nil h₃).1
      · exact ⟨h₁, h₂, h₃, h₄⟩ }

/-- `commitStore` of a store with addresses: it leaves the store queue, and
the loads parked on it are registered and scheduled once each. -/
theorem release (hb : b.Placement) (hsq : b.storeQueue = uop :: rest)
    {parked : OrderedMap (List Nat)} {requested : List Nat}
    (hp : ∀ j, parked.find? j = if j = uop then none else b.parked.find? j)
    (hv : (parked.values ++ (b.parked.find? uop).getD []).Perm b.parked.values)
    (hreq : ∀ x, x ∈ requested ↔ x ∈ b.requested ∨ x ∈ (b.parked.find? uop).getD []) :
    Placement { b with
      storeQueue := rest
      parked := parked
      requested := requested
      scheduled := b.scheduled + ↑((b.parked.find? uop).getD []) } := by
  set ld := (b.parked.find? uop).getD []
  have hsub : ∀ q ∈ rest, q ∈ b.storeQueue := fun q h => hsq ▸ List.mem_cons_of_mem _ h
  have hcount : ∀ L, parked.values.count L + ld.count L = b.parked.values.count L := fun L => by
    rw [← List.count_append]; exact hv.count_eq L
  have hld : ∀ L ∈ ld, L ∈ b.parked.values := fun L h => OrderedMap.mem_of_mem_find? h
  have hpv : ∀ L ∈ parked.values, L ∈ b.parked.values :=
    fun L h => hv.subset (List.mem_append_left _ h)
  have hgone : ∀ L ∈ ld, ld.count L = 1 ∧ L ∉ parked.values := fun L h => by
    have h₁ := hcount L
    have h₂ := hb.parked_once L
    have h₃ := List.count_pos_iff.2 h
    exact ⟨by omega, List.count_eq_zero.1 (by omega)⟩
  have hfresh : ∀ L ∈ ld, (b.scheduled + ↑ld).count L + b.handed.count L = 1 := fun L h => by
    obtain ⟨-, h₂, h₃⟩ := hb.parked_apart L (hld L h)
    rw [Multiset.count_add, Multiset.coe_count, Multiset.count_eq_zero.2 h₂,
      Multiset.count_eq_zero.2 h₃, (hgone L h).1]
  have hold : ∀ L ∉ ld, (b.scheduled + ↑ld).count L = b.scheduled.count L := fun L h => by
    rw [Multiset.count_add, Multiset.coe_count, List.count_eq_zero.2 h, Nat.add_zero]
  exact { hb with
    storeQueue_sorted := (hsq ▸ hb.storeQueue_sorted).of_cons
    storeQueue_lt := fun q h => hb.storeQueue_lt q (hsub q h)
    storeQueue_live := fun q h => hb.storeQueue_live q (hsub q h)
    requested_queued := fun L h => ((hreq L).1 h).elim (hb.requested_queued L)
      fun h => hb.parked_queued (hld L h)
    requested_started := fun L h => ((hreq L).1 h).elim (hb.requested_started L)
      fun h => hb.parked_started L (hld L h)
    scheduled_started := fun L h => (Multiset.mem_add.1 h).elim (hb.scheduled_started L)
      fun h => hb.parked_started L (hld L (Multiset.mem_coe.1 h))
    parked_started := fun L h => hb.parked_started L (hpv L h)
    parked_buffered := fun L h => hb.parked_buffered L (hpv L h)
    parked_waiting := fun L h => hb.parked_waiting L (hpv L h)
    parked_once := fun L => (Nat.le_add_right _ _).trans ((hcount L).trans_le (hb.parked_once L))
    parked_apart := fun L h => by
      obtain ⟨h₁, h₂, h₃⟩ := hb.parked_apart L (hpv L h)
      have hL : L ∉ ld := fun h' => (hgone L h').2 h
      exact ⟨fun h' => ((hreq L).1 h').elim h₁ hL,
        fun h' => (Multiset.mem_add.1 h').elim h₂ fun h' => hL (Multiset.mem_coe.1 h'), h₃⟩
    scheduled_once := fun L => by
      by_cases h : L ∈ ld
      · exact (hfresh L h).le
      · rw [hold L h]; exact hb.scheduled_once L
    requested_scheduled := fun L hL => by
      by_cases h : L ∈ ld
      · exact hfresh L h
      · rw [hold L h]; exact hb.requested_scheduled L (((hreq L).1 hL).resolve_right h)
    parked_on := fun S L h => by
      rw [hp] at h
      split at h
      · simp at h
      · obtain ⟨h₁, h₂, h₃, h₄⟩ := hb.parked_on S L h
        rw [hsq] at h₁
        exact ⟨(List.mem_cons.1 h₁).resolve_left ‹_›, h₂, h₃, h₄⟩
    placed := fun L hL hne hq => by
      rcases hb.placed L hL hne hq with h | h
      · exact .inl ((hreq L).2 (.inl h))
      · by_cases h' : L ∈ ld
        · exact .inl ((hreq L).2 (.inr h'))
        · have h₁ := hcount L
          have h₂ := List.count_pos_iff.2 h
          rw [List.count_eq_zero.2 h'] at h₁
          exact .inr (List.count_pos_iff.1 (show 0 < parked.values.count L by omega)) }

end Commit

/-- A flush after `a` that keeps a parked load keeps the store it is parked
on: the store is older, and the load is in the reorder buffer. -/
theorem flush_keeps_store (hb : b.Placement) {a : Nat} {heap : Heap}
    (hh : ∀ q, heap q = if q ∈ b.buffer ∧ a < q then { b.heap q with flushed := true } else b.heap q)
    {S L : Nat} (hS : L ∈ (b.parked.find? S).getD []) (hL : (heap L).flushed = false) :
    (heap S).flushed = false := by
  obtain ⟨h₁, h₂, -, -⟩ := hb.parked_on S L hS
  have hLb := hb.parked_buffered L (OrderedMap.mem_of_mem_find? hS)
  rw [hh L] at hL
  rw [hh S]
  split
  · rename_i hSb
    rw [if_pos ⟨hLb, by omega⟩] at hL
    cases hL
  · exact hb.storeQueue_live S h₁

/-- A flush after `a`: every instruction of the reorder buffer younger than
`a` is marked flushed and leaves it, and `purgeFlushed` removes the flushed
loads and stores from the queues and the bookkeeping. -/
theorem flush (hb : b.Placement) {a : Nat} {heap : Heap} {requested : List Nat}
    {parked : OrderedMap (List Nat)}
    (hh : ∀ q, heap q = if q ∈ b.buffer ∧ a < q then { b.heap q with flushed := true } else b.heap q)
    (hreq : ∀ x, x ∈ requested ↔ x ∈ b.requested ∧ (heap x).flushed = false)
    (hp : ∀ S, parked.find? S = if S ∈ b.storeQueue ∧ (heap S).flushed = true then none
      else (b.parked.find? S).map (List.filter fun q => !(heap q).flushed))
    (hv : parked.values.Sublist (b.parked.values.filter fun q => !(heap q).flushed)) :
    Placement { b with
      heap := heap
      buffer := b.buffer.filter (· ≤ a)
      loadQueue := b.loadQueue.filter fun q => !(heap q).flushed
      storeQueue := b.storeQueue.filter fun q => !(heap q).flushed
      requested := requested
      scheduled := b.scheduled.filter fun q => (heap q).flushed = false
      parked := parked } := by
  have hsame : ∀ q, (heap q).isLoad = (b.heap q).isLoad ∧
      (heap q).generatedAddresses = (b.heap q).generatedAddresses ∧
      (heap q).commitReady = (b.heap q).commitReady := fun q => by
    rw [hh q]; split <;> exact ⟨rfl, rfl, rfl⟩
  have hflag : ∀ q, (heap q).flushed = true ↔ (q ∈ b.buffer ∧ a < q) ∨ (b.heap q).flushed = true :=
    fun q => by rw [hh q]; split <;> simp [*]
  have hkept : ∀ q ∈ b.buffer, (heap q).flushed = false → q ≤ a := fun q hq hf => by
    by_contra h
    have := (hflag q).2 (.inl ⟨hq, by omega⟩)
    simp_all
  have hlive : ∀ q ∈ b.buffer, q ≤ a → (heap q).flushed = false := fun q hq hle => by
    cases h : (heap q).flushed
    · rfl
    · rcases (hflag q).1 h with ⟨-, h⟩ | h
      · omega
      · rw [hb.buffer_live q hq] at h; cases h
  have hpv : ∀ L ∈ parked.values, L ∈ b.parked.values ∧ (heap L).flushed = false := fun L h => by
    simpa using List.mem_filter.1 (hv.subset h)
  exact { hb with
    buffer_sorted := hb.buffer_sorted.filter _
    buffer_lt := fun q h => hb.buffer_lt q (List.mem_filter.1 h).1
    buffer_live := fun q h => by
      obtain ⟨h₁, h₂⟩ := List.mem_filter.1 h
      exact hlive q h₁ (of_decide_eq_true h₂)
    buffer_loads := fun q h hl => by
      obtain ⟨h₁, h₂⟩ := List.mem_filter.1 h
      refine List.mem_filter.2 ⟨hb.buffer_loads q h₁ ((hsame q).1 ▸ hl), ?_⟩
      rw [hlive q h₁ (of_decide_eq_true h₂)]; rfl
    loadQueue_nodup := hb.loadQueue_nodup.filter _
    loadQueue_lt := fun q h => hb.loadQueue_lt q (List.mem_filter.1 h).1
    loadQueue_loads := fun q h => (hsame q).1.trans (hb.loadQueue_loads q (List.mem_filter.1 h).1)
    storeQueue_sorted := hb.storeQueue_sorted.filter _
    storeQueue_lt := fun q h => hb.storeQueue_lt q (List.mem_filter.1 h).1
    storeQueue_live := fun q h => by simpa using (List.mem_filter.1 h).2
    started_loads := fun q h => (hsame q).1.trans (hb.started_loads q h)
    requested_queued := fun L h => by
      obtain ⟨h₁, h₂⟩ := (hreq L).1 h
      exact List.mem_filter.2 ⟨hb.requested_queued L h₁, by rw [h₂]; rfl⟩
    requested_started := fun L h => hb.requested_started L ((hreq L).1 h).1
    scheduled_started := fun L h => hb.scheduled_started L (Multiset.mem_filter.1 h).1
    parked_started := fun L h => hb.parked_started L (hpv L h).1
    parked_buffered := fun L h => by
      obtain ⟨h₁, h₂⟩ := hpv L h
      have hL := hb.parked_buffered L h₁
      exact List.mem_filter.2 ⟨hL, decide_eq_true (hkept L hL h₂)⟩
    parked_waiting := fun L h => (hsame L).2.2.trans (hb.parked_waiting L (hpv L h).1)
    parked_once := fun L =>
      ((hv.trans (List.filter_sublist _)).count_le L).trans (hb.parked_once L)
    parked_apart := fun L h => by
      obtain ⟨h₁, h₂, h₃⟩ := hb.parked_apart L (hpv L h).1
      exact ⟨fun h' => h₁ ((hreq L).1 h').1, fun h' => h₂ (Multiset.mem_filter.1 h').1, h₃⟩
    scheduled_once := fun L => (Nat.add_le_add_right
      (Multiset.count_le_of_le _ (Multiset.filter_le _ _)) _).trans (hb.scheduled_once L)
    requested_scheduled := fun L h => by
      obtain ⟨h₁, h₂⟩ := (hreq L).1 h
      have hc : (b.scheduled.filter fun q => (heap q).flushed = false).count L =
          b.scheduled.count L := Multiset.count_filter_of_pos h₂
      rw [hc]
      exact hb.requested_scheduled L h₁
    parked_on := fun S L h => by
      rw [hp] at h
      split at h
      · simp at h
      · rename_i hS
        obtain ⟨hL, -⟩ := mem_getD_map_filter.1 h
        obtain ⟨h₁, h₂, h₃, h₄⟩ := hb.parked_on S L hL
        refine ⟨List.mem_filter.2 ⟨h₁, ?_⟩, h₂, by rwa [(hsame S).2.1, (hsame L).2.1], h₄⟩
        simpa using fun h' => hS ⟨h₁, h'⟩
    placed := fun L hL hne hq => by
      obtain ⟨hq, hqf⟩ := List.mem_filter.1 hq
      have hLf : (heap L).flushed = false := by simpa using hqf
      rw [(hsame L).2.1] at hne
      rcases hb.placed L hL hne hq with h | h
      · exact .inl ((hreq L).2 ⟨h, hLf⟩)
      · obtain ⟨S, hS⟩ := OrderedMap.exists_find?_of_mem_values h
        have hSf := hb.flush_keeps_store hh hS hLf
        have hL' : L ∈ (parked.find? S).getD [] := by
          rw [hp, if_neg (by simp [hSf])]
          exact mem_getD_map_filter.2 ⟨hS, by simp [hLf]⟩
        exact .inr (OrderedMap.mem_of_mem_find? hL') }

/-- A tick: the loads the memory management unit accepts leave the scheduled
loads for the accepted ones, one for one. -/
theorem tick (hb : b.Placement) {scheduled accepted : Multiset Nat}
    (hv : b.scheduled = accepted + scheduled) :
    Placement { b with scheduled := scheduled, handed := b.handed + accepted } := by
  have hsub : ∀ L, L ∈ accepted ∨ L ∈ scheduled → L ∈ b.scheduled :=
    fun L h => hv ▸ Multiset.mem_add.2 h
  have hcount : ∀ L, scheduled.count L + (b.handed + accepted).count L =
      b.scheduled.count L + b.handed.count L := fun L => by
    rw [hv, Multiset.count_add, Multiset.count_add]; omega
  exact { hb with
    scheduled_started := fun L h => hb.scheduled_started L (hsub L (.inr h))
    handed_started := fun L h => (Multiset.mem_add.1 h).elim (hb.handed_started L)
      fun h => hb.scheduled_started L (hsub L (.inl h))
    parked_apart := fun L h => by
      obtain ⟨h₁, h₂, h₃⟩ := hb.parked_apart L h
      exact ⟨h₁, fun h' => h₂ (hsub L (.inr h')),
        fun h' => (Multiset.mem_add.1 h').elim h₃ fun h' => h₂ (hsub L (.inl h'))⟩
    scheduled_once := fun L => (hcount L).trans_le (hb.scheduled_once L)
    requested_scheduled := fun L h => (hcount L).trans (hb.requested_scheduled L h) }

end Placement

end LoadBook

/-! ## The events of the back end -/

namespace Backend

variable {s s' : Backend}

theorem placement_init (maxSize : Nat) (config : LoadStoreQueue.Config) :
    (init maxSize config).book.Placement := by
  constructor <;> simp [init, book, OrderedMap.empty, OrderedMap.values, OrderedMap.keys,
    OrderedMap.find?, OrderedMap.findEntries]

/-- A load is `parked` exactly when it is in a confliction list. -/
theorem parked_iff_mem_values (s : Backend) (L : Nat) :
    s.parked L ↔ L ∈ s.lsq.conflictionMap.values := by
  simp [parked, OrderedMap.values, List.mem_flatMap]

theorem rename_placement (hs : s.book.Placement) {insn : Instruction}
    (h : s.step (.rename insn) = .ok s') : s'.book.Placement := by
  simp only [step] at h
  split at h
  · cases h; exact hs
  · rename_i hf
    unfold rename at h
    split at h
    · cases h; exact hs
    · by_cases hlen : s.rob.buffer.length < s.rob.maxSize
      · simp only [ReorderBuffer.reserve, hlen, if_true, Except.map, Except.ok.injEq] at h
        subst h
        convert hs.reserve (Bool.eq_false_iff.2 hf) using 1
        rcases hL : insn.isLoad <;> rcases hS : insn.isStore <;> simp [book, addLoad, addStore, hL, hS]
      · simp [ReorderBuffer.reserve, hlen, Except.map] at h

theorem generateAddresses_placement (hs : s.book.Placement) {uop : Nat}
    {addrs : List MemoryAccessTarget} (h : s.step (.generateAddresses uop addrs) = .ok s') :
    s'.book.Placement := by
  simp only [step] at h
  split at h
  · rename_i hg
    cases h
    refine hs.with_heap (fun q _ => ?_) (fun q _ hq => ?_) (fun q _ => ?_) <;>
      simp only [book_heap, Function.update_apply]
    · split <;> (try subst_vars) <;> exact ⟨rfl, rfl⟩
    · split
      · subst_vars; exact (hq.elim (· hg.2.1) hg.2.2).elim
      · rfl
    · split <;> (try subst_vars) <;> rfl
  · cases h; exact hs

theorem complete_placement (hs : s.book.Placement) {uop : Nat} {e : Bool}
    (h : s.step (.complete uop e) = .ok s') : s'.book.Placement := by
  simp only [step] at h
  split at h
  · rename_i hg
    cases h
    refine hs.with_heap (fun q _ => ?_) (fun q _ _ => ?_) (fun q hq => ?_) <;>
      simp only [book_heap, Function.update_apply]
    · split <;> (try subst_vars) <;> exact ⟨rfl, rfl⟩
    · split <;> (try subst_vars) <;> rfl
    · split
      · subst_vars; exact absurd ((parked_iff_mem_values s _).2 hq) hg.2
      · rfl
  · cases h; exact hs

theorem startLoad_placement (hs : s.book.Placement) {uop : Nat}
    (h : s.step (.startLoad uop) = .ok s') : s'.book.Placement := by
  simp only [step] at h
  split at h
  · obtain ⟨hu, hl, hns, hc⟩ := ‹_ ∧ _›
    cases h
    obtain ⟨h₁, h₂, h₃, h₄, h₅⟩ := @startLoad_spec s.heap uop s.lsq
    have hb₁ : LoadBook.Placement { s.book with heap := (s.lsq.startLoad s.heap uop).1 } :=
      hs.with_heap (fun q _ => ⟨(h₃ q).1, (h₃ q).2.2.1⟩) (fun q _ _ => (h₃ q).2.1)
        (fun q _ => (h₃ q).2.2.2)
    have hl' := (h₃ uop).2.2.1.trans hl
    have hc' := (h₃ uop).2.2.2.trans hc
    cases hp : s.lsq.parkingStore s.heap uop with
    | some S =>
      obtain ⟨-, hS, hlt, hov⟩ := parkingStore_spec hp
      rw [← (h₃ S).2.1, ← (h₃ uop).2.1] at hov
      rw [hp, if_neg (by simp)] at h₅
      rw [hp] at h₄
      convert hb₁.park hu hl' hns hc' hS hlt hov using 1
      simp [book, h₁, h₂, h₄, h₅.1, h₅.2, hp]
    | none =>
      rw [hp] at h₄ h₅
      by_cases ha : (s.heap uop).generatedAddresses = []
      · rw [if_neg (by simp [ha])] at h₅
        rw [← (h₃ uop).2.1] at ha
        convert hb₁.start_unplaced hu hl' ha using 1
        simp [book, h₁, h₂, h₄, h₅.1, h₅.2, hp]
      · rw [if_pos ⟨ha, rfl⟩] at h₅
        have hreq : ∀ x, x ∈ (s.lsq.requestedLoads.emplace uop ()).keys ↔
            x = uop ∨ x ∈ s.lsq.requestedLoads.keys := fun x => by simp [OrderedMap.mem_insertKey]
        convert hb₁.register hu hl' hns hreq using 1
        have hv : (↑(s.lsq.requestLoadQueue.pushBack (s.lsq.tickCounter + (s.heap uop).lsqLatency)
            uop).values : Multiset Nat) = uop ::ₘ ↑s.lsq.requestLoadQueue.values :=
          Multiset.coe_eq_coe.2 ((OrderedMap.values_pushBack_perm _ _ _).trans
            (List.perm_append_singleton _ _))
        simp [book, h₁, h₂, h₄, h₅.1, h₅.2, hv]
  · cases h; exact hs


section Commit

variable {rob : ReorderBuffer} {lsq lsq' : LoadStoreQueue} {uop : Nat}

/-- `commitStore` of the store that left the head of the reorder buffer. -/
theorem commitStore_placement (hs : ({ s with rob := rob, lsq := lsq } : Backend).book.Placement)
    {vf : Bool} (h : lsq.commitStore s.heap uop = .ok (vf, lsq')) :
    ({ s with rob := rob, lsq := lsq' } : Backend).book.Placement := by
  obtain ⟨d, rest, hq, hq', hl', hrest⟩ := commitStore_spec h
  have hsq : ({ s with rob := rob, lsq := lsq } : Backend).book.storeQueue =
      uop :: rest.map Prod.fst := by simp [hq]
  split at hrest
  · rename_i ha
    obtain ⟨hr, hc, hv⟩ := hrest
    convert hs.dropStore hsq ha using 1
    simp [book, hq', hl', hr, hc, hv]
  · obtain ⟨hr, hc, hv⟩ := hrest
    obtain ⟨-, -, hfind, hperm, hkeys, hvals, -⟩ := releaseConflictions_spec s.heap uop lsq
    rw [← hc] at hfind hperm
    rw [← hr] at hkeys
    rw [← hv] at hvals
    convert hs.release hsq hfind hperm hkeys using 1
    simp [book, hq', hl', Multiset.coe_eq_coe.2 hvals, Multiset.coe_add]

/-- `commitLoad` of the load that left the head of the reorder buffer. -/
theorem commitLoad_placement (hs : ({ s with rob := rob, lsq := lsq } : Backend).book.Placement)
    (hu : uop ∉ rob.buffer) (h : lsq.commitLoad s.heap uop = .ok lsq') :
    ({ s with rob := rob, lsq := lsq' } : Backend).book.Placement := by
  obtain ⟨rest, hq, hq', hr, hsq, hc, hv⟩ := commitLoad_spec h hs.loadQueue_loads
  have hreq : ∀ x, x ∈ (lsq.requestedLoads.erase uop).keys ↔ x ∈ lsq.requestedLoads.keys ∧ x ≠ uop :=
    fun x => OrderedMap.mem_keys_erase
  convert hs.dropLoad hq hu hreq using 1
  simp [book, hq', hr, hsq, hc, hv]

/-- The loop of `ReorderBuffer::commit`: each retired instruction leaves the
head of the buffer; a store is committed with `commitStore`, a load with
`commitLoad`. -/
theorem commitLoop_placement {k n n' : Nat} {rob' : ReorderBuffer}
    (hs : ({ s with rob := rob, lsq := lsq } : Backend).book.Placement)
    (h : ReorderBuffer.commitLoop s.heap k n (rob, lsq) = .ok (n', rob', lsq')) :
    ({ s with rob := rob', lsq := lsq' } : Backend).book.Placement := by
  induction k generalizing n rob lsq with
  | zero =>
    simp only [ReorderBuffer.commitLoop, Except.ok.injEq, Prod.mk.injEq] at h
    obtain ⟨-, rfl, rfl⟩ := h
    exact hs
  | succ k ih =>
    rcases hbuf : rob.buffer with _ | ⟨uop, rest⟩
    · simp only [ReorderBuffer.commitLoop, hbuf, Except.ok.injEq, Prod.mk.injEq] at h
      obtain ⟨-, rfl, rfl⟩ := h
      exact hs
    · simp only [ReorderBuffer.commitLoop, hbuf] at h
      split at h
      · simp only [Except.ok.injEq, Prod.mk.injEq] at h
        obtain ⟨-, rfl, rfl⟩ := h
        exact hs
      · rename_i hcc
        have hpop := hs.pop hbuf (by simpa [Instruction.canCommit] using hcc)
        have hu : uop ∉ rest := hs.head_not_mem_tail hbuf
        split at h
        · simp only [Except.ok.injEq, Prod.mk.injEq] at h
          obtain ⟨-, rfl, rfl⟩ := h
          exact hpop
        · split at h
          · cases hcs : lsq.commitStore s.heap uop with
            | error e => simp [hcs, bind, Except.bind] at h
            | ok r =>
              obtain ⟨vf, lsq₁⟩ := r
              simp only [hcs, bind, Except.bind] at h
              split at h
              · simp only [Except.ok.injEq, Prod.mk.injEq] at h
                obtain ⟨-, rfl, rfl⟩ := h
                exact commitStore_placement hpop hcs
              · exact ih (commitStore_placement hpop hcs) h
          · split at h
            · cases hcl : lsq.commitLoad s.heap uop with
              | error e => simp [hcl, bind, Except.bind] at h
              | ok lsq₁ =>
                simp only [hcl, bind, Except.bind] at h
                exact ih (commitLoad_placement hpop hu hcl) h
            · exact ih hpop h

theorem commit_placement (hs : s.book.Placement) {k : Nat} (h : s.step (.commit k) = .ok s') :
    s'.book.Placement := by
  simp only [step, ReorderBuffer.commit] at h
  cases hc : ReorderBuffer.commitLoop s.heap (min k s.rob.buffer.length) 0
    ({ s.rob with shouldFlush := false }, s.lsq) with
  | error e => simp [hc, Except.map] at h
  | ok r =>
    obtain ⟨n', rob', lsq'⟩ := r
    simp only [hc, Except.map, Except.ok.injEq] at h
    subst h
    have hs' : ({ s with rob := { s.rob with shouldFlush := false } } : Backend).book.Placement := hs
    exact commitLoop_placement hs' hc

end Commit

/-- With every registered load in the load queue, `purgeFlushed` drops
exactly the flushed ones from `requestedLoads_`. -/
theorem purge_requested (hs : s.book.Placement) (heap : Heap) (x : Nat) :
    x ∈ (s.lsq.purgeFlushed heap).requestedLoads.keys ↔
      x ∈ s.lsq.requestedLoads.keys ∧ (heap x).flushed = false := by
  rw [(@purgeFlushed_spec heap s.lsq).2.2.1 x]
  exact ⟨fun h => ⟨h.1, by simpa using fun h' => h.2 ⟨hs.requested_queued x h.1, h'⟩⟩,
    fun h => ⟨h.1, fun h' => by simp [h.2] at h'⟩⟩

theorem flush_placement (hs : s.book.Placement) {a : Nat} (h : s.step (.flush a) = .ok s') :
    s'.book.Placement := by
  simp only [step, Except.ok.injEq] at h
  subst h
  obtain ⟨hbuf, hseq, hh⟩ := ReorderBuffer.flush_spec a s.heap s.rob hs.buffer_sorted
  obtain ⟨hl, hsq, -, hv, hp, hsub⟩ :=
    @purgeFlushed_spec (ReorderBuffer.flush a (s.heap, s.rob)).1 s.lsq
  convert hs.flush hh (purge_requested hs _) hp hsub using 1
  simp [book, hbuf, hseq, hl, hsq, hv, List.filter_map, Multiset.filter_coe, Function.comp_def]

theorem tick_placement (hs : s.book.Placement) {answers : List Bool}
    (h : s.step (.tick answers) = .ok s') : s'.book.Placement := by
  simp only [step, Except.ok.injEq] at h
  subst h
  have hv := tickRequests_loads scriptedMMU s.heap s.lsq answers
  convert hs.tick (show s.book.scheduled = _ + _ by rw [book_scheduled, hv, ← Multiset.coe_add]) using 1


/-- **Every event keeps the placement.** -/
theorem step_placement (hs : s.book.Placement) {a : Action} (h : s.step a = .ok s') :
    s'.book.Placement := by
  cases a with
  | rename insn => exact rename_placement hs h
  | generateAddresses uop addrs => exact generateAddresses_placement hs h
  | startLoad uop => exact startLoad_placement hs h
  | complete uop e => exact complete_placement hs h
  | commit k => exact commit_placement hs h
  | flush a => exact flush_placement hs h
  | tick answers => exact tick_placement hs h

/-- Every state a run reaches from `init` has its loads placed. -/
theorem run_placement {maxSize : Nat} {config : LoadStoreQueue.Config} {actions : List Action}
    (h : (init maxSize config).run actions = .ok s) : s.book.Placement :=
  @run_inv (fun s => s.book.Placement) (fun _ _ _ hs h => step_placement hs h) _ _ _
    (placement_init maxSize config) h

/-- Only `startLoad` records a parking, with the store `parkingStore` chose. -/
theorem parkedOn_step {a : Action} (h : s.step a = .ok s') :
    s'.parkedOn = s.parkedOn ∨ ∃ L, a = .startLoad L ∧
      s'.parkedOn = s.parkedOn ++ ((s.lsq.parkingStore s.heap L).map fun S => (L, S)).toList := by
  cases a with
  | rename insn =>
    simp only [step, rename] at h
    split at h
    · cases h; exact .inl rfl
    · split at h
      · cases h; exact .inl rfl
      · cases hr : ReorderBuffer.reserve insn (s.heap, s.rob) with
        | error e => simp [hr, Except.map] at h
        | ok r => simp only [hr, Except.map, Except.ok.injEq] at h; subst h; exact .inl rfl
  | startLoad L =>
    simp only [step] at h
    split at h
    · cases h; exact .inr ⟨L, rfl, rfl⟩
    · cases h; exact .inl rfl
  | commit k =>
    simp only [step] at h
    cases hc : ReorderBuffer.commit s.heap k (s.rob, s.lsq) with
    | error e => simp [hc, Except.map] at h
    | ok r => simp only [hc, Except.map, Except.ok.injEq] at h; subst h; exact .inl rfl
  | generateAddresses uop addrs =>
    simp only [step] at h
    split at h <;> (cases h; exact .inl rfl)
  | complete uop e =>
    simp only [step] at h
    split at h <;> (cases h; exact .inl rfl)
  | flush a => simp only [step, Except.ok.injEq] at h; subst h; exact .inl rfl
  | tick answers => simp only [step, Except.ok.injEq] at h; subst h; exact .inl rfl

/-- What the back end guarantees about started loads in a state. -/
structure LoadsPlaced (s : Backend) : Prop where
  /-- Every started load with addresses that is still in the load queue is
  either registered, not parked, and scheduled once or accepted once; or not
  registered, scheduled nor accepted, and parked in the list of exactly one
  store of the store queue, older than it, overlapping it, and recorded as the
  store `startLoad` parked it on. -/
  placed : ∀ L ∈ s.started, (s.heap L).generatedAddresses ≠ [] → L ∈ s.lsq.loadQueue →
    (L ∈ s.lsq.requestedLoads.keys ∧ L ∉ s.lsq.conflictionMap.values ∧
      s.lsq.requestLoadQueue.values.count L + s.handed.count L = 1) ∨
    (L ∉ s.lsq.requestedLoads.keys ∧ L ∉ s.lsq.requestLoadQueue.values ∧ L ∉ s.handed ∧
      s.lsq.conflictionMap.values.count L = 1 ∧
      ∃ S, L ∈ (s.lsq.conflictionMap.find? S).getD [] ∧
        (∀ S', L ∈ (s.lsq.conflictionMap.find? S').getD [] → S' = S) ∧
        S ∈ s.lsq.storeQueue.map Prod.fst ∧ S < L ∧
        anyOverlap (s.heap S).generatedAddresses (s.heap L).generatedAddresses = true ∧
        (L, S) ∈ s.parkedOn)
  /-- The next event records a parking only at `startLoad`, on the youngest
  store of the store queue older than the load whose addresses overlap its
  own. -/
  parks_youngest : ∀ a s₁, s.step a = .ok s₁ → ∀ L S, (L, S) ∈ s₁.parkedOn →
    (L, S) ∈ s.parkedOn ∨
    a = .startLoad L ∧ S ∈ s.lsq.storeQueue.map Prod.fst ∧ S < L ∧
      anyOverlap (s.heap S).generatedAddresses (s.heap L).generatedAddresses = true ∧
      ∀ S' ∈ s.lsq.storeQueue.map Prod.fst, S < S' → S' < L →
        anyOverlap (s.heap S').generatedAddresses (s.heap L).generatedAddresses = false
  /-- `commitStore` of a store with addresses checks for a violation among the
  loads registered before, none of which is parked on the store, then
  registers and schedules each load parked on it, once. -/
  releases_once : ∀ uop vf lsq', s.lsq.commitStore s.heap uop = .ok (vf, lsq') →
    (s.heap uop).generatedAddresses ≠ [] →
    (vf = true ↔ s.lsq.requestedLoads.keys.filter
      (violates s.heap uop (s.heap uop).generatedAddresses) ≠ []) ∧
    ((s.lsq.conflictionMap.find? uop).getD []).Nodup ∧
    (∀ L ∈ (s.lsq.conflictionMap.find? uop).getD [], L ∉ s.lsq.requestedLoads.keys) ∧
    (∀ x, x ∈ lsq'.requestedLoads.keys ↔
      x ∈ s.lsq.requestedLoads.keys ∨ x ∈ (s.lsq.conflictionMap.find? uop).getD []) ∧
    lsq'.requestLoadQueue.values.Perm
      (s.lsq.requestLoadQueue.values ++ (s.lsq.conflictionMap.find? uop).getD []) ∧
    lsq'.conflictionMap.find? uop = none ∧
    (lsq'.conflictionMap.values ++ (s.lsq.conflictionMap.find? uop).getD []).Perm
      s.lsq.conflictionMap.values
  /-- A flush purges exactly the flushed loads and stores from the queues,
  `requestedLoads_`, `requestLoadQueue_` and the confliction lists. -/
  purges_flushed : ∀ a s₁, s.step (.flush a) = .ok s₁ →
    s₁.lsq.loadQueue = s.lsq.loadQueue.filter (fun q => !(s₁.heap q).flushed) ∧
    s₁.lsq.storeQueue = s.lsq.storeQueue.filter (fun e => !(s₁.heap e.1).flushed) ∧
    (∀ x, x ∈ s₁.lsq.requestedLoads.keys ↔
      x ∈ s.lsq.requestedLoads.keys ∧ (s₁.heap x).flushed = false) ∧
    s₁.lsq.requestLoadQueue.values =
      s.lsq.requestLoadQueue.values.filter (fun q => !(s₁.heap q).flushed) ∧
    ∀ S L, L ∈ (s₁.lsq.conflictionMap.find? S).getD [] ↔
      L ∈ (s.lsq.conflictionMap.find? S).getD [] ∧ (s₁.heap L).flushed = false

/-- **No started load is lost, duplicated or issued past a conflict.** Every
state a run reaches from `init` has its started loads placed. -/
theorem startedLoad_placed {maxSize : Nat} {config : LoadStoreQueue.Config}
    {actions : List Action} (h : (init maxSize config).run actions = .ok s) : s.LoadsPlaced := by
  have hs := run_placement h
  constructor
  · intro L hL ha hq
    simpa [Multiset.coe_count] using hs.placed_exactly hL ha hq
  · intro a s₁ hst L S hLS
    rcases parkedOn_step hst with he | ⟨L', rfl, he⟩
    · exact .inl (he ▸ hLS)
    · rw [he, List.mem_append] at hLS
      rcases hLS with hLS | hLS
      · exact .inl hLS
      · cases hp : s.lsq.parkingStore s.heap L' with
        | none => simp [hp] at hLS
        | some S' =>
          simp only [hp, Option.map_some', Option.toList_some, List.mem_singleton,
            Prod.mk.injEq] at hLS
          obtain ⟨rfl, rfl⟩ := hLS
          obtain ⟨-, h₁, h₂, h₃⟩ := parkingStore_spec hp
          exact .inr ⟨rfl, h₁, h₂, h₃, fun S' hS' => parkingStore_youngest hs.storeQueue_sorted hp hS'⟩
  · intro uop vf lsq' hc ha
    obtain ⟨d, rest, hq, -, -, hrest⟩ := commitStore_spec hc
    rw [if_neg ha] at hrest
    obtain ⟨hr, hcm, hv⟩ := hrest
    obtain ⟨-, -, hfind, hperm, hkeys, hvals, -⟩ := releaseConflictions_spec s.heap uop s.lsq
    have hld : ∀ L ∈ (s.lsq.conflictionMap.find? uop).getD [], L ∈ s.lsq.conflictionMap.values :=
      fun L h => OrderedMap.mem_of_mem_find? h
    refine ⟨(commitStore_violation s.heap uop hc).1, List.nodup_iff_count_le_one.2 fun L => ?_,
      fun L h => (hs.parked_apart L (hld L h)).1, hr ▸ hkeys, hv ▸ hvals,
      by rw [hcm, hfind, if_pos rfl], hcm ▸ hperm⟩
    exact (List.Sublist.count_le (List.sublist_append_right _ _) L).trans
      ((hperm.count_eq L).trans_le (hs.parked_once L))
  · intro a s₁ hst
    simp only [step, Except.ok.injEq] at hst
    subst hst
    have hh := (ReorderBuffer.flush_spec a s.heap s.rob hs.buffer_sorted).2.2
    obtain ⟨hl, hsq, -, hv, hp, -⟩ :=
      @purgeFlushed_spec (ReorderBuffer.flush a (s.heap, s.rob)).1 s.lsq
    refine ⟨hl, hsq, purge_requested hs _, hv, fun S L => ?_⟩
    rw [hp S]
    split
    · rename_i hS
      refine ⟨fun h => absurd h (List.not_mem_nil _), fun ⟨hL, hLf⟩ => ?_⟩
      have := hs.flush_keeps_store hh hL hLf
      simp [hS.2] at this
    · exact mem_getD_map_filter.trans (by simp)

/-- Store 0 and load 1 access the same bytes. The load starts once both have
their addresses and parks on the store; the store then commits and releases
it. -/
def parkRun : List Action :=
  [.rename { isStore := true }, .rename { isLoad := true }, .generateAddresses 0 [access40],
   .generateAddresses 1 [access40], .startLoad 1, .complete 0 false, .commit 1]

example : ∃ s, (init 8 smallQueues).run (parkRun.take 5) = .ok s ∧
    s.lsq.conflictionMap.values = [1] ∧ s.parkedOn = [(1, 0)] :=
  ⟨_, rfl, by decide, by decide⟩

example : ∃ s, (init 8 smallQueues).run parkRun = .ok s ∧
    s.lsq.requestedLoads.keys = [1] ∧ s.lsq.requestLoadQueue.values = [1] ∧
    s.lsq.conflictionMap.values = [] :=
  ⟨_, rfl, by decide, by decide, by decide⟩

theorem parkRun_loadsPlaced : ∃ s, (init 8 smallQueues).run parkRun = .ok s ∧ s.LoadsPlaced :=
  ⟨_, rfl, startedLoad_placed (show (init 8 smallQueues).run parkRun = _ from rfl)⟩

end Backend

end SimEng.Pipeline
