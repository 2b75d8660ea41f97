import Mathlib.Data.Multiset.Basic
import Mathlib.Tactic.Abel
import SimEng.Pipeline.QueueSteps
import SimEng.Pipeline.Violation

/-!
# SimEng — every queued request reaches the memory management unit once

Requests enter `requestLoadQueue_` and `requestStoreQueue_` in three places:
`startLoad` schedules a load it registers, `startStore` a store it starts, and
`commitStore` each load it releases. They leave in two: `tick` hands them to
the memory management unit, which accepts or rejects each, and
`purgeFlushed` drops the flushed loads (stores stay queued).

A `RequestLog` runs the load/store queue under any sequence of calls a core can
make, with instructions flushed and updated by the other units in between,
and records the history of its request queues: what each call placed, what the
memory management unit accepted and at which tick, and what `purgeFlushed`
dropped.

Main results:

* `tickRequests_spec` — one tick, for any memory management unit: each queue
  hands over a prefix of its requests in (due cycle, insertion) order, only due
  ones, stores first on a tie, and a rejection closes only its own type;
* `step_accounted` / `run_accounted` — in every run, the requests queued,
  accepted or purged are those placed, each once per placement; only flushed
  loads are purged; and every accepted request was due when it was handed
  over.
-/

namespace SimEng.Pipeline

open LoadStoreQueue

/-- The request queue of a type: `requestStoreQueue_` for stores,
`requestLoadQueue_` for loads, as `tick` reads them. -/
def LoadStoreQueue.requestQueue (s : LoadStoreQueue) (isStore : Bool) : OrderedMap (List Nat) :=
  if isStore then s.requestStoreQueue else s.requestLoadQueue

/-! ## One tick -/

section Tick

variable {σ : Type} (mmu : MemoryInterface σ) (heap : Heap)

/-- **One tick of `LoadStoreQueue::tick`'s request dispatch.** The counter
advances to `t`. Each request queue, read in (due cycle, insertion) order, is
the requests of its type that the memory management unit accepted, followed
by the requests it still holds. Every call is for a request due by `t`; the
calls come by due cycle, stores first on a tie; a rejected request is the last
call of its type and stays at the front of its queue; and a type that met no
rejection holds no request due by `t`. -/
theorem tickRequests_spec (s : LoadStoreQueue) (m : σ) :
    let r := s.tickRequests mmu heap m
    let t := s.tickCounter + 1
    r.1.tickCounter = t ∧
    (∀ b, (s.requestQueue b).flat = handed b r.2.2 ++ (r.1.requestQueue b).flat) ∧
    (∀ d ∈ r.2.2, d.due ≤ t) ∧
    (r.2.2.map fun d => rank d.isStore d.due).Pairwise (· ≤ ·) ∧
    (∀ d ∈ r.2.2, d.accepted = false →
      (r.1.requestQueue d.isStore).flat.head? = some (d.due, d.insn)) ∧
    (∀ b, ∀ d ∈ (r.2.2.filter fun d => d.isStore == b).dropLast, d.accepted = true) ∧
    (∀ b, (∃ d ∈ r.2.2, d.isStore = b ∧ d.accepted = false) ∨
      ∀ p ∈ (r.1.requestQueue b).flat, t < p.1) := by
  have hq : ∀ b, (s.tickRequests mmu heap m).1.requestQueue b =
      (dispatchLoop mmu heap (s.tickCounter + 1)
        { requestQueue := s.requestQueue, mmu := m }).requestQueue b := fun b => by
    cases b <;> rfl
  obtain ⟨h₁, h₂, h₃, h₄, h₅, h₆⟩ := dispatchLoop_spec mmu heap (s.tickCounter + 1) s.requestQueue m
  exact ⟨rfl, fun b => (hq b).symm ▸ h₁ b, h₂, h₃, fun d hd h => (hq d.isStore).symm ▸ h₄ d hd h,
    h₅, fun b => (hq b).symm ▸ h₆ b⟩

end Tick

/-! ## Calls that leave the request queues alone -/

section Effects

variable {heap : Heap}

theorem supplyStoreData_requestQueue (uop : Nat) (s : LoadStoreQueue) (b : Bool) :
    (s.supplyStoreData heap uop).requestQueue b = s.requestQueue b := by
  unfold supplyStoreData
  split
  · dsimp only
    split <;> rfl
  · rfl

theorem commitLoad_requestQueue {uop : Nat} {s s' : LoadStoreQueue}
    (h : s.commitLoad heap uop = .ok s') (b : Bool) : s'.requestQueue b = s.requestQueue b := by
  unfold commitLoad at h
  split at h
  · cases h
  · split at h
    · cases h
    · split at h <;> (simp only [Except.ok.injEq] at h; subst h; rfl)

theorem startLoad_requestStoreQueue (uop : Nat) (s : LoadStoreQueue) :
    (s.startLoad heap uop).2.requestStoreQueue = s.requestStoreQueue ∧
      (s.startLoad heap uop).2.tickCounter = s.tickCounter := by
  unfold startLoad
  by_cases ha : (heap uop).generatedAddresses = []
  · simp [ha]
  · by_cases hio : s.config.completionOrder = .INORDER <;>
      simp only [ha, hio, if_true, if_false] <;>
      cases conflictingStore heap uop (heap uop).generatedAddresses s.storeQueue.reverse <;>
      exact ⟨rfl, rfl⟩

theorem commitStore_requestStoreQueue {uop : Nat} {s s' : LoadStoreQueue} {b : Bool}
    (h : s.commitStore heap uop = .ok (b, s')) : s'.requestStoreQueue = s.requestStoreQueue := by
  unfold commitStore at h
  dsimp only at h
  split at h
  · cases h
  · split at h
    · cases h
    · split at h
      · simp only [Except.ok.injEq, Prod.mk.injEq] at h
        rw [← h.2]
      · simp only [Except.ok.injEq, Prod.mk.injEq] at h
        rw [← h.2]
        exact (releaseConflictions_spec heap uop s).2.2.2.2.2.2.2

/-- `startStore` schedules a store with addresses for the current cycle, and
changes no `flushed` flag. -/
theorem startStore_spec {uop : Nat} {s s' : LoadStoreQueue} {heap' : Heap}
    (h : s.startStore heap uop = .ok (heap', s')) :
    s'.requestLoadQueue = s.requestLoadQueue ∧ (∀ q, (heap' q).flushed = (heap q).flushed) ∧
    s'.requestStoreQueue = if (heap uop).generatedAddresses = [] then s.requestStoreQueue
      else s.requestStoreQueue.pushBack s.tickCounter uop := by
  unfold startStore at h
  dsimp only at h
  have hf : ∀ q, (Function.update heap uop
      { heap uop with commitReady := false, data := (s.storeQueue.head?.map Prod.snd).getD [] } q).flushed =
      (heap q).flushed := fun q => by
    rw [Function.update_apply]; split <;> simp_all
  split at h
  · rename_i ha
    simp only [Except.ok.injEq, Prod.mk.injEq] at h
    obtain ⟨rfl, rfl⟩ := h
    exact ⟨rfl, fun _ => rfl, by rw [if_pos ha]⟩
  · rename_i ha
    rw [if_neg ha]
    split at h
    · cases h
    · split at h
      · split at h
        · cases h
        · split at h
          all_goals
            simp only [Except.ok.injEq, Prod.mk.injEq] at h
            obtain ⟨rfl, rfl⟩ := h
            exact ⟨rfl, hf, rfl⟩
      · simp only [Except.ok.injEq, Prod.mk.injEq] at h
        obtain ⟨rfl, rfl⟩ := h
        exact ⟨rfl, hf, rfl⟩

end Effects

/-! ## Runs of the load/store queue -/

/-- A call a core makes on the load/store queue, or a change another unit
makes to a shared instruction. -/
inductive QueueCall
  | addLoad (uop : Nat)
  | addStore (uop : Nat)
  | supplyStoreData (uop : Nat)
  | startLoad (uop : Nat)
  | startStore (uop : Nat)
  | commitStore (uop : Nat)
  | commitLoad (uop : Nat)
  /-- The core marks instructions flushed, then calls `purgeFlushed`. -/
  | flush (uops : List Nat)
  /-- Another unit updates an instruction; a flushed instruction stays flushed. -/
  | write (uop : Nat) (insn : Instruction)
  /-- `tick`, against a memory management unit that answers from `answers`. -/
  | tick (answers : List Bool)

/-- The load/store queue with the shared instructions, and the history of its
request queues: the requests each call placed, by type, with their due
cycles; each request the memory management unit accepted, with the tick
counter at which it was handed over; and the loads `purgeFlushed` dropped,
with their due cycles. -/
structure RequestLog where
  heap : Heap
  lsq : LoadStoreQueue
  placed : Bool → List (Nat × Nat) := fun _ => []
  accepted : List (Nat × Dispatch) := []
  purged : List (Nat × Nat) := []

namespace RequestLog

/-- The requests a call places, by type, with their due cycles: the load that
`startLoad` registers, `lsqLatency` cycles ahead; the store that `startStore`
starts, for the current cycle; and each load that `commitStore` releases, one
cycle later than a fresh load. -/
def placements (r : RequestLog) : QueueCall → Bool → List (Nat × Nat)
  | .startLoad uop, false =>
    if (r.heap uop).generatedAddresses ≠ [] ∧ r.lsq.parkingStore r.heap uop = none then
      [(r.lsq.tickCounter + (r.heap uop).lsqLatency, uop)]
    else []
  | .startStore uop, true =>
    if (r.heap uop).generatedAddresses ≠ [] then [(r.lsq.tickCounter, uop)] else []
  | .commitStore uop, false =>
    if (r.heap uop).generatedAddresses ≠ [] then
      ((r.lsq.conflictionMap.find? uop).getD []).map fun L =>
        (r.lsq.tickCounter + 1 + (r.heap L).lsqLatency, L)
    else []
  | _, _ => []

/-- One call, recorded. -/
def step (r : RequestLog) (c : QueueCall) : Except String RequestLog :=
  let placed := fun b => r.placed b ++ r.placements c b
  match c with
  | .addLoad uop => .ok { r with lsq := r.lsq.addLoad uop, placed := placed }
  | .addStore uop => .ok { r with lsq := r.lsq.addStore uop, placed := placed }
  | .supplyStoreData uop =>
    .ok { r with lsq := r.lsq.supplyStoreData r.heap uop, placed := placed }
  | .startLoad uop =>
    let started := r.lsq.startLoad r.heap uop
    .ok { r with heap := started.1, lsq := started.2, placed := placed }
  | .startStore uop =>
    (r.lsq.startStore r.heap uop).map fun started =>
      { r with heap := started.1, lsq := started.2, placed := placed }
  | .commitStore uop =>
    (r.lsq.commitStore r.heap uop).map fun committed => { r with lsq := committed.2, placed := placed }
  | .commitLoad uop =>
    (r.lsq.commitLoad r.heap uop).map fun lsq => { r with lsq := lsq, placed := placed }
  | .flush uops =>
    let heap := uops.foldl Heap.setFlushed r.heap
    .ok { r with
      heap := heap
      lsq := r.lsq.purgeFlushed heap
      placed := placed
      purged := r.purged ++ r.lsq.requestLoadQueue.flat.filter fun p => (heap p.2).flushed }
  | .write uop insn =>
    .ok { r with
      heap := Function.update r.heap uop { insn with flushed := insn.flushed || (r.heap uop).flushed }
      placed := placed }
  | .tick answers =>
    let ticked := r.lsq.tickRequests scriptedMMU r.heap answers
    .ok { r with
      lsq := ticked.1
      placed := placed
      accepted := r.accepted ++ (ticked.2.2.filter (·.accepted)).map fun d => (ticked.1.tickCounter, d) }

/-- A run: the calls in order, stopping at a failed assertion. -/
def run (r : RequestLog) : List QueueCall → Except String RequestLog
  | [] => .ok r
  | c :: rest => (r.step c).bind fun r' => run r' rest

/-- A new load/store queue, with no history. -/
def init (config : LoadStoreQueue.Config) : RequestLog :=
  { heap := fun _ => default, lsq := { config := config } }

/-- The accepted requests of a type, with their due cycles, in order. -/
def acceptedOf (r : RequestLog) (isStore : Bool) : List (Nat × Nat) :=
  handed isStore (r.accepted.map Prod.snd)

/-- The request history balances: each type's requests placed are, once per
placement, either still queued, accepted, or (loads only) purged; a purged
load is flushed; and each accepted request was due when handed over. -/
structure Accounted (r : RequestLog) : Prop where
  balanced : ∀ b, ((r.lsq.requestQueue b).flat ++ r.acceptedOf b ++
    (if b then [] else r.purged)).Perm (r.placed b)
  purged_flushed : ∀ p ∈ r.purged, (r.heap p.2).flushed = true
  accepted_due : ∀ a ∈ r.accepted, a.2.accepted = true ∧ a.2.due ≤ a.1


variable {r r' : RequestLog}

/-- Request conservation, as multisets: what the queue gains by a call is what
it places, less what it hands over or purges. -/
theorem perm_balance {Q Q' H A X Y Pl P : List (Nat × Nat)} (h₁ : (Q ++ H ++ X).Perm Pl)
    (h₂ : (Q' ++ A ++ Y).Perm (Q ++ P)) : (Q' ++ (H ++ A) ++ (X ++ Y)).Perm (Pl ++ P) := by
  rw [← Multiset.coe_eq_coe] at h₁ h₂ ⊢
  simp only [← Multiset.coe_add] at h₁ h₂ ⊢
  calc (Q' : Multiset (Nat × Nat)) + (H + A) + (X + Y) = (Q' + A + Y) + H + X := by abel
    _ = Q + P + H + X := by rw [h₂]
    _ = Pl + P := by rw [← h₁]; abel

/-- A call keeps the accounting when the history grows by what it placed
(`P`), accepted (`N`, handed over as `A`) and purged (`U`), and its queues
change accordingly; flags stay set, purged loads are flushed and accepted
requests were due. -/
theorem Accounted.extend (hr : r.Accounted) (P A : Bool → List (Nat × Nat))
    (U : List (Nat × Nat)) (N : List (Nat × Dispatch))
    (hplaced : ∀ b, r'.placed b = r.placed b ++ P b) (hacc : r'.accepted = r.accepted ++ N)
    (hA : ∀ b, handed b (N.map Prod.snd) = A b) (hpurged : r'.purged = r.purged ++ U)
    (hq : ∀ b, ((r'.lsq.requestQueue b).flat ++ A b ++ (if b then [] else U)).Perm
      ((r.lsq.requestQueue b).flat ++ P b))
    (hflag : ∀ q, (r.heap q).flushed = true → (r'.heap q).flushed = true)
    (hU : ∀ p ∈ U, (r'.heap p.2).flushed = true)
    (hN : ∀ a ∈ N, a.2.accepted = true ∧ a.2.due ≤ a.1) : r'.Accounted where
  balanced b := by
    have hX : (if b then [] else r'.purged) = (if b then [] else r.purged) ++ (if b then [] else U) := by
      cases b <;> simp [hpurged]
    rw [hplaced, acceptedOf, hacc, List.map_append, handed_append, hA, hX]
    exact perm_balance (hr.balanced b) (hq b)
  purged_flushed p hp := by
    rw [hpurged, List.mem_append] at hp
    exact hp.elim (fun hp => hflag _ (hr.purged_flushed p hp)) (hU p)
  accepted_due a ha := by
    rw [hacc, List.mem_append] at ha
    exact ha.elim (hr.accepted_due a) (hN a)

theorem accounted_init (config : LoadStoreQueue.Config) : (init config).Accounted where
  balanced b := by cases b <;> simp [init, LoadStoreQueue.requestQueue, acceptedOf, handed,
    OrderedMap.flat, OrderedMap.empty]
  purged_flushed p hp := by simp [init] at hp
  accepted_due a ha := by simp [init] at ha


/-- A call that hands nothing over and purges nothing keeps the accounting
when its queues gain exactly what it places. -/
theorem Accounted.place (hr : r.Accounted) (P : Bool → List (Nat × Nat))
    (hplaced : ∀ b, r'.placed b = r.placed b ++ P b) (hacc : r'.accepted = r.accepted)
    (hpurged : r'.purged = r.purged)
    (hq : ∀ b, (r'.lsq.requestQueue b).flat.Perm ((r.lsq.requestQueue b).flat ++ P b))
    (hflag : ∀ q, (r.heap q).flushed = true → (r'.heap q).flushed = true) : r'.Accounted :=
  hr.extend P (fun _ => []) [] [] hplaced (by simp [hacc]) (fun _ => rfl) (by simp [hpurged])
    (fun b => by simpa using hq b) hflag (by simp) (by simp)

theorem foldl_setFlushed_flushed (uops : List Nat) (heap : Heap) (q : Nat) :
    (uops.foldl Heap.setFlushed heap q).flushed = (decide (q ∈ uops) || (heap q).flushed) := by
  induction uops generalizing heap with
  | nil => simp
  | cons u rest ih =>
    rw [List.foldl_cons, ih, Heap.setFlushed_flushed]
    by_cases hu : q = u <;> by_cases hr : q ∈ rest <;> simp [hu, hr]

/-- **Every call keeps the request accounting.** -/
theorem step_accounted (hr : r.Accounted) {c : QueueCall} (h : r.step c = .ok r') :
    r'.Accounted := by
  cases c with
  | addLoad uop | addStore uop =>
    simp only [step, Except.ok.injEq] at h
    subst h
    exact hr.place _ (fun _ => rfl) rfl rfl
      (fun b => by cases b <;> simp [placements, LoadStoreQueue.requestQueue, addLoad, addStore])
      fun _ h => h
  | supplyStoreData uop =>
    simp only [step, Except.ok.injEq] at h
    subst h
    exact hr.place _ (fun _ => rfl) rfl rfl
      (fun b => by rw [supplyStoreData_requestQueue]; cases b <;> simp [placements]) fun _ h => h
  | startLoad uop =>
    simp only [step, Except.ok.injEq] at h
    subst h
    obtain ⟨-, -, h₃, -, h₅⟩ := @startLoad_spec r.heap uop r.lsq
    refine hr.place _ (fun _ => rfl) rfl rfl (fun b => ?_) fun q hq => (h₃ q).1.trans hq
    cases b
    · simp only [LoadStoreQueue.requestQueue, placements, Bool.false_eq_true, if_false]
      by_cases hc : (r.heap uop).generatedAddresses ≠ [] ∧ r.lsq.parkingStore r.heap uop = none
      · rw [if_pos hc] at h₅ ⊢
        rw [h₅.2]; exact OrderedMap.flat_pushBack_perm _ _ _
      · rw [if_neg hc] at h₅ ⊢
        rw [h₅.2, List.append_nil]
    · simp [LoadStoreQueue.requestQueue, placements, (startLoad_requestStoreQueue uop r.lsq).1]
  | startStore uop =>
    cases hs : r.lsq.startStore r.heap uop with
    | error e => simp [step, hs, Except.map] at h
    | ok st =>
      obtain ⟨heap', lsq'⟩ := st
      simp only [step, hs, Except.map, Except.ok.injEq] at h
      subst h
      obtain ⟨h₁, h₂, h₃⟩ := startStore_spec hs
      refine hr.place _ (fun _ => rfl) rfl rfl (fun b => ?_) fun q hq => (h₂ q).trans hq
      cases b
      · simp [LoadStoreQueue.requestQueue, placements, h₁]
      · simp only [LoadStoreQueue.requestQueue, placements, if_true, h₃]
        by_cases ha : (r.heap uop).generatedAddresses = []
        · simp [ha]
        · simp only [ha, if_false, ne_eq, not_false_eq_true, if_true]
          exact OrderedMap.flat_pushBack_perm _ _ _
  | commitStore uop =>
    cases hs : r.lsq.commitStore r.heap uop with
    | error e => simp [step, hs, Except.map] at h
    | ok st =>
      obtain ⟨vf, lsq'⟩ := st
      simp only [step, hs, Except.map, Except.ok.injEq] at h
      subst h
      obtain ⟨-, -, -, -, -, hrest⟩ := commitStore_spec hs
      refine hr.place _ (fun _ => rfl) rfl rfl (fun b => ?_) fun _ h => h
      cases b
      · simp only [LoadStoreQueue.requestQueue, placements, Bool.false_eq_true, if_false]
        split at hrest
        · rename_i ha
          rw [hrest.2.2, if_neg (not_not.2 ha), List.append_nil]
        · rename_i ha
          rw [hrest.2.2, if_pos ha]
          exact (releaseConflictions_spec r.heap uop r.lsq).2.2.2.2.2.2.1
      · simp [LoadStoreQueue.requestQueue, placements, commitStore_requestStoreQueue hs]
  | commitLoad uop =>
    cases hs : r.lsq.commitLoad r.heap uop with
    | error e => simp [step, hs, Except.map] at h
    | ok lsq' =>
      simp only [step, hs, Except.map, Except.ok.injEq] at h
      subst h
      exact hr.place _ (fun _ => rfl) rfl rfl
        (fun b => by rw [commitLoad_requestQueue hs]; cases b <;> simp [placements]) fun _ h => h
  | flush uops =>
    simp only [step, Except.ok.injEq] at h
    subst h
    set heap := uops.foldl Heap.setFlushed r.heap
    refine hr.extend _ (fun _ => []) (r.lsq.requestLoadQueue.flat.filter fun p => (heap p.2).flushed)
      [] (fun _ => rfl) (by simp) (fun _ => rfl) rfl (fun b => ?_) (fun q hq => ?_)
      (fun p hp => by simpa using (List.mem_filter.1 hp).2) (by simp)
    · cases b
      · simp only [LoadStoreQueue.requestQueue, placements, Bool.false_eq_true, if_false,
          purgeFlushed, OrderedMap.flat_mapValues_filter, List.append_nil]
        simpa using List.filter_append_perm (fun p => !(heap p.2).flushed) r.lsq.requestLoadQueue.flat
      · simp [LoadStoreQueue.requestQueue, placements, purgeFlushed]
    · simp [heap, foldl_setFlushed_flushed, hq]
  | write uop insn =>
    simp only [step, Except.ok.injEq] at h
    subst h
    refine hr.place _ (fun _ => rfl) rfl rfl (fun b => by cases b <;> simp [placements])
      fun q hq => ?_
    dsimp only
    rw [Function.update_apply]
    split
    · subst_vars; simp [hq]
    · exact hq
  | tick answers =>
    simp only [step, Except.ok.injEq] at h
    subst h
    obtain ⟨h₁, h₂, h₃, -⟩ := tickRequests_spec scriptedMMU r.heap r.lsq answers
    set ticked := r.lsq.tickRequests scriptedMMU r.heap answers
    refine hr.extend _ (fun b => handed b ticked.2.2) [] _ (fun _ => rfl) rfl (fun b => ?_) (by simp)
      (fun b => ?_) (fun _ h => h) (by simp) (fun a ha => ?_)
    · simp only [List.map_map, Function.comp_def, List.map_id', handed, List.filter_filter]
      congr 1
      exact List.filter_congr fun d _ => by cases d.accepted <;> simp
    · cases b <;> simpa [placements, h₂] using List.perm_append_comm
    · obtain ⟨d, hd, rfl⟩ := List.mem_map.1 ha
      obtain ⟨hd, hacc⟩ := List.mem_filter.1 hd
      exact ⟨hacc, h₁ ▸ h₃ d hd⟩

/-- Every run keeps the request accounting. -/
theorem run_accounted {calls : List QueueCall} (hr : r.Accounted) (h : r.run calls = .ok r') :
    r'.Accounted := by
  induction calls generalizing r with
  | nil => simp only [run, Except.ok.injEq] at h; exact h ▸ hr
  | cons c rest ih =>
    cases hst : r.step c with
    | error e => simp [run, hst, Except.bind] at h
    | ok r₁ => simp only [run, hst, Except.bind] at h; exact ih (step_accounted hr hst) h

end RequestLog

/-- **Every queued request reaches the memory management unit once.** In one
tick, against any memory management unit, each request queue hands over a
prefix of its requests in (due cycle, insertion) order, each due by the new
counter; the calls come by due cycle, stores first on a tie; a rejected
request is the last call of its type and stays at the front of its queue; and
a type that met no rejection keeps no due request. Over every run of the
load/store queue, the requests placed by `startLoad`, `startStore` and
`commitStore` are, once per placement, still queued, accepted, or (flushed
loads only) purged, and each was accepted at a tick no earlier than its due
cycle. -/
theorem requests_handed_once :
    (∀ {σ : Type} (mmu : MemoryInterface σ) (heap : Heap) (s : LoadStoreQueue) (m : σ),
      let r := s.tickRequests mmu heap m
      let t := s.tickCounter + 1
      r.1.tickCounter = t ∧
      (∀ b, (s.requestQueue b).flat = handed b r.2.2 ++ (r.1.requestQueue b).flat) ∧
      (∀ d ∈ r.2.2, d.due ≤ t) ∧
      (r.2.2.map fun d => rank d.isStore d.due).Pairwise (· ≤ ·) ∧
      (∀ d ∈ r.2.2, d.accepted = false →
        (r.1.requestQueue d.isStore).flat.head? = some (d.due, d.insn)) ∧
      (∀ b, ∀ d ∈ (r.2.2.filter fun d => d.isStore == b).dropLast, d.accepted = true) ∧
      (∀ b, (∃ d ∈ r.2.2, d.isStore = b ∧ d.accepted = false) ∨
        ∀ p ∈ (r.1.requestQueue b).flat, t < p.1)) ∧
    (∀ (config : LoadStoreQueue.Config) (calls : List QueueCall) (r : RequestLog),
      (RequestLog.init config).run calls = .ok r → r.Accounted) :=
  ⟨fun mmu heap s m => tickRequests_spec mmu heap s m,
    fun config _ _ h => RequestLog.run_accounted (RequestLog.accounted_init config) h⟩

/-- Load 0 reads `access40`: it enters the load queue and starts with no
older store to wait for, so `startLoad` schedules it. -/
def loadRequestRun : List QueueCall :=
  [.write 0 { isLoad := true, generatedAddresses := [Backend.access40] }, .addLoad 0, .startLoad 0]

example : ∃ r, (RequestLog.init Backend.smallQueues).run loadRequestRun = .ok r ∧
    r.lsq.requestLoadQueue.flat = [(0, 0)] ∧ r.placed false = [(0, 0)] :=
  ⟨_, rfl, by decide, by decide⟩

/-- Two ticks after `loadRequestRun`: the first hands the load over and the
memory management unit accepts it, the second finds nothing queued. -/
theorem loadRequestRun_accounted :
    ∃ r, (RequestLog.init Backend.smallQueues).run (loadRequestRun ++ [.tick [true], .tick [true]]) = .ok r ∧
      r.accepted.length = 1 ∧ r.Accounted := by
  refine ⟨_, rfl, ?_, requests_handed_once.2 Backend.smallQueues
    (loadRequestRun ++ [QueueCall.tick [true], QueueCall.tick [true]]) _ (by rfl)⟩
  simp only [loadRequestRun, List.cons_append, List.nil_append, RequestLog.run, RequestLog.step,
    LoadStoreQueue.tickRequests, Except.bind]
  rw [@dispatchLoop_of_some _ _ _ _ _ true ?queued ?chosen]
  case queued => decide
  case chosen => rfl
  rw [dispatchLoop_of_empty _ _ ?served, dispatchLoop_of_empty _ _ ?empty]
  case served => decide
  case empty => decide
  decide

end SimEng.Pipeline
