import Mathlib.Data.List.Nodup
import SimEng.Pipeline.Completion

/-!
# SimEng — each completed instruction is delivered once, and only when ready

Over every run of the load/store queue (`LsqRun`), in either completion
order, the instructions that have entered `completedRequests_` (those that
left it, then those still in it) are all distinct. The argument keeps
`LsqRun.Inv`: a load enters `completedRequests_` only from `startLoad` (which
each load meets once) or, in `OUTOFORDER` mode, when it executes (which each
load does once); a store-conditional enters only from `startStore` in
`INORDER` mode, or from `requestedCondStore_` in `OUTOFORDER` mode, which it
then leaves. The drain's checks give the rest.

Main results:

* `lsqRun_delivers_once` — the facts above, over every run from `init`;
* `inorder_condStore_stays_tracked` — in `INORDER` mode, a second
  store-conditional fails `startStore`'s assertion even after the first was
  delivered.
-/

namespace SimEng

/-- What no event of the load/store queue changes of an instruction, and the
flag that only grows: its kind, its addresses and whether it has executed
stay, and once it has all its data it keeps it. -/
structure Instruction.Evolves (a b : Instruction) : Prop where
  isLoad : b.isLoad = a.isLoad
  isStoreCond : b.isStoreCond = a.isStoreCond
  generatedAddresses : b.generatedAddresses = a.generatedAddresses
  hasExecuted : b.hasExecuted = a.hasExecuted
  hasAllData : a.hasAllData = true → b.hasAllData = true

namespace Instruction.Evolves

theorem refl (a : Instruction) : a.Evolves a := ⟨rfl, rfl, rfl, rfl, id⟩

theorem trans {a b c : Instruction} (h₁ : a.Evolves b) (h₂ : b.Evolves c) : a.Evolves c :=
  ⟨h₂.isLoad.trans h₁.isLoad, h₂.isStoreCond.trans h₁.isStoreCond,
    h₂.generatedAddresses.trans h₁.generatedAddresses, h₂.hasExecuted.trans h₁.hasExecuted,
    fun h => h₂.hasAllData (h₁.hasAllData h)⟩

end Instruction.Evolves

theorem evolves_update {heap : Heap} {uop : Nat} {i : Instruction} (hi : (heap uop).Evolves i) (q : Nat) :
    (heap q).Evolves (Function.update heap uop i q) := by
  rw [Function.update_apply]
  split
  · subst_vars; exact hi
  · exact .refl _

theorem evolves_foldl_setFlushed (uops : List Nat) (heap : Heap) (q : Nat) :
    (heap q).Evolves ((uops.foldl Heap.setFlushed heap) q) := by
  induction uops generalizing heap with
  | nil => exact .refl _
  | cons uop uops ih =>
    refine .trans ?_ (ih (heap.setFlushed uop))
    rw [Heap.setFlushed_apply]
    exact ⟨rfl, rfl, rfl, rfl, id⟩

@[simp] theorem Heap.execute_isLoad (heap : Heap) (uop q : Nat) : (heap.execute uop q).isLoad = (heap q).isLoad := by
  rw [Heap.execute_apply]; split <;> rfl

@[simp] theorem Heap.execute_isStoreCond (heap : Heap) (uop q : Nat) :
    (heap.execute uop q).isStoreCond = (heap q).isStoreCond := by
  rw [Heap.execute_apply]; split <;> rfl

@[simp] theorem Heap.execute_generatedAddresses (heap : Heap) (uop q : Nat) :
    (heap.execute uop q).generatedAddresses = (heap q).generatedAddresses := by
  rw [Heap.execute_apply]; split <;> rfl

@[simp] theorem Heap.execute_hasAllData (heap : Heap) (uop q : Nat) :
    (heap.execute uop q).hasAllData = (heap q).hasAllData := by
  rw [Heap.execute_apply]; split <;> rfl

@[simp] theorem Heap.execute_hasExecuted (heap : Heap) (uop q : Nat) :
    (heap.execute uop q).hasExecuted = (decide (q = uop) || (heap q).hasExecuted) := by
  rw [Heap.execute_apply]; split <;> simp_all

namespace Pipeline

namespace LsqRun

variable {config : LoadStoreQueue.Config}

/-- The invariant of runs of the load/store queue built with `config`. -/
structure Inv (config : LoadStoreQueue.Config) (r : LsqRun) : Prop where
  config_eq : r.lsq.config = config
  started_loads : ∀ q, (false, q) ∈ r.started → (r.heap q).isLoad = true ∧ (r.heap q).isStoreCond = false
  known_loads : ∀ q, q ∈ r.lsq.requestedLoads.keys ∨ q ∈ r.lsq.conflictionMap.values → (false, q) ∈ r.started
  tracked : ∀ q, r.lsq.requestedCondStore = some q → (true, q) ∈ r.started ∧ (r.heap q).isStoreCond = true ∧
    (r.heap q).isLoad = false ∧ (config.completionOrder = .OUTOFORDER → q ∉ r.history)
  nodup : r.history.Nodup
  loads_started : ∀ q ∈ r.history, (r.heap q).isLoad = true → (false, q) ∈ r.started
  condStores_started : ∀ q ∈ r.history, (r.heap q).isStoreCond = true → (true, q) ∈ r.started
  executed_history : config.completionOrder = .OUTOFORDER →
    ∀ q ∈ r.history, (r.heap q).isLoad = true → (r.heap q).hasExecuted = true
  executed_data : ∀ q, (r.heap q).hasExecuted = true →
    (r.heap q).hasAllData = true ∨ (r.heap q).generatedAddresses = []
  inorder_order : config.completionOrder = .INORDER → r.history.Sublist (r.started.map Prod.snd)
  popped_checked : ∀ p ∈ r.popped, p.Checked ∧
    (p.slot ≠ none → p.state.isLoad = true → p.state.hasAllData = true ∨ p.state.generatedAddresses = [])

theorem inv_init (config : LoadStoreQueue.Config) (heap : Heap) (h : ∀ q, (heap q).hasExecuted = false) :
    (init config heap).Inv config where
  config_eq := rfl
  started_loads _ h := absurd h (List.not_mem_nil _)
  known_loads _ h := by
    rcases h with h | h <;> simp [init, OrderedMap.empty, OrderedMap.keys, OrderedMap.values] at h
  tracked _ h := by cases h
  nodup := List.nodup_nil
  loads_started _ h := absurd h (List.not_mem_nil _)
  condStores_started _ h := absurd h (List.not_mem_nil _)
  executed_history _ _ h := absurd h (List.not_mem_nil _)
  executed_data q hq := absurd hq (by simp [init, h q])
  inorder_order _ := List.Sublist.slnil
  popped_checked _ h := absurd h (List.not_mem_nil _)

/-! ## What each kind of change keeps -/

/-- An event that changes no instruction's kind, addresses or execution,
leaves `completedRequests_`, `requestedCondStore_` and the ghost records
alone, and registers or parks only started loads, keeps the invariant. -/
theorem Inv.frame' {r r' : LsqRun} (h : r.Inv config) (hheap : ∀ q, (r.heap q).Evolves (r'.heap q))
    (hc : r'.lsq.config = r.lsq.config) (hq : r'.lsq.completedRequests = r.lsq.completedRequests)
    (ht : r'.lsq.requestedCondStore = r.lsq.requestedCondStore)
    (hloads : ∀ q, q ∈ r'.lsq.requestedLoads.keys ∨ q ∈ r'.lsq.conflictionMap.values → (false, q) ∈ r.started)
    (hst : r'.started = r.started) (hp : r'.popped = r.popped) : r'.Inv config := by
  have hh : r'.history = r.history := by rw [history, history, hp, hq]
  refine
    { config_eq := hc.trans h.config_eq
      started_loads := fun q hq => ?_
      known_loads := fun q hq => hst ▸ hloads q hq
      tracked := fun q hq => ?_
      nodup := hh ▸ h.nodup
      loads_started := fun q hq hl => ?_
      condStores_started := fun q hq hl => ?_
      executed_history := fun ho q hq hl => ?_
      executed_data := fun q hq => ?_
      inorder_order := fun ho => hh ▸ hst ▸ h.inorder_order ho
      popped_checked := hp ▸ h.popped_checked }
  · rw [(hheap q).isLoad, (hheap q).isStoreCond]; exact h.started_loads q (hst ▸ hq)
  · rw [hst, (hheap q).isStoreCond, (hheap q).isLoad, hh]; exact h.tracked q (ht ▸ hq)
  · rw [(hheap q).isLoad] at hl; rw [hst]; exact h.loads_started q (hh ▸ hq) hl
  · rw [(hheap q).isStoreCond] at hl; rw [hst]; exact h.condStores_started q (hh ▸ hq) hl
  · rw [(hheap q).isLoad] at hl; rw [(hheap q).hasExecuted]; exact h.executed_history ho q (hh ▸ hq) hl
  · rw [(hheap q).hasExecuted] at hq
    rw [(hheap q).generatedAddresses]
    exact (h.executed_data q hq).imp (hheap q).hasAllData id

theorem Inv.frame {r r' : LsqRun} (h : r.Inv config) (hheap : ∀ q, (r.heap q).Evolves (r'.heap q))
    (hs : LoadStoreQueue.Frame r.lsq r'.lsq) (hst : r'.started = r.started) (hp : r'.popped = r.popped) :
    r'.Inv config :=
  h.frame' hheap hs.config hs.completedRequests hs.requestedCondStore (fun q hq => h.known_loads q (hs.loads q hq))
    hst hp

/-- Executing an instruction that has all its data, or no address, keeps the
invariant. -/
theorem Inv.execute {r : LsqRun} (h : r.Inv config) {uop : Nat}
    (hd : (r.heap uop).hasAllData = true ∨ (r.heap uop).generatedAddresses = []) :
    ({ r with heap := r.heap.execute uop } : LsqRun).Inv config := by
  refine { h with
    started_loads := by simpa using h.started_loads
    tracked := by simpa using h.tracked
    loads_started := by simpa using h.loads_started
    condStores_started := by simpa using h.condStores_started
    executed_history := fun ho q hq hl => ?_
    executed_data := fun q hq => ?_ }
  · simp only [Heap.execute_isLoad, Heap.execute_hasExecuted] at hl ⊢
    rw [h.executed_history ho q hq hl, Bool.or_true]
  · simp only [Heap.execute_hasExecuted, Bool.or_eq_true, decide_eq_true_eq] at hq
    simp only [Heap.execute_hasAllData, Heap.execute_generatedAddresses]
    rcases hq with rfl | hq
    · exact hd
    · exact h.executed_data q hq

/-- An instruction that has not entered `completedRequests_` before, that was
started if it is a load or a store-conditional, that has executed if it is a
load in `OUTOFORDER` mode, whose entry keeps the `INORDER` order, and that is
not the store-conditional tracked in `OUTOFORDER` mode, can enter it. -/
theorem Inv.push {r : LsqRun} (h : r.Inv config) {uop : Nat} (hfresh : uop ∉ r.history)
    (hl : (r.heap uop).isLoad = true → (false, uop) ∈ r.started)
    (hc : (r.heap uop).isStoreCond = true → (true, uop) ∈ r.started)
    (hx : config.completionOrder = .OUTOFORDER → (r.heap uop).isLoad = true → (r.heap uop).hasExecuted = true)
    (ho : config.completionOrder = .INORDER → (r.history ++ [uop]).Sublist (r.started.map Prod.snd))
    (ht : config.completionOrder = .OUTOFORDER → r.lsq.requestedCondStore ≠ some uop) :
    ({ r with lsq := { r.lsq with completedRequests := r.lsq.completedRequests ++ [uop] } } : LsqRun).Inv config := by
  have hh : history ({ r with lsq := { r.lsq with completedRequests := r.lsq.completedRequests ++ [uop] } } : LsqRun) =
      r.history ++ [uop] := by simp only [history, List.append_assoc]
  have hmem : ∀ {P : Nat → Prop}, (∀ q ∈ r.history, P q) → P uop → ∀ q ∈ r.history ++ [uop], P q :=
    fun hr hu q hq => (List.mem_append.1 hq).elim (hr q) fun hq => List.mem_singleton.1 hq ▸ hu
  refine
    { h with
      tracked := fun q hq => ?_
      nodup := ?_
      loads_started := hh ▸ hmem h.loads_started hl
      condStores_started := hh ▸ hmem h.condStores_started hc
      executed_history := fun ho' => hh ▸ hmem (h.executed_history ho') (hx ho')
      inorder_order := fun ho' => hh ▸ ho ho' }
  · obtain ⟨ha, hb, hc', hd⟩ := h.tracked q hq
    refine ⟨ha, hb, hc', fun ho' => ?_⟩
    rw [hh, List.mem_append, List.mem_singleton, not_or]
    exact ⟨hd ho', fun he => ht ho' (he ▸ hq)⟩
  · rw [hh]
    exact List.nodup_append.2 ⟨h.nodup, List.nodup_singleton _, fun a ha hb => hfresh (List.mem_singleton.1 hb ▸ ha)⟩

/-- A started load that has not entered `completedRequests_` before and, in
`OUTOFORDER` mode, has executed can enter it in the order of the start calls. -/
theorem Inv.push_load {r : LsqRun} (h : r.Inv config) {uop : Nat} (hfresh : uop ∉ r.history)
    (hs : (false, uop) ∈ r.started)
    (hx : config.completionOrder = .OUTOFORDER → (r.heap uop).hasExecuted = true)
    (ho : config.completionOrder = .INORDER → (r.history ++ [uop]).Sublist (r.started.map Prod.snd)) :
    ({ r with lsq := { r.lsq with completedRequests := r.lsq.completedRequests ++ [uop] } } : LsqRun).Inv config :=
  have hc := (h.started_loads uop hs).2
  h.push hfresh (fun _ => hs) (fun h' => absurd (hc.symm.trans h') Bool.false_ne_true) (fun ho _ => hx ho) ho
    fun _ ht => absurd (hc.symm.trans (h.tracked uop ht).2.1) Bool.false_ne_true

/-- Tracking a started store-conditional that is not a load, and in
`OUTOFORDER` mode has not entered `completedRequests_`, keeps the invariant. -/
theorem Inv.track {r : LsqRun} (h : r.Inv config) {uop : Nat} (hs : (true, uop) ∈ r.started)
    (hc : (r.heap uop).isStoreCond = true) (hl : (r.heap uop).isLoad = false)
    (hf : config.completionOrder = .OUTOFORDER → uop ∉ r.history) :
    ({ r with lsq := { r.lsq with requestedCondStore := some uop } } : LsqRun).Inv config :=
  { h with tracked := fun q hq => by cases hq; exact ⟨hs, hc, hl, hf⟩ }

theorem Inv.untrack {r : LsqRun} (h : r.Inv config) :
    ({ r with lsq := { r.lsq with requestedCondStore := none } } : LsqRun).Inv config :=
  { h with tracked := fun q hq => by cases hq }

/-- The drain keeps the invariant: what leaves `completedRequests_` joins
`popped` in order, checked. -/
theorem Inv.drain {r : LsqRun} (h : r.Inv config) (stalled : List Bool) :
    ({ r with
      lsq := { r.lsq with completedRequests := (LoadStoreQueue.drain r.heap stalled 0 r.lsq.completedRequests).1 }
      popped := r.popped ++ (LoadStoreQueue.drain r.heap stalled 0 r.lsq.completedRequests).2 } : LsqRun).Inv config := by
  obtain ⟨hq, hp⟩ := LoadStoreQueue.drain_spec r.heap stalled 0 r.lsq.completedRequests
  have hh : history ({ r with
      lsq := { r.lsq with completedRequests := (LoadStoreQueue.drain r.heap stalled 0 r.lsq.completedRequests).1 }
      popped := r.popped ++ (LoadStoreQueue.drain r.heap stalled 0 r.lsq.completedRequests).2 } : LsqRun) =
      r.history := by
    simp only [history, List.map_append, List.append_assoc, hq]
  refine
    { h with
      tracked := fun q hq' => ?_
      nodup := hh ▸ h.nodup
      loads_started := hh ▸ h.loads_started
      condStores_started := hh ▸ h.condStores_started
      executed_history := hh ▸ h.executed_history
      inorder_order := hh ▸ h.inorder_order
      popped_checked := fun p hp' => ?_ }
  · rw [hh]; exact h.tracked q hq'
  · rcases List.mem_append.1 hp' with hp' | hp'
    · exact h.popped_checked p hp'
    · obtain ⟨hs, hchk⟩ := hp p hp'
      refine ⟨hchk, fun hd hl => ?_⟩
      have hx := (hchk.2 hd).2.1 hl
      rw [hs] at hx ⊢
      exact h.executed_data _ hx

/-- A new start call keeps the invariant. -/
theorem Inv.start {r : LsqRun} (h : r.Inv config) (b : Bool) (uop : Nat)
    (hb : b = false → (r.heap uop).isLoad = true ∧ (r.heap uop).isStoreCond = false) :
    ({ r with started := r.started ++ [(b, uop)] } : LsqRun).Inv config := by
  have hmem : ∀ x, x ∈ r.started → x ∈ r.started ++ [(b, uop)] := fun _ hx => List.mem_append_left _ hx
  refine
    { h with
      started_loads := fun q hq => ?_
      known_loads := fun q hq => hmem _ (h.known_loads q hq)
      tracked := fun q hq => ?_
      loads_started := fun q hq hl => hmem _ (h.loads_started q hq hl)
      condStores_started := fun q hq hl => hmem _ (h.condStores_started q hq hl)
      inorder_order := fun ho => ?_ }
  · rcases List.mem_append.1 hq with hq | hq
    · exact h.started_loads q hq
    · obtain ⟨rfl, rfl⟩ := Prod.mk.inj (List.mem_singleton.1 hq)
      exact hb rfl
  · obtain ⟨ha, hb, hc, hd⟩ := h.tracked q hq
    exact ⟨hmem _ ha, hb, hc, hd⟩
  · simp only [List.map_append]
    exact (h.inorder_order ho).trans (List.sublist_append_left _ _)

/-! ## What each event keeps -/

/-- The entry an instruction takes at the back of `completedRequests_` keeps
the order of the start calls when its own start call is the last. -/
theorem Inv.order_last {r : LsqRun} (h : r.Inv config) (b : Bool) (uop : Nat) :
    config.completionOrder = .INORDER → (r.history ++ [uop]).Sublist ((r.started ++ [(b, uop)]).map Prod.snd) :=
  fun ho => by simpa only [List.map_append, List.map_cons, List.map_nil] using (h.inorder_order ho).append_right [uop]

theorem Inv.startLoad {r : LsqRun} (h : r.Inv config) {uop : Nat} (hl : (r.heap uop).isLoad = true)
    (hc : (r.heap uop).isStoreCond = false) (hn : (false, uop) ∉ r.started) :
    ({ r with
      heap := (r.lsq.startLoad r.heap uop).1
      lsq := (r.lsq.startLoad r.heap uop).2
      started := r.started ++ [(false, uop)] } : LsqRun).Inv config := by
  obtain ⟨hc', ht', hq', hh'⟩ := LoadStoreQueue.startLoad_completion r.heap uop r.lsq
  have h₁ := h.start false uop fun _ => ⟨hl, hc⟩
  -- a load that was not started has not entered `completedRequests_`
  have hfresh : uop ∉ r.history := fun hm => hn (h.loads_started uop hm hl)
  have hs : (false, uop) ∈ r.started ++ [(false, uop)] := List.mem_append_right _ (List.mem_singleton_self _)
  have h₂ : ({ r with
      heap := (r.lsq.startLoad r.heap uop).1
      lsq := { r.lsq with completedRequests := (r.lsq.startLoad r.heap uop).2.completedRequests }
      started := r.started ++ [(false, uop)] } : LsqRun).Inv config := by
    rw [hq', hh', h.config_eq]
    by_cases ha : (r.heap uop).generatedAddresses = []
    · simp only [ha, if_true, true_or]
      exact (h₁.execute (Or.inr ha)).push_load hfresh hs (fun _ => by simp) (h.order_last false uop)
    · simp only [ha, if_false, false_or]
      split
      · rename_i hio
        exact h₁.push_load hfresh hs (fun ho => nomatch hio.symm.trans ho) (h.order_last false uop)
      · simpa only [List.append_nil] using h₁
  refine h₂.frame' (fun _ => .refl _) hc' rfl ht' (fun q hq => ?_) rfl rfl
  rcases LoadStoreQueue.startLoad_loads r.heap uop r.lsq hq with rfl | hq
  · exact hs
  · exact List.mem_append_left _ (h.known_loads q hq)

theorem Inv.startStore {r : LsqRun} (h : r.Inv config) {uop : Nat}
    (hsc : ¬ ((r.heap uop).isStoreCond ∧ (r.heap uop).isLoad)) (hn : (true, uop) ∉ r.started)
    {heap' : Heap} {s' : LoadStoreQueue} (he : r.lsq.startStore r.heap uop = .ok (heap', s')) :
    ({ r with heap := heap', lsq := s', started := r.started ++ [(true, uop)] } : LsqRun).Inv config := by
  obtain ⟨hc, hr, hm, hheap, hif⟩ := LoadStoreQueue.startStore_completion r.heap he
  have hev : ∀ q, (r.heap q).Evolves (heap' q) := by
    rcases hheap with rfl | ⟨data, rfl⟩
    · exact fun q => .refl _
    · exact evolves_update ⟨rfl, rfl, rfl, rfl, id⟩
  have h₁ := h.start true uop fun h' => Bool.noConfusion h'
  have hs : (true, uop) ∈ r.started ++ [(true, uop)] := List.mem_append_right _ (List.mem_singleton_self _)
  have hloads : ∀ q, q ∈ s'.requestedLoads.keys ∨ q ∈ s'.conflictionMap.values →
      (false, q) ∈ r.started ++ [(true, uop)] := fun q hq =>
    List.mem_append_left _ (h.known_loads q (by rwa [hr, hm] at hq))
  split at hif
  · rename_i hcond
    obtain ⟨-, hsome, hcr⟩ := hif
    -- a store-conditional that was not started has not entered `completedRequests_`
    have hfresh : uop ∉ r.history := fun hm => hn (h.condStores_started uop hm hcond.2.1)
    have hsc' : (heap' uop).isStoreCond = true := (hev uop).isStoreCond.trans hcond.2.1
    have hl : (heap' uop).isLoad = false := by
      rw [(hev uop).isLoad]; simpa [hcond.2.1] using hsc
    have h₂' : ({ r with heap := heap', started := r.started ++ [(true, uop)] } : LsqRun).Inv config :=
      h₁.frame' hev rfl rfl rfl (fun q hq => List.mem_append_left _ (h.known_loads q hq)) rfl rfl
    have h₂ := h₂'.track hs hsc' hl fun _ => hfresh
    have h₃ : ({ r with
        heap := heap'
        started := r.started ++ [(true, uop)]
        lsq := { r.lsq with
          requestedCondStore := some uop
          completedRequests := r.lsq.completedRequests ++
            if r.lsq.config.completionOrder = .INORDER then [uop] else [] } } : LsqRun).Inv config := by
      rw [h.config_eq]
      split
      · rename_i hio
        exact h₂.push hfresh (fun h' => absurd (hl.symm.trans h') Bool.false_ne_true) (fun _ => hs)
          (fun ho => nomatch hio.symm.trans ho) (h.order_last true uop) (fun ho => nomatch hio.symm.trans ho)
      · simpa only [List.append_nil] using h₂
    exact h₃.frame' (fun _ => .refl _) hc hcr hsome hloads rfl rfl
  · exact h₁.frame' hev hc hif.2 hif.1 hloads rfl rfl

/-- One load of the `requestedLoads_` loop of `tick` keeps the invariant: a
started load that executes had not executed, so in `OUTOFORDER` mode it had not
entered `completedRequests_`. -/
theorem Inv.completeLoad {r : LsqRun} (h : r.Inv config) {load : Nat} (hs : (false, load) ∈ r.started) :
    ({ r with
      heap := (LoadStoreQueue.completeLoad (r.heap, r.lsq) load).1
      lsq := (LoadStoreQueue.completeLoad (r.heap, r.lsq) load).2 } : LsqRun).Inv config := by
  rcases LoadStoreQueue.completeLoad_cases (r.heap, r.lsq) load with he | ⟨hd, hx, hheap, s, hf, hq⟩
  · rw [he]; exact h
  rw [hheap, hq, h.config_eq]
  have h₁ : ({ r with heap := r.heap.execute load, lsq := s } : LsqRun).Inv config :=
    (h.execute (Or.inl hd)).frame (fun _ => .refl _) hf rfl rfl
  split
  · rename_i ho
    refine h₁.push_load (fun hm => ?_) hs (fun _ => by simp) fun hio => nomatch ho.symm.trans hio
    rw [history, hf.completedRequests] at hm
    have := h.executed_history ho load hm (h.started_loads load hs).1
    rw [hx] at this
    exact Bool.false_ne_true this
  · exact h₁

/-- The whole `requestedLoads_` loop, over started loads. -/
theorem Inv.completeLoads (loads : List Nat) {r : LsqRun} (h : r.Inv config)
    (hs : ∀ q ∈ loads, (false, q) ∈ r.started) :
    ({ r with
      heap := (loads.foldl LoadStoreQueue.completeLoad (r.heap, r.lsq)).1
      lsq := (loads.foldl LoadStoreQueue.completeLoad (r.heap, r.lsq)).2 } : LsqRun).Inv config := by
  induction loads generalizing r with
  | nil => exact h
  | cons load loads ih =>
    exact ih (h.completeLoad (hs load (List.mem_cons_self _ _))) fun q hq => hs q (List.mem_cons_of_mem _ hq)

/-- The completion half of `tick` keeps the invariant. -/
theorem Inv.tickCompletion {r : LsqRun} (h : r.Inv config) (stalled : List Bool) :
    ({ r with
      heap := (r.lsq.tickCompletion r.heap stalled).1
      lsq := (r.lsq.tickCompletion r.heap stalled).2.1
      popped := r.popped ++ (r.lsq.tickCompletion r.heap stalled).2.2 } : LsqRun).Inv config := by
  have h₁ : ({ r with lsq := r.lsq.completeCondStore r.heap } : LsqRun).Inv config := by
    rcases LoadStoreQueue.completeCondStore_cases r.heap r.lsq with he | ⟨ho, uop, ht, he⟩
    · rw [he]; exact h
    rw [he]
    obtain ⟨hs, hc, hl, hf⟩ := h.tracked uop ht
    rw [h.config_eq] at ho
    exact h.untrack.push (hf ho) (fun h' => absurd (hl.symm.trans h') Bool.false_ne_true) (fun _ => hs)
      (fun _ h' => absurd (hl.symm.trans h') Bool.false_ne_true) (fun hio => nomatch ho.symm.trans hio)
      fun _ => Option.noConfusion
  exact (h₁.completeLoads _ fun q hq => h₁.known_loads q (Or.inl hq)).drain stalled

/-- Every event keeps the invariant. -/
theorem Inv.step {r r' : LsqRun} (h : r.Inv config) {e : LsqEvent} (he : r.step e = .ok r') : r'.Inv config := by
  cases e with
  | addLoad uop => cases he; exact h.frame (fun _ => .refl _) (LoadStoreQueue.frame_addLoad uop r.lsq) rfl rfl
  | addStore uop => cases he; exact h.frame (fun _ => .refl _) (LoadStoreQueue.frame_addStore uop r.lsq) rfl rfl
  | startLoad uop =>
    rcases step_startLoad he with rfl | ⟨⟨hl, hc, hn⟩, rfl⟩
    · exact h
    · exact h.startLoad hl hc hn
  | supplyStoreData uop =>
    cases he
    exact h.frame (fun _ => .refl _) (LoadStoreQueue.frame_supplyStoreData r.heap uop r.lsq) rfl rfl
  | startStore uop =>
    rcases step_startStore he with rfl | ⟨⟨hsc, hn⟩, heap', s', hs, rfl⟩
    · exact h
    · exact h.startStore hsc hn hs
  | commitLoad uop =>
    obtain ⟨lsq, hs, rfl⟩ := step_commitLoad he
    exact h.frame (fun _ => .refl _) (LoadStoreQueue.frame_commitLoad r.heap hs) rfl rfl
  | commitStore uop =>
    obtain ⟨b, lsq, hs, rfl⟩ := step_commitStore he
    exact h.frame (fun _ => .refl _) (LoadStoreQueue.frame_commitStore r.heap hs) rfl rfl
  | supplyData uop =>
    cases he
    exact h.frame (evolves_update ⟨rfl, rfl, rfl, rfl, fun _ => rfl⟩) (LoadStoreQueue.Frame.of_eq rfl rfl rfl rfl rfl)
      rfl rfl
  | updateCondStoreResult uop =>
    cases he
    exact h.frame (evolves_update ⟨rfl, rfl, rfl, rfl, id⟩) (LoadStoreQueue.Frame.of_eq rfl rfl rfl rfl rfl) rfl rfl
  | flush uops =>
    cases he
    exact h.frame (evolves_foldl_setFlushed uops r.heap) (LoadStoreQueue.frame_purgeFlushed _ r.lsq) rfl rfl
  | tick answers stalled =>
    cases he
    have h₁ : ({ r with lsq := (r.lsq.tickRequests scriptedMMU r.heap answers).1 } : LsqRun).Inv config :=
      h.frame (fun _ => .refl _) (LoadStoreQueue.frame_tickRequests r.heap scriptedMMU r.lsq answers) rfl rfl
    exact h₁.tickCompletion stalled

/-- Every run keeps the invariant. -/
theorem Inv.run {r r' : LsqRun} (h : r.Inv config) {events : List LsqEvent} (he : r.run events = .ok r') :
    r'.Inv config := by
  induction events generalizing r with
  | nil => cases he; exact h
  | cons e rest ih =>
    obtain ⟨r₁, hs, hr⟩ := run_cons_ok he
    exact ih (h.step hs) hr

/-! ## Delivery over every run -/

/-- Over every run from a queue whose instructions have not executed, the
instructions that have entered `completedRequests_` (`history`: those that left
it, then those still in it) are distinct, so none is written to a completion
slot or has its operands forwarded twice. One the drain dropped was flushed;
one it delivered was not flushed, had executed with all its data (or had no
address) if a load, and had its result if a store-conditional. In `INORDER`
mode the entries follow the order of the start calls, and the drain takes them
from the front. -/
theorem lsqRun_delivers_once (config : LoadStoreQueue.Config) (heap : Heap)
    (hfresh : ∀ q, (heap q).hasExecuted = false) (events : List LsqEvent) {r : LsqRun}
    (h : (init config heap).run events = .ok r) :
    r.history.Nodup ∧
    (∀ p ∈ r.popped, p.slot = none → p.state.flushed = true) ∧
    (∀ p ∈ r.popped, p.slot ≠ none → p.state.flushed = false ∧
      (p.state.isLoad = true → p.state.hasExecuted = true ∧
        (p.state.hasAllData = true ∨ p.state.generatedAddresses = [])) ∧
      (p.state.isStoreCond = true → p.state.condResultReady = true)) ∧
    (config.completionOrder = .INORDER → r.history.Sublist (r.started.map Prod.snd)) := by
  have hi := (inv_init config heap hfresh).run h
  refine ⟨hi.nodup, fun p hp => (hi.popped_checked p hp).1.1, fun p hp hd => ?_, hi.inorder_order⟩
  obtain ⟨hchk, hda⟩ := hi.popped_checked p hp
  obtain ⟨hf, hl, hc⟩ := hchk.2 hd
  exact ⟨hf, fun h' => ⟨hl h', hda hd h'⟩, hc⟩

/-- A load with one address, in every handle. -/
def oneLoad : Heap := fun _ => { isLoad := true, generatedAddresses := [⟨0, 8, by decide, by decide⟩] }

/-- The load is started, its data arrives, and the queue ticks. -/
def oneLoadRun : List LsqEvent := [.addLoad 0, .startLoad 0, .supplyData 0, .tick [] [false]]

/-- In `OUTOFORDER` mode the load executes at the tick and is delivered to the
first slot, once. -/
theorem oneLoad_delivered :
    ∃ r, (init (LoadStoreQueue.combinedQueue 4 .OUTOFORDER).config oneLoad).run oneLoadRun = .ok r ∧
      r.popped.map (·.slot) = [some 0] ∧ r.history.Nodup :=
  ⟨_, rfl, rfl, (lsqRun_delivers_once _ oneLoad (fun _ => rfl) oneLoadRun rfl).1⟩

/-! ## The tracked store-conditional -/

/-- What one event does to the tracked store-conditional: it keeps it, tracks
one where none was, or, in `OUTOFORDER` mode only, releases it. The completion
order never changes. -/
theorem step_tracked {r r' : LsqRun} {e : LsqEvent} (he : r.step e = .ok r') :
    r'.lsq.config = r.lsq.config ∧
    (r'.lsq.requestedCondStore = r.lsq.requestedCondStore ∨ r.lsq.requestedCondStore = none ∨
      r.lsq.config.completionOrder = .OUTOFORDER ∧ r'.lsq.requestedCondStore = none) := by
  have hframe : ∀ {s : LoadStoreQueue}, LoadStoreQueue.Frame r.lsq s → s.config = r.lsq.config ∧
      (s.requestedCondStore = r.lsq.requestedCondStore ∨ r.lsq.requestedCondStore = none ∨
        r.lsq.config.completionOrder = .OUTOFORDER ∧ s.requestedCondStore = none) :=
    fun hf => ⟨hf.config, Or.inl hf.requestedCondStore⟩
  cases e with
  | addLoad uop => cases he; exact hframe (LoadStoreQueue.frame_addLoad uop r.lsq)
  | addStore uop => cases he; exact hframe (LoadStoreQueue.frame_addStore uop r.lsq)
  | startLoad uop =>
    rcases step_startLoad he with rfl | ⟨-, rfl⟩
    · exact ⟨rfl, Or.inl rfl⟩
    · obtain ⟨hc, ht, -⟩ := LoadStoreQueue.startLoad_completion r.heap uop r.lsq
      exact ⟨hc, Or.inl ht⟩
  | supplyStoreData uop => cases he; exact hframe (LoadStoreQueue.frame_supplyStoreData r.heap uop r.lsq)
  | startStore uop =>
    rcases step_startStore he with rfl | ⟨-, heap', s', hs, rfl⟩
    · exact ⟨rfl, Or.inl rfl⟩
    · obtain ⟨hc, -, -, -, hif⟩ := LoadStoreQueue.startStore_completion r.heap hs
      refine ⟨hc, ?_⟩
      split at hif
      · exact Or.inr (Or.inl hif.1)
      · exact Or.inl hif.1
  | commitLoad uop =>
    obtain ⟨lsq, hs, rfl⟩ := step_commitLoad he
    exact hframe (LoadStoreQueue.frame_commitLoad r.heap hs)
  | commitStore uop =>
    obtain ⟨b, lsq, hs, rfl⟩ := step_commitStore he
    exact hframe (LoadStoreQueue.frame_commitStore r.heap hs)
  | supplyData uop => cases he; exact ⟨rfl, Or.inl rfl⟩
  | updateCondStoreResult uop => cases he; exact ⟨rfl, Or.inl rfl⟩
  | flush uops => cases he; exact hframe (LoadStoreQueue.frame_purgeFlushed _ r.lsq)
  | tick answers stalled =>
    cases he
    obtain ⟨hc, ht⟩ := LoadStoreQueue.tickCompletion_tracked r.heap stalled (r.lsq.tickRequests scriptedMMU r.heap answers).1
    exact ⟨hc, ht.imp_right Or.inr⟩

/-- In `INORDER` mode no run releases a tracked store-conditional: once
`requestedCondStore_` holds one, it holds it after every run. -/
theorem run_keeps_tracked {r r' : LsqRun} (hio : r.lsq.config.completionOrder = .INORDER) {uop : Nat}
    (ht : r.lsq.requestedCondStore = some uop) {events : List LsqEvent} (he : r.run events = .ok r') :
    r'.lsq.requestedCondStore = some uop := by
  induction events generalizing r with
  | nil => cases he; exact ht
  | cons e rest ih =>
    obtain ⟨r₁, hs, hr⟩ := run_cons_ok he
    obtain ⟨hc, ht₁⟩ := step_tracked hs
    refine ih (hc ▸ hio) ?_ hr
    rcases ht₁ with h' | h' | ⟨ho, -⟩
    · exact h'.trans ht
    · rw [ht] at h'; cases h'
    · rw [hio] at ho; cases ho

/-- While a store-conditional is tracked, `startStore` of an unresolved
store-conditional with addresses and matching data fails its assertion. -/
theorem startStore_second_condStore {s : LoadStoreQueue} {heap : Heap} {uop q : Nat}
    (ht : s.requestedCondStore = some q) (hc : (heap uop).isStoreCond = true)
    (hr : (heap uop).condResultReady = false) (ha : (heap uop).generatedAddresses ≠ [])
    (hd : (heap uop).generatedAddresses.length = ((s.storeQueue.head?.map Prod.snd).getD []).length) :
    s.startStore heap uop =
      .error "[SimEng:LoadStoreQueue] Tried to issue a second conditional store whilst one is already in flight." := by
  simp [LoadStoreQueue.startStore, ha, hd, hc, hr, ht]

/-- Two store-conditionals with one address and its data each. -/
def twoCondStores : Heap := fun q =>
  { instructionId := q, isStore := true, isStoreData := true, isStoreCond := true,
    generatedAddresses := [⟨0, 8, by decide, by decide⟩], data := [[1]] }

/-- The first store-conditional is started, its result arrives, a tick
delivers it, and it commits; the second then enters the queue with its data. -/
def firstCondStoreDelivered : List LsqEvent :=
  [.addStore 0, .supplyStoreData 0, .startStore 0, .updateCondStoreResult 0, .tick [] [false], .commitStore 0,
    .addStore 1, .supplyStoreData 1]

/-- In `INORDER` mode the first store-conditional is delivered to a completion
slot with its result ready and yet stays tracked, so the second one's
`startStore` fails its assertion; in `OUTOFORDER` mode the same calls
succeed. -/
theorem inorder_condStore_stays_tracked :
    (∃ r, (init (LoadStoreQueue.combinedQueue 4 .INORDER).config twoCondStores).run firstCondStoreDelivered =
        .ok r ∧ r.popped.map (fun p => (p.insn, p.slot, p.state.condResultReady)) = [(0, some 0, true)] ∧
      r.lsq.requestedCondStore = some 0) ∧
    (init (LoadStoreQueue.combinedQueue 4 .INORDER).config twoCondStores).run
        (firstCondStoreDelivered ++ [.startStore 1]) =
      .error "[SimEng:LoadStoreQueue] Tried to issue a second conditional store whilst one is already in flight." ∧
    ∃ r, (init (LoadStoreQueue.combinedQueue 4 .OUTOFORDER).config twoCondStores).run
      (firstCondStoreDelivered ++ [.startStore 1]) = .ok r :=
  ⟨⟨_, rfl, rfl, rfl⟩, rfl, _, rfl⟩

end LsqRun

end Pipeline

end SimEng
