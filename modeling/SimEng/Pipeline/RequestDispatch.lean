import Mathlib.Data.Bool.Basic
import SimEng.Pipeline.LoadStoreQueue

/-!
# SimEng — handing queued requests to the memory management unit

The first half of `LoadStoreQueue::tick` (LoadStoreQueue.cc) advances the tick
counter and hands the requests queued in `requestLoadQueue_` and
`requestStoreQueue_` to the memory management unit. Both queues map a due
cycle to the instructions due then, in insertion order. Each round picks the
queue whose first entry is due earlier (the store queue on a tie) among the
types whose limit has not been exceeded, and offers that entry's instructions
one by one to `MMU::requestRead` or `MMU::requestWrite` until one is rejected.
A rejection marks the type's limit as exceeded for the rest of the tick. The
loop stops when neither type can be scheduled or the chosen entry is not yet
due.

The memory management unit is a parameter (`MemoryInterface`), free to accept
or reject each request. The calls it receives are recorded, in order, as
`Dispatch`es. The loop terminates: each round erases an entry or closes a
type (`remaining_serve_lt`).

Main results:

* `dispatchLoop_spec` — in one tick, each queue read in (due cycle, insertion)
  order is the requests it handed over followed by the requests it keeps; no
  request is handed over before it is due; the calls are ordered by due cycle,
  stores first on a tie; a rejected request is the last call of its type and
  stays at the front of its queue; and the loop only stops when each type is
  rejected, empty or not yet due.
-/

namespace SimEng.Pipeline

/-- The memory management unit as `LoadStoreQueue::tick` calls it:
`requestRead` and `requestWrite` accept or reject an instruction (its handle
and its state) and may change the unit's state `σ`. -/
structure MemoryInterface (σ : Type) where
  requestRead : Nat → Instruction → σ → Bool × σ
  requestWrite : Nat → Instruction → List RegisterValue → σ → Bool × σ

/-- One call of the dispatch loop on the memory management unit: the queue
served, the due cycle of the entry, the instruction, and the answer. -/
structure Dispatch where
  isStore : Bool
  due : Nat
  insn : Nat
  accepted : Bool
deriving DecidableEq, Repr

/-- The state of the dispatch loop, each part indexed by whether the type is
the store type (the index of `exceededLimits`): the request queues
(`requestStoreQueue_` at `true`, `requestLoadQueue_` at `false`),
`exceededLimits`, the memory management unit, and (ghost) the calls made so
far. -/
structure DispatchState (σ : Type) where
  requestQueue : Bool → OrderedMap (List Nat)
  exceededLimits : Bool → Bool := fun _ => false
  mmu : σ
  calls : List Dispatch := []

variable {σ : Type} (mmu : MemoryInterface σ) (heap : Heap)

/-- The call for a request of the type: `requestWrite(insn, insn->getData())`
or `requestRead(insn)`. -/
def MemoryInterface.request (isStore : Bool) (insn : Nat) (m : σ) : Bool × σ :=
  if isStore then mmu.requestWrite insn (heap insn) (heap insn).data m
  else mmu.requestRead insn (heap insn) m

/-- The inner loop over the instructions of one entry: each is offered in
turn until one is rejected. Returns the instructions left from the rejected
one on (`none` when all were accepted). -/
def dispatchEntry (isStore : Bool) (due : Nat) :
    List Nat → σ × List Dispatch → Option (List Nat) × σ × List Dispatch
  | [], st => (none, st)
  | insn :: rest, (m, calls) =>
    let answer := mmu.request heap isStore insn m
    let calls := calls ++ [⟨isStore, due, insn, answer.1⟩]
    if answer.1 then dispatchEntry isStore due rest (answer.2, calls)
    else (some (insn :: rest), answer.2, calls)

/-- `earliestLoad` / `earliestStore`: the due cycle of the queue's first
entry, unless the queue is empty or its type has exceeded its limit. -/
def earliest (queue : OrderedMap (List Nat)) (exceeded : Bool) : Option Nat :=
  if queue.size = 0 ∨ exceeded then none else queue.entries.head?.map Prod.fst

/-- `chooseLoad`, or `none` where the loop breaks because neither type can be
scheduled: loads are chosen unless a store is due no later. -/
def chooseLoad : Option Nat → Option Nat → Option Bool
  | some l, some s => some !decide (l ≥ s)
  | some _, none => some true
  | none, some _ => some false
  | none, none => none

namespace DispatchState

/-- The earliest due cycle the type can be scheduled at. -/
def earliestOf (st : DispatchState σ) (isStore : Bool) : Option Nat :=
  earliest (st.requestQueue isStore) (st.exceededLimits isStore)

/-- One round on the first entry of the chosen type's queue: its instructions
are offered to the memory management unit; an entry left empty is erased, and
a rejection marks the type's limit as exceeded. -/
def serve (st : DispatchState σ) (isStore : Bool) : DispatchState σ :=
  match (st.requestQueue isStore).entries with
  | [] => st
  | (due, insns) :: _ =>
    let r := dispatchEntry mmu heap isStore due insns (st.mmu, st.calls)
    let queue := match r.1 with
      | none => (st.requestQueue isStore).eraseBegin
      | some left => (st.requestQueue isStore).setBegin left
    { requestQueue := Function.update st.requestQueue isStore queue
      exceededLimits := Function.update st.exceededLimits isStore (r.1.isSome || st.exceededLimits isStore)
      mmu := r.2.1
      calls := r.2.2 }

/-- What is left to do: the entries, and the types not yet closed. -/
def remaining (st : DispatchState σ) : Nat :=
  (st.requestQueue false).size + (st.requestQueue true).size +
    (if st.exceededLimits false then 0 else 1) + (if st.exceededLimits true then 0 else 1)

end DispatchState

/-! ## Termination -/

theorem chooseLoad_eq_some {e₁ e₂ : Option Nat} {load : Bool} (h : chooseLoad e₁ e₂ = some load) :
    (if load then e₁ else e₂).isSome := by
  cases e₁ <;> cases e₂ <;> simp only [chooseLoad, Option.some.injEq, reduceCtorEq] at h <;>
    subst h <;> split <;> simp_all

theorem earliest_isSome {q : OrderedMap (List Nat)} {exceeded : Bool}
    (h : (earliest q exceeded).isSome) :
    exceeded = false ∧ 0 < q.size ∧ ∃ e rest, q.entries = e :: rest := by
  unfold earliest at h
  split at h
  · simp at h
  · rename_i hq
    obtain ⟨_ | ⟨e, rest⟩, _⟩ := q
    · simp [OrderedMap.size] at hq
    · simp_all [OrderedMap.size]

/-- The type `chooseLoad` picks can be scheduled: it is open and its queue
has an entry. -/
theorem earliestOf_chosen {st : DispatchState σ} {load : Bool}
    (h : chooseLoad (st.earliestOf false) (st.earliestOf true) = some load) :
    st.exceededLimits (!load) = false ∧ 0 < (st.requestQueue (!load)).size ∧
      ∃ e rest, (st.requestQueue (!load)).entries = e :: rest := by
  have hs := chooseLoad_eq_some h
  cases load <;> exact earliest_isSome (by simpa [DispatchState.earliestOf] using hs)

/-- Each round erases an entry of the chosen queue or closes its type. -/
theorem remaining_serve_lt {st : DispatchState σ} {load : Bool}
    (h : chooseLoad (st.earliestOf false) (st.earliestOf true) = some load) :
    (st.serve mmu heap (!load)).remaining < st.remaining := by
  obtain ⟨hx, hpos, ⟨due, insns⟩, rest, he⟩ := earliestOf_chosen h
  simp only [DispatchState.serve, he]
  cases load <;> cases (dispatchEntry mmu heap _ due insns (st.mmu, st.calls)).1 <;>
    simp_all [DispatchState.remaining, Function.update_apply, OrderedMap.size_eraseBegin,
      OrderedMap.size_setBegin] <;> omega

/-- The dispatch loop of `tick` at tick counter `tickCounter`. -/
def dispatchLoop (tickCounter : Nat) (st : DispatchState σ) : DispatchState σ :=
  if (st.requestQueue false).size + (st.requestQueue true).size > 0 then
    match hc : chooseLoad (st.earliestOf false) (st.earliestOf true) with
    | none => st
    | some load =>
      match (st.requestQueue (!load)).entries with
      | [] => st
      | (due, _) :: _ =>
        if due ≤ tickCounter then dispatchLoop tickCounter (st.serve mmu heap (!load)) else st
  else st
termination_by st.remaining
decreasing_by exact remaining_serve_lt mmu heap hc

theorem dispatchLoop_of_empty {t : Nat} {st : DispatchState σ}
    (h : ¬(st.requestQueue false).size + (st.requestQueue true).size > 0) :
    dispatchLoop mmu heap t st = st := by
  rw [dispatchLoop, if_neg h]

theorem dispatchLoop_of_none {t : Nat} {st : DispatchState σ}
    (hc : chooseLoad (st.earliestOf false) (st.earliestOf true) = none) :
    dispatchLoop mmu heap t st = st := by
  rw [dispatchLoop]
  split
  · split
    · rfl
    · rename_i h; rw [hc] at h; cases h
  · rfl

theorem dispatchLoop_of_some {t : Nat} {st : DispatchState σ} {load : Bool}
    (hsize : (st.requestQueue false).size + (st.requestQueue true).size > 0)
    (hc : chooseLoad (st.earliestOf false) (st.earliestOf true) = some load) :
    dispatchLoop mmu heap t st =
      match (st.requestQueue (!load)).entries with
      | [] => st
      | (due, _) :: _ => if due ≤ t then dispatchLoop mmu heap t (st.serve mmu heap (!load)) else st := by
  rw [dispatchLoop, if_pos hsize]
  split
  · rename_i h; rw [hc] at h; cases h
  · rename_i h; rw [hc] at h; cases h; rfl

/-- The request half of `LoadStoreQueue::tick`: the counter advances and the
request queues are dispatched. Returns the queue, the memory management
unit's state and the calls it received. -/
def LoadStoreQueue.tickRequests (s : LoadStoreQueue) (m : σ) : LoadStoreQueue × σ × List Dispatch :=
  let tickCounter := s.tickCounter + 1
  let st := dispatchLoop mmu heap tickCounter
    { requestQueue := fun isStore => if isStore then s.requestStoreQueue else s.requestLoadQueue
      mmu := m }
  ({ s with
      tickCounter := tickCounter
      requestLoadQueue := st.requestQueue false
      requestStoreQueue := st.requestQueue true }, st.mmu, st.calls)

/-! ## What one round does -/

/-- The order the loop serves requests in: by due cycle, stores first on a
tie. -/
def rank (isStore : Bool) (due : Nat) : Nat := 2 * due + if isStore then 0 else 1

/-- The requests of a type that the memory management unit accepted, with
their due cycles, in call order. -/
def handed (isStore : Bool) (calls : List Dispatch) : List (Nat × Nat) :=
  (calls.filter fun d => d.isStore == isStore && d.accepted).map fun d => (d.due, d.insn)

/-- The entry loop accepts a prefix of the entry, and stops at the first
rejected instruction, which is the last call it makes. -/
theorem dispatchEntry_spec (isStore : Bool) (due : Nat) (insns : List Nat) (m : σ)
    (calls : List Dispatch) :
    ∃ acc left, insns = acc ++ left ∧
      (dispatchEntry mmu heap isStore due insns (m, calls)).1 =
        (if left = [] then none else some left) ∧
      (dispatchEntry mmu heap isStore due insns (m, calls)).2.2 =
        calls ++ acc.map (fun x => ⟨isStore, due, x, true⟩) ++
          left.head?.toList.map (fun x => ⟨isStore, due, x, false⟩) := by
  induction insns generalizing m calls with
  | nil => exact ⟨[], [], rfl, rfl, by simp [dispatchEntry]⟩
  | cons insn rest ih =>
    rcases hr : mmu.request heap isStore insn m with ⟨_ | _, m'⟩
    · exact ⟨[], insn :: rest, rfl, by simp [dispatchEntry, hr], by simp [dispatchEntry, hr]⟩
    · obtain ⟨acc, left, h₁, h₂, h₃⟩ := ih m' (calls ++ [⟨isStore, due, insn, true⟩])
      exact ⟨insn :: acc, left, by simp [h₁], by simpa [dispatchEntry, hr] using h₂,
        by simp [dispatchEntry, hr, h₃]⟩

/-- One round on the entry `(due, insns)` at the front of the queue of type
`b`: the entry splits into a prefix `acc`, each accepted, and a rest `left`
whose first instruction, if any, is rejected; `left` stays at the front of
the queue (the entry is erased when `left` is empty) and, when nonempty,
closes the type. The other type is untouched. -/
theorem serve_shape {st : DispatchState σ} {b : Bool} {due : Nat} {insns : List Nat}
    {rest : List (Nat × List Nat)} (he : (st.requestQueue b).entries = (due, insns) :: rest) :
    ∃ acc left, insns = acc ++ left ∧
      (st.serve mmu heap b).calls = st.calls ++ acc.map (fun x => ⟨b, due, x, true⟩) ++
        left.head?.toList.map (fun x => ⟨b, due, x, false⟩) ∧
      ((st.serve mmu heap b).requestQueue b).flat =
        left.map (fun x => (due, x)) ++ rest.flatMap (fun e => e.2.map fun x => (e.1, x)) ∧
      (st.serve mmu heap b).exceededLimits b = (!left.isEmpty || st.exceededLimits b) ∧
      (st.serve mmu heap b).requestQueue (!b) = st.requestQueue (!b) ∧
      (st.serve mmu heap b).exceededLimits (!b) = st.exceededLimits (!b) := by
  obtain ⟨acc, left, h₁, h₂, h₃⟩ := dispatchEntry_spec mmu heap b due insns st.mmu st.calls
  have hne : (!b) ≠ b := by cases b <;> decide
  refine ⟨acc, left, h₁, ?_, ?_, ?_, ?_, ?_⟩ <;>
    simp only [DispatchState.serve, he, h₂, h₃, Function.update_same, Function.update_noteq hne]
  · rcases left with _ | ⟨x, left⟩
    · simpa using OrderedMap.flat_eraseBegin_of_entries_cons he
    · simpa using OrderedMap.flat_setBegin_of_entries_cons he
  · cases left <;> simp

theorem handed_append (b : Bool) (xs ys : List Dispatch) :
    handed b (xs ++ ys) = handed b xs ++ handed b ys := by
  simp [handed, List.filter_append]

theorem handed_accepted (b b₀ : Bool) (due : Nat) (acc : List Nat) :
    handed b (acc.map fun x => ⟨b₀, due, x, true⟩) = if b₀ = b then acc.map (fun x => (due, x)) else [] := by
  by_cases h : b₀ = b <;> simp [handed, h, List.filter_map, Function.comp_def]

theorem handed_rejected (b b₀ : Bool) (due : Nat) (left : List Nat) :
    handed b (left.head?.toList.map fun x => ⟨b₀, due, x, false⟩) = [] := by
  cases left <;> simp [handed]

theorem earliestOf_of_entries {st : DispatchState σ} {b : Bool} {k : Nat} {v : List Nat}
    {rest : List (Nat × List Nat)} (he : (st.requestQueue b).entries = (k, v) :: rest)
    (hx : st.exceededLimits b = false) : st.earliestOf b = some k := by
  simp [DispatchState.earliestOf, earliest, OrderedMap.size, he, hx]

theorem rank_le_rank {b : Bool} {d₁ d₂ : Nat} (h : d₁ ≤ d₂) : rank b d₁ ≤ rank b d₂ := by
  unfold rank; omega

/-- An open type with a request in its queue can be scheduled, no later than
that request's due cycle. -/
theorem earliestOf_le_of_mem_flat {st : DispatchState σ} {b : Bool}
    (hx : st.exceededLimits b = false) {p : Nat × Nat} (hp : p ∈ (st.requestQueue b).flat) :
    ∃ k, st.earliestOf b = some k ∧ k ≤ p.1 := by
  cases hq : (st.requestQueue b).entries with
  | nil => simp [OrderedMap.flat, hq] at hp
  | cons e r => exact ⟨e.1, earliestOf_of_entries hq hx, OrderedMap.le_of_mem_flat hq hp⟩

/-- What `chooseLoad` guarantees: the chosen type's first entry ranks no later
than the first entry of the other type, if that type is open. -/
theorem chooseLoad_rank {st : DispatchState σ} {load : Bool}
    (hc : chooseLoad (st.earliestOf false) (st.earliestOf true) = some load)
    {due : Nat} {insns : List Nat} {rest : List (Nat × List Nat)}
    (he : (st.requestQueue (!load)).entries = (due, insns) :: rest)
    {k : Nat} (hk : st.earliestOf load = some k) : rank (!load) due ≤ rank load k := by
  obtain ⟨hx₀, -, -⟩ := earliestOf_chosen hc
  have h₀ := earliestOf_of_entries he hx₀
  cases load <;> simp only [Bool.not_false, Bool.not_true] at h₀ <;>
    simp [h₀, hk, chooseLoad] at hc <;> simp [rank] <;> omega

/-! ## The loop -/

/-- What holds after any number of rounds of the loop at tick counter `t`,
started from the queues `queued₀` (read in order) with no call made: each
queue is what it handed over followed by what it keeps; every call is due;
the calls are in rank order and rank no later than any request still open;
a rejected call closes its type, is the last call of its type, and its
request heads its queue. -/
structure DispatchInv (t : Nat) (queued₀ : Bool → List (Nat × Nat)) (st : DispatchState σ) :
    Prop where
  flat : ∀ b, queued₀ b = handed b st.calls ++ (st.requestQueue b).flat
  due_le : ∀ d ∈ st.calls, d.due ≤ t
  sorted : (st.calls.map fun d => rank d.isStore d.due).Pairwise (· ≤ ·)
  before : ∀ b, st.exceededLimits b = false →
    ∀ d ∈ st.calls, ∀ p ∈ (st.requestQueue b).flat, rank d.isStore d.due ≤ rank b p.1
  rejected_front : ∀ d ∈ st.calls, d.accepted = false →
    st.exceededLimits d.isStore = true ∧ (st.requestQueue d.isStore).flat.head? = some (d.due, d.insn)
  exceeded_rejected : ∀ b, st.exceededLimits b = true →
    ∃ d ∈ st.calls, d.isStore = b ∧ d.accepted = false
  rejected_last : ∀ b, ∀ d ∈ (st.calls.filter fun d => d.isStore == b).dropLast, d.accepted = true

/-- A round keeps the invariant. -/
theorem serve_inv {t : Nat} {queued₀ : Bool → List (Nat × Nat)} {st : DispatchState σ}
    {load : Bool} (hi : DispatchInv t queued₀ st)
    (hc : chooseLoad (st.earliestOf false) (st.earliestOf true) = some load)
    {due : Nat} {insns : List Nat} {rest : List (Nat × List Nat)}
    (he : (st.requestQueue (!load)).entries = (due, insns) :: rest) (hdue : due ≤ t) :
    DispatchInv t queued₀ (st.serve mmu heap (!load)) := by
  obtain ⟨hx, -, -⟩ := earliestOf_chosen hc
  obtain ⟨acc, left, hins, hcalls, hflat, hexc, hq, hxo⟩ := serve_shape mmu heap he
  rw [Bool.not_not] at hq hxo
  have hflat₀ := OrderedMap.flat_of_entries_cons he
  have hne : load ≠ !load := by cases load <;> decide
  have hmem : ∀ x ∈ insns, (due, x) ∈ (st.requestQueue (!load)).flat := fun x hx => by
    rw [hflat₀]; exact List.mem_append_left _ (List.mem_map_of_mem _ hx)
  have hrest : ∀ p ∈ rest.flatMap (fun e => e.2.map fun x => (e.1, x)),
      p ∈ (st.requestQueue (!load)).flat := fun p hp => by
    rw [hflat₀]; exact List.mem_append_right _ hp
  have hnorej : ∀ d ∈ st.calls, d.isStore = !load → d.accepted = true := fun d hd hb => by
    by_contra h
    have := (hi.rejected_front d hd (by simpa using h)).1
    rw [hb, hx] at this; contradiction
  -- every new call is of the chosen type, at the entry's due cycle
  have hnew : ∀ d ∈ st.serve mmu heap (!load) |>.calls, d ∈ st.calls ∨
      (d.isStore = !load ∧ d.due = due ∧ (d.insn ∈ acc ∧ d.accepted = true ∨
        left.head? = some d.insn ∧ d.accepted = false)) := fun d hd => by
    rw [hcalls] at hd
    simp only [List.mem_append, List.mem_map, Option.mem_toList] at hd
    rcases hd with (hd | ⟨x, hx, rfl⟩) | ⟨x, hx, rfl⟩
    · exact .inl hd
    · exact .inr ⟨rfl, rfl, .inl ⟨hx, rfl⟩⟩
    · exact .inr ⟨rfl, rfl, .inr ⟨hx, rfl⟩⟩
  have hins_mem : ∀ x, x ∈ acc ∨ left.head? = some x → x ∈ insns := fun x hx => by
    rw [hins]; rcases hx with hx | hx
    · exact List.mem_append_left _ hx
    · exact List.mem_append_right _ (List.mem_of_mem_head? hx)
  -- the old calls rank no later than the new ones
  have hold : ∀ d ∈ st.calls, ∀ x ∈ insns, rank d.isStore d.due ≤ rank (!load) due :=
    fun d hd x hxi => hi.before _ hx d hd _ (hmem x hxi)
  constructor
  · intro b
    rw [hi.flat b, hcalls, handed_append, handed_append, handed_accepted, handed_rejected]
    by_cases hb : b = !load
    · subst hb; rw [hflat, hflat₀, hins]; simp
    · have hb' : b = load := not_not.mp (mt Bool.eq_not_iff.mpr hb)
      subst hb'; rw [hq]; simp [hne.symm]
  · intro d hd
    rcases hnew d hd with hd | ⟨-, hd, -⟩
    · exact hi.due_le d hd
    · omega
  · rw [hcalls, List.map_append, List.map_append, List.pairwise_append, List.pairwise_append]
    refine ⟨⟨hi.sorted, ?_, ?_⟩, ?_, ?_⟩
    · simp [List.pairwise_map, List.pairwise_iff_get]
    · simp only [List.map_map, List.mem_map, Function.comp_apply]
      rintro _ ⟨d, hd, rfl⟩ _ ⟨x, hx, rfl⟩
      exact hold d hd x (hins_mem x (.inl hx))
    · cases left <;> simp
    · intro r hr r' hr'
      simp only [List.mem_append, List.map_map, List.mem_map, Function.comp_apply,
        Option.mem_toList] at hr hr'
      obtain ⟨x, hx, rfl⟩ := hr'
      rcases hr with ⟨d, hd, rfl⟩ | ⟨y, hy, rfl⟩
      · exact hold d hd x (hins_mem x (.inr hx))
      · exact le_rfl
  · intro b hb d hd p hp
    by_cases hbl : b = !load
    · subst hbl
      have hleft : left = [] := by
        rw [hexc] at hb; cases left
        · rfl
        · simp at hb
      rw [hflat, hleft, List.map_nil, List.nil_append] at hp
      rcases hnew d hd with hd | ⟨hs, hdd, -⟩
      · exact hi.before _ hx d hd p (hrest p hp)
      · rw [hs, hdd]
        exact rank_le_rank (OrderedMap.le_of_mem_flat he (hrest p hp))
    · have hb' : b = load := not_not.mp (mt Bool.eq_not_iff.mpr hbl)
      subst hb'
      rw [hxo] at hb; rw [hq] at hp
      rcases hnew d hd with hd | ⟨hs, hdd, -⟩
      · exact hi.before _ hb d hd p hp
      · obtain ⟨k, hk, hkp⟩ := earliestOf_le_of_mem_flat hb hp
        rw [hs, hdd]; exact (chooseLoad_rank hc he hk).trans (rank_le_rank hkp)
  · intro d hd hrej
    rcases hnew d hd with hd | ⟨hs, hdd, (⟨-, ha⟩ | ⟨hh, -⟩)⟩
    · obtain ⟨h₁, h₂⟩ := hi.rejected_front d hd hrej
      have hs : d.isStore = load := not_not.mp (mt Bool.eq_not_iff.mpr fun h : d.isStore = !load => by
        rw [h, hx] at h₁; contradiction)
      rw [hs] at h₁ h₂ ⊢; rw [hxo, hq]; exact ⟨h₁, h₂⟩
    · rw [ha] at hrej; contradiction
    · rw [hs, hexc, hflat, hdd]
      cases left with
      | nil => simp at hh
      | cons x l => simp at hh; simp [hh]
  · intro b hb
    by_cases hbl : b = !load
    · subst hbl
      rw [hexc, hx] at hb
      cases left with
      | nil => simp at hb
      | cons x l => exact ⟨⟨!load, due, x, false⟩, by simp [hcalls], rfl, rfl⟩
    · have hb' : b = load := not_not.mp (mt Bool.eq_not_iff.mpr hbl)
      subst hb'
      rw [hxo] at hb
      obtain ⟨d, hd, h⟩ := hi.exceeded_rejected _ hb
      exact ⟨d, by rw [hcalls]; simp [hd], h⟩
  · intro b d hd
    rw [hcalls, List.filter_append, List.filter_append] at hd
    by_cases hbl : b = !load
    · subst hbl
      have hall : ∀ d ∈ st.calls.filter (fun d => d.isStore == !load) ++
          (acc.map fun x => (⟨!load, due, x, true⟩ : Dispatch)).filter (fun d => d.isStore == !load),
          d.accepted = true := by
        intro d hd
        simp only [List.mem_append, List.mem_filter, beq_iff_eq, List.mem_map] at hd
        rcases hd with ⟨hd, hs⟩ | ⟨⟨x, -, rfl⟩, -⟩
        · exact hnorej d hd hs
        · rfl
      cases left with
      | nil => exact hall d (List.dropLast_subset _ (by simpa using hd))
      | cons x l => exact hall d (by simpa [List.dropLast_concat] using hd)
    · have hb' : b = load := not_not.mp (mt Bool.eq_not_iff.mpr hbl)
      subst hb'
      have h₁ : (acc.map fun x => (⟨!b, due, x, true⟩ : Dispatch)).filter
          (fun d => d.isStore == b) = [] := by simp [List.filter_map, Function.comp_def, hne.symm]
      have h₂ : (left.head?.toList.map fun x => (⟨!b, due, x, false⟩ : Dispatch)).filter
          (fun d => d.isStore == b) = [] := by cases left <;> simp [hne.symm]
      rw [h₁, h₂, List.append_nil, List.append_nil] at hd
      exact hi.rejected_last b d hd

theorem dispatchInv_init (t : Nat) (st : DispatchState σ) (h₁ : st.calls = [])
    (h₂ : ∀ b, st.exceededLimits b = false) :
    DispatchInv t (fun b => (st.requestQueue b).flat) st where
  flat b := by simp [h₁, handed]
  due_le := by simp [h₁]
  sorted := by simp [h₁]
  before := by simp [h₁]
  rejected_front := by simp [h₁]
  exceeded_rejected b := by simp [h₂]
  rejected_last := by simp [h₁]

/-- The loop keeps the invariant. -/
theorem dispatchLoop_inv (t : Nat) {queued₀ : Bool → List (Nat × Nat)} (st : DispatchState σ)
    (hi : DispatchInv t queued₀ st) : DispatchInv t queued₀ (dispatchLoop mmu heap t st) := by
  induction st using dispatchLoop.induct mmu heap t with
  | case1 st _ hc => rwa [dispatchLoop_of_none mmu heap hc]
  | case2 st hsize load hc he => rwa [dispatchLoop_of_some mmu heap hsize hc, he]
  | case3 st hsize load hc due insns rest he hdue ih =>
    rw [dispatchLoop_of_some mmu heap hsize hc, he]
    simpa only [hdue, if_true] using ih (serve_inv mmu heap hi hc he hdue)
  | case4 st hsize load hc due insns rest he hdue =>
    rw [dispatchLoop_of_some mmu heap hsize hc, he]
    simpa only [hdue, if_false] using hi
  | case5 st hsize => rwa [dispatchLoop_of_empty mmu heap hsize]

/-- When the loop stops, no open type has a due entry. -/
theorem dispatchLoop_stops (t : Nat) (st : DispatchState σ) (b : Bool) {k : Nat}
    (hk : (dispatchLoop mmu heap t st).earliestOf b = some k) : t < k := by
  induction st using dispatchLoop.induct mmu heap t with
  | case1 st _ hc =>
    rw [dispatchLoop_of_none mmu heap hc] at hk
    cases h₁ : st.earliestOf false <;> cases h₂ : st.earliestOf true <;>
      simp only [h₁, h₂, chooseLoad, reduceCtorEq] at hc
    cases b <;> simp_all
  | case2 st hsize load hc he =>
    obtain ⟨-, -, e, r, he'⟩ := earliestOf_chosen hc
    rw [he] at he'; cases he'
  | case3 st hsize load hc due insns rest he hdue ih =>
    rw [dispatchLoop_of_some mmu heap hsize hc, he] at hk
    simp only [hdue, if_true] at hk
    exact ih hk
  | case4 st hsize load hc due insns rest he hdue =>
    rw [dispatchLoop_of_some mmu heap hsize hc, he] at hk
    simp only [hdue, if_false] at hk
    by_cases hb : b = !load
    · obtain ⟨hx₀, -, -⟩ := earliestOf_chosen hc
      subst hb; rw [earliestOf_of_entries he hx₀] at hk; cases hk; omega
    · have hb' : b = load := not_not.mp (mt Bool.eq_not_iff.mpr hb)
      subst hb'
      have := chooseLoad_rank hc he hk
      simp only [rank] at this; split at this <;> split at this <;> omega
  | case5 st hsize =>
    rw [dispatchLoop_of_empty mmu heap hsize] at hk
    have : (st.requestQueue b).size = 0 := by cases b <;> omega
    simp [DispatchState.earliestOf, earliest, this] at hk

/-- **One tick of request dispatch.** From queues `q₀` with both types open:
each queue, read in (due cycle, insertion) order, is the requests it handed
over followed by the requests it keeps; no request is handed over before it is
due; the calls come in rank order (by due cycle, stores first on a tie); a
rejected request is the last call of its type and stays at the front of its
queue; and each type either met a rejection or has no due request left. -/
theorem dispatchLoop_spec (t : Nat) (q₀ : Bool → OrderedMap (List Nat)) (m : σ) :
    let st := dispatchLoop mmu heap t { requestQueue := q₀, mmu := m }
    (∀ b, (q₀ b).flat = handed b st.calls ++ (st.requestQueue b).flat) ∧
    (∀ d ∈ st.calls, d.due ≤ t) ∧
    (st.calls.map fun d => rank d.isStore d.due).Pairwise (· ≤ ·) ∧
    (∀ d ∈ st.calls, d.accepted = false →
      (st.requestQueue d.isStore).flat.head? = some (d.due, d.insn)) ∧
    (∀ b, ∀ d ∈ (st.calls.filter fun d => d.isStore == b).dropLast, d.accepted = true) ∧
    (∀ b, (∃ d ∈ st.calls, d.isStore = b ∧ d.accepted = false) ∨
      ∀ p ∈ (st.requestQueue b).flat, t < p.1) := by
  intro st
  have hi := dispatchLoop_inv mmu heap t _ (dispatchInv_init t { requestQueue := q₀, mmu := m } rfl
    fun _ => rfl)
  refine ⟨hi.flat, hi.due_le, hi.sorted, fun d hd h => (hi.rejected_front d hd h).2, hi.rejected_last,
    fun b => ?_⟩
  cases hx : st.exceededLimits b
  · right
    intro p hp
    obtain ⟨k, hk, hkp⟩ := earliestOf_le_of_mem_flat hx hp
    exact lt_of_lt_of_le (dispatchLoop_stops mmu heap t _ b hk) hkp
  · exact .inl (hi.exceeded_rejected b hx)

/-- In a tick of the load/store queue, the loads scheduled before are the
loads the memory management unit accepted, in order, followed by the loads
still scheduled. -/
theorem tickRequests_loads (s : LoadStoreQueue) (m : σ) :
    s.requestLoadQueue.values = (handed false (s.tickRequests mmu heap m).2.2).map Prod.snd ++
      (s.tickRequests mmu heap m).1.requestLoadQueue.values := by
  have h := (dispatchLoop_spec mmu heap (s.tickCounter + 1)
    (fun isStore => if isStore then s.requestStoreQueue else s.requestLoadQueue) m).1 false
  simp only [Bool.false_eq_true, if_false] at h
  simp only [LoadStoreQueue.tickRequests, OrderedMap.values_eq_flat, h, List.map_append]

end SimEng.Pipeline
