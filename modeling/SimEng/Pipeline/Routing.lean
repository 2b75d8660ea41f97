import Mathlib.Data.List.Infix
import SimEng.Assertions
import SimEng.Pipeline.PortMapping
import SimEng.Pipeline.ReadyQueues

/-!
# SimEng — instructions stay on the ports allocated to them

`dispatch` allocates each instruction an issue port `p` and files it under
`p` wherever it waits: in the dependency matrix, in the wake-up lists, and at
last in the ready queue `portMapping_[p]`. `issue` then sends the front of
that queue on the queue's `issuePort`, and `purgeFlushed` gives back the
queue's `issuePort` for a flushed instruction. Both read the right port only
because the queue of port `p` records `p`.

`Routed` says so of a state: the queue `portMapping_[p]` of every port `p`
records `p`, every instruction in a ready queue was allocated that queue's
`issuePort`, and every entry of the matrix and of the wake-up lists names a
port of the unit that was allocated to its instruction. The constructor
builds a routed unit while no station serves more than 256 ports
(`routed_create`), and every event keeps it, provided the allocator answers
with a port of the unit (`run_routed`). On a routed unit `issue` sends, from
each port, the front of the queue mapped to it (`Routed.issuesFronts`), and
every port `purgeFlushed` gives back was allocated to a flushed instruction
(`Routed.givesBackAllocated`).

`allocated` is the ghost field of `DispatchIssueUnit` that records each
allocation.
-/

namespace SimEng.Pipeline.DispatchIssueUnit

/-! ## Ready queues -/

/-- The ready queue `(rsIndex, portIndex)` of `stations`, empty where there is
none. -/
def queueAt (stations : List ReservationStation) (q : Nat × Nat) : List Nat :=
  ((stations.getD q.1 ⟨0, 0, []⟩).ports.getD q.2 {}).ready

/-- The `issuePort` of queue `(rsIndex, portIndex)`, 0 where there is none. -/
def portAt (stations : List ReservationStation) (q : Nat × Nat) : Nat :=
  ((stations.getD q.1 ⟨0, 0, []⟩).ports.getD q.2 {}).issuePort

theorem getD_modify {α : Type} (f : α → α) (n : Nat) (l : List α) (d : α) (m : Nat) :
    (l.modify f n).getD m d = if n = m ∧ m < l.length then f (l.getD m d) else l.getD m d := by
  simp only [List.getD_eq_getElem?_getD, List.getElem?_modify]
  rcases Nat.lt_or_ge m l.length with h | h
  · simp [List.getElem?_eq_getElem h, h]
  · simp [List.getElem?_eq_none h, Nat.not_lt.2 h]

section Modify

variable (stations : List ReservationStation) (q : Nat × Nat) (f : List Nat → List Nat) (q' : Nat × Nat)

theorem portAt_modifyQueue : portAt (modifyQueue stations q f) q' = portAt stations q' := by
  unfold portAt modifyQueue
  rw [getD_modify]
  split_ifs
  · dsimp only
    rw [getD_modify]
    split_ifs <;> rfl
  · rfl

/-- Changing queue `q` leaves every other queue as it was. -/
theorem queueAt_modifyQueue_of_ne (h : q' ≠ q) : queueAt (modifyQueue stations q f) q' = queueAt stations q' := by
  unfold queueAt modifyQueue
  rw [getD_modify]
  split_ifs with h₁
  · dsimp only
    rw [getD_modify, if_neg fun h₂ => h (Prod.ext h₁.1.symm h₂.1.symm)]
  · rfl

/-- Queue `q` itself becomes `f` of what it was; where there is no such
queue it stays empty. -/
theorem queueAt_modifyQueue_self : queueAt (modifyQueue stations q f) q = f (queueAt stations q) ∨
    queueAt (modifyQueue stations q f) q = queueAt stations q ∧ queueAt stations q = [] := by
  unfold queueAt modifyQueue
  rw [getD_modify]
  split_ifs with h₁
  · dsimp only
    rw [getD_modify]
    split_ifs with h₂
    · exact .inl rfl
    · exact .inr ⟨rfl, by rw [List.getD_eq_default _ _ (by simpa using h₂)]⟩
  · exact .inr ⟨rfl, by rw [List.getD_eq_default stations _ (by simpa using h₁)]; rfl⟩

theorem mem_queueAt_modifyQueue {u : Nat} (h : u ∈ queueAt (modifyQueue stations q f) q') :
    u ∈ queueAt stations q' ∨ q' = q ∧ u ∈ f (queueAt stations q) := by
  by_cases hq : q' = q
  · subst hq
    rcases queueAt_modifyQueue_self stations q' f with e | ⟨e, -⟩ <;> rw [e] at h
    exacts [.inr ⟨rfl, h⟩, .inl h]
  · rw [queueAt_modifyQueue_of_ne _ _ _ _ hq] at h
    exact .inl h

/-- Popping one queue leaves every other queue as it was. -/
theorem queueAt_modifyQueue_tail :
    queueAt (modifyQueue stations q List.tail) q' =
      if q' = q then (queueAt stations q').tail else queueAt stations q' := by
  split_ifs with hq
  · subst hq
    rcases queueAt_modifyQueue_self stations q' List.tail with e | ⟨e, hnil⟩
    · exact e
    · rw [e, hnil, List.tail_nil]
  · exact queueAt_modifyQueue_of_ne _ _ _ _ hq

end Modify

section Occupancy

variable {g : ReservationStation → ReservationStation} (hg : ∀ rs, (g rs).ports = rs.ports)
  (stations : List ReservationStation) (i : Nat) (q : Nat × Nat)
include hg

/-- A station's occupancy is not one of its queues. -/
theorem queueAt_modify_size : queueAt (stations.modify g i) q = queueAt stations q := by
  simp only [queueAt, getD_modify]
  split_ifs <;> simp only [hg]

theorem portAt_modify_size : portAt (stations.modify g i) q = portAt stations q := by
  simp only [portAt, getD_modify]
  split_ifs <;> simp only [hg]

end Occupancy

/-! ## The invariant -/

/-- Entry `e` names a port of the unit that was allocated to its
instruction. -/
def Routes (s : DispatchIssueUnit) (e : DependencyEntry) : Prop :=
  e.port < s.portMapping.length ∧ (e.uop, e.port) ∈ s.allocated

/-- Every waiting instruction is filed under a port allocated to it. -/
structure Routed (s : DispatchIssueUnit) : Prop where
  /-- The queue of port `p` records `p`. -/
  issuePort : ∀ p < s.portMapping.length, portAt s.reservationStations (s.portMapping.getD p (0, 0)) = p
  /-- An instruction in a ready queue was allocated the queue's `issuePort`. -/
  queued : ∀ q, ∀ u ∈ queueAt s.reservationStations q, (u, portAt s.reservationStations q) ∈ s.allocated
  matrix : ∀ reg, ∀ e ∈ s.dependencyMatrix reg, s.Routes e
  waiting : ∀ w ∈ s.waitingInstructions, s.Routes w.2.1
  dependant : ∀ e ∈ s.dependantInstructions, s.Routes e

theorem Routes.mono {s s' : DispatchIssueUnit} {e : DependencyEntry} (hm : s'.portMapping = s.portMapping)
    (ha : s.allocated ⊆ s'.allocated) (h : s.Routes e) : s'.Routes e :=
  ⟨hm ▸ h.1, ha h.2⟩

/-- A state with the same ports and allocations, whose queues, matrix and
wake-up lists hold only what `s`'s did, in queues that serve the same ports,
is routed when `s` is. -/
theorem Routed.shrink {s s' : DispatchIssueUnit} (h : s.Routed) (hm : s'.portMapping = s.portMapping)
    (ha : s'.allocated = s.allocated) (hport : ∀ q, portAt s'.reservationStations q = portAt s.reservationStations q)
    (hqueue : ∀ q, queueAt s'.reservationStations q ⊆ queueAt s.reservationStations q)
    (hmatrix : ∀ reg, s'.dependencyMatrix reg ⊆ s.dependencyMatrix reg)
    (hwaiting : s'.waitingInstructions ⊆ s.waitingInstructions)
    (hdependant : s'.dependantInstructions ⊆ s.dependantInstructions) : s'.Routed where
  issuePort p hp := by rw [hport, hm]; exact h.issuePort p (hm ▸ hp)
  queued q u hu := by rw [hport, ha]; exact h.queued q u (hqueue q hu)
  matrix reg e he := (h.matrix reg e (hmatrix reg he)).mono hm fun _ hx => ha ▸ hx
  waiting w hw := (h.waiting w (hwaiting hw)).mono hm fun _ hx => ha ▸ hx
  dependant e he := (h.dependant e (hdependant he)).mono hm fun _ hx => ha ▸ hx

/-- The calls made on the port allocator are not part of the routing. -/
theorem Routed.with_portCalls {s : DispatchIssueUnit} (h : s.Routed) (calls : List PortCall) :
    ({ s with portCalls := calls }).Routed :=
  ⟨h.1, h.2, h.3, h.4, h.5⟩

theorem Routed.with_waiting {s : DispatchIssueUnit} (h : s.Routed)
    {ws : List (Nat × DependencyEntry × RegisterValue)} (hws : ∀ w ∈ ws, s.Routes w.2.1) :
    ({ s with waitingInstructions := ws }).Routed :=
  ⟨h.1, h.2, h.3, hws, h.5⟩

theorem Routed.with_dependants {s : DispatchIssueUnit} (h : s.Routed) {es : List DependencyEntry}
    (hes : ∀ e ∈ es, s.Routes e) : ({ s with dependantInstructions := es }).Routed :=
  ⟨h.1, h.2, h.3, h.4, hes⟩

theorem Routed.with_supplies {s : DispatchIssueUnit} (h : s.Routed) (supplies : List (Nat × Nat)) :
    ({ s with supplies := supplies }).Routed :=
  ⟨h.1, h.2, h.3, h.4, h.5⟩

/-! ## `tick` -/

theorem pushReady_routed {s : DispatchIssueUnit} (h : s.Routed) {e : DependencyEntry} (he : s.Routes e) :
    (s.pushReady e.port e.uop).Routed where
  issuePort p hp := by
    dsimp only [pushReady]
    rw [portAt_modifyQueue]
    exact h.issuePort p hp
  queued q u hu := by
    dsimp only [pushReady] at hu ⊢
    rw [portAt_modifyQueue]
    rcases mem_queueAt_modifyQueue _ _ _ _ hu with hu | ⟨rfl, hpush⟩
    · exact h.queued q u hu
    rcases List.mem_append.1 hpush with hu | hu
    · exact h.queued _ u hu
    rw [List.mem_singleton.1 hu, h.issuePort e.port he.1]
    exact he.2
  matrix := h.matrix
  waiting := h.waiting
  dependant := h.dependant

/-- Pushing an instruction onto its port's queue, or not, keeps the state
routed, its ports and its allocations. -/
theorem pushReadyIf_routed (c : Bool) {s : DispatchIssueUnit} (h : s.Routed) {e : DependencyEntry}
    (he : s.Routes e) :
    (if c then s.pushReady e.port e.uop else s).Routed ∧
      (if c then s.pushReady e.port e.uop else s).portMapping = s.portMapping ∧
      (if c then s.pushReady e.port e.uop else s).allocated = s.allocated := by
  split
  exacts [⟨pushReady_routed h he, rfl, rfl⟩, ⟨h, rfl, rfl⟩]

theorem routes_congr {s s' : DispatchIssueUnit} (hm : s'.portMapping = s.portMapping)
    (ha : s'.allocated = s.allocated) {e : DependencyEntry} : s'.Routes e ↔ s.Routes e := by
  rw [Routes, Routes, hm, ha]

theorem supplyEntry_routed (e : DependencyEntry) (value : RegisterValue) (st : DispatchIssueUnit × Uops)
    (h : st.1.Routed) (he : st.1.Routes e) :
    (supplyEntry e value st).1.Routed ∧ (supplyEntry e value st).1.portMapping = st.1.portMapping ∧
      (supplyEntry e value st).1.allocated = st.1.allocated :=
  pushReadyIf_routed _ (h.with_supplies _) he

/-- Dispatching `uop` on `port`: the occupancy of the port's station grows,
the instruction joins the matrix under `port` and, when it has all its
operands, the ready queue of `port`; the allocation is recorded. -/
theorem Routed.dispatch {s : DispatchIssueUnit} (h : s.Routed) {uop port : Nat}
    (hport : port < s.portMapping.length) {m : Register → List DependencyEntry}
    (hm : ∀ reg, ∀ e ∈ m reg, e ∈ s.dependencyMatrix reg ∨ e.uop = uop ∧ e.port = port) (pushed : Bool)
    (scoreboard : Register → Bool) (dispatches : List Nat) (calls : List PortCall) (pushes : List (Nat × Nat)) :
    let stations := s.reservationStations.modify (fun rs => { rs with currentSize := rs.currentSize + 1 })
      (s.portMapping.getD port (0, 0)).1
    Routed { s with
      dependencyMatrix := m, scoreboard := scoreboard, dispatches := dispatches, portCalls := calls
      reservationStations :=
        if pushed then modifyQueue stations (s.portMapping.getD port (0, 0)) (· ++ [uop]) else stations
      allocated := s.allocated ++ [(uop, port)], pushes := pushes } := by
  intro stations
  have hsize : ∀ q, portAt stations q = portAt s.reservationStations q ∧
      queueAt stations q = queueAt s.reservationStations q := fun q =>
    ⟨portAt_modify_size (g := fun rs => { rs with currentSize := rs.currentSize + 1 }) (fun _ => rfl) _ _ q,
      queueAt_modify_size (g := fun rs => { rs with currentSize := rs.currentSize + 1 }) (fun _ => rfl) _ _ q⟩
  have hportAt : ∀ q, portAt (if pushed then modifyQueue stations (s.portMapping.getD port (0, 0)) (· ++ [uop])
      else stations) q = portAt s.reservationStations q := fun q => by
    cases pushed
    · rw [if_neg Bool.false_ne_true]
      exact (hsize q).1
    · rw [if_pos rfl, portAt_modifyQueue]
      exact (hsize q).1
  have hnew : (uop, port) ∈ s.allocated ++ [(uop, port)] := List.mem_append_right _ (List.mem_singleton_self _)
  have hold : ∀ {e}, s.Routes e → Routes { s with allocated := s.allocated ++ [(uop, port)] } e :=
    fun he => ⟨he.1, List.mem_append_left _ he.2⟩
  refine ⟨fun p hp => (hportAt _).trans (h.issuePort p hp), fun q u hu => ?_,
    fun reg e he => (hm reg e he).elim (fun he => hold (h.matrix reg e he)) fun ⟨he₁, he₂⟩ => ?_,
    fun w hw => hold (h.waiting w hw), fun e he => hold (h.dependant e he)⟩
  · dsimp only at hu ⊢
    rw [hportAt]
    -- the instruction is already queued, or is the one pushed
    have hu' : u ∈ queueAt s.reservationStations q ∨ q = s.portMapping.getD port (0, 0) ∧ u = uop := by
      cases pushed
      · rw [if_neg Bool.false_ne_true] at hu
        exact .inl ((hsize q).2 ▸ hu)
      rw [if_pos rfl] at hu
      rcases mem_queueAt_modifyQueue _ _ _ _ hu with hu | ⟨rfl, hpush⟩
      · exact .inl ((hsize q).2 ▸ hu)
      rcases List.mem_append.1 hpush with hu | hu
      exacts [.inl ((hsize _).2 ▸ hu), .inr ⟨rfl, List.mem_singleton.1 hu⟩]
    rcases hu' with hu | ⟨rfl, rfl⟩
    · exact List.mem_append_left _ (h.queued q u hu)
    · rw [h.issuePort port hport]
      exact hnew
  · refine ⟨he₂ ▸ hport, ?_⟩
    rw [he₁, he₂]
    exact hnew

section Tick

variable (regFile : Register → RegisterValue)

theorem wakeUp_routed (ticks : Nat) :
    ∀ (ws : List (Nat × DependencyEntry × RegisterValue)) (st : DispatchIssueUnit × Uops),
      st.1.Routed → (∀ w ∈ ws, st.1.Routes w.2.1) →
      (wakeUp ticks ws st).2.1.Routed ∧ (wakeUp ticks ws st).2.1.portMapping = st.1.portMapping ∧
        (wakeUp ticks ws st).2.1.allocated = st.1.allocated ∧ (wakeUp ticks ws st).1 ⊆ ws
  | [], _, h, _ => ⟨h, rfl, rfl, List.Subset.refl _⟩
  | w :: rest, (s, uops), h, hws => by
    have hrest := fun w' hw' => hws w' (List.mem_cons_of_mem w hw')
    unfold wakeUp
    split
    · obtain ⟨h₁, hm₁, ha₁⟩ := supplyEntry_routed w.2.1 w.2.2 (s, uops) h (hws w (List.mem_cons_self _ _))
      obtain ⟨h₂, hm₂, ha₂, hsub⟩ := wakeUp_routed ticks rest _ h₁ fun w' hw' => (routes_congr hm₁ ha₁).2 (hrest w' hw')
      exact ⟨h₂, hm₂.trans hm₁, ha₂.trans ha₁, hsub.trans (List.subset_cons_self _ _)⟩
    · obtain ⟨h₂, hm₂, ha₂, hsub⟩ := wakeUp_routed ticks rest _ h hrest
      exact ⟨h₂, hm₂, ha₂, List.cons_subset_cons _ hsub⟩

theorem readDependants_routed :
    ∀ (es : List DependencyEntry) (st : DispatchIssueUnit × Uops), st.1.Routed → (∀ e ∈ es, st.1.Routes e) →
      (readDependants regFile es st).2.1.Routed ∧ (readDependants regFile es st).2.1.portMapping = st.1.portMapping ∧
        (readDependants regFile es st).2.1.allocated = st.1.allocated ∧ (readDependants regFile es st).1 ⊆ es
  | [], _, h, _ => ⟨h, rfl, rfl, List.Subset.refl _⟩
  | e :: rest, (s, uops), h, hes => by
    have hrest := fun e' he' => hes e' (List.mem_cons_of_mem e he')
    simp only [readDependants]
    generalize s.scoreboard (((uops e.uop).operandRegisters.get? e.operandIndex).getD ⟨0, 0⟩) = supplied
    generalize hu : (if supplied = true then (uops e.uop).supplyOperand e.operandIndex
      (regFile (((uops e.uop).operandRegisters.get? e.operandIndex).getD ⟨0, 0⟩)) else uops e.uop) = u
    -- logging the supply changes no routing
    obtain ⟨s₁, hs₁, h₀, hm₀, ha₀⟩ : ∃ s₁, (if supplied then { s with supplies := s.supplies ++ [(e.uop, e.operandIndex)] }
        else s) = s₁ ∧ s₁.Routed ∧ s₁.portMapping = s.portMapping ∧ s₁.allocated = s.allocated :=
      ⟨_, rfl, by split; exacts [⟨h.with_supplies _, rfl, rfl⟩, ⟨h, rfl, rfl⟩]⟩
    rw [hs₁]
    obtain ⟨h₁, hm₁, ha₁⟩ := pushReadyIf_routed u.canExecute h₀
      ((routes_congr hm₀ ha₀).2 (hes e (List.mem_cons_self _ _)))
    obtain ⟨h₂, hm₂, ha₂, hsub⟩ := readDependants_routed rest (_, Function.update uops e.uop u) h₁
      fun e' he' => (routes_congr (hm₁.trans hm₀) (ha₁.trans ha₀)).2 (hrest e' he')
    refine ⟨h₂, hm₂.trans (hm₁.trans hm₀), ha₂.trans (ha₁.trans ha₀), ?_⟩
    split
    exacts [hsub.trans (List.subset_cons_self _ _), List.cons_subset_cons _ hsub]

/-- The register-read loop of dispatch files instruction `uop` under `port`
and nothing else. -/
theorem readOperands_matrix (uop port : Nat) (scoreboard : Register → Bool) :
    ∀ (ops : List (Nat × Register)) (r : Uop × (Register → List DependencyEntry) × Bool) (reg : Register)
      (e : DependencyEntry), e ∈ (readOperands regFile uop port scoreboard ops r).2.1 reg →
        e ∈ r.2.1 reg ∨ e.uop = uop ∧ e.port = port
  | [], _, _, _, he => .inl he
  | (i, reg') :: rest, (u, m, ready), reg, e, he => by
    simp only [readOperands] at he
    split_ifs at he
    · have := readOperands_matrix uop port scoreboard rest _ reg e he
      exact this
    · have := readOperands_matrix uop port scoreboard rest _ reg e he
      exact this
    rcases readOperands_matrix uop port scoreboard rest _ reg e he with he | he
    · dsimp only at he ⊢
      by_cases hr : reg = reg'
      · subst hr
        rw [Function.update_same, List.mem_append, List.mem_singleton] at he
        rcases he with he | rfl
        exacts [.inl he, .inr ⟨rfl, rfl⟩]
      · rw [Function.update_noteq hr] at he
        exact .inl he
    · exact .inr he

/-- **Dispatch files each instruction under the port allocated to it**,
provided the allocator answers with a port of the unit. -/
theorem dispatchSlots_routed (allocate : Nat → Nat) :
    ∀ (slots : List (Option Nat)) (st : DispatchIssueUnit × Uops)
      {r : List (Option Nat) × Bool × DispatchIssueUnit × Uops}, dispatchSlots regFile allocate slots st = .ok r →
      st.1.Routed → (∀ uop, some uop ∈ slots → allocate uop % 2 ^ 8 < st.1.portMapping.length) →
      r.2.2.1.Routed ∧ r.2.2.1.portMapping = st.1.portMapping ∧ st.1.allocated ⊆ r.2.2.1.allocated
  | [], _, _, hr, h, _ => by cases hr; exact ⟨h, rfl, List.Subset.refl _⟩
  | none :: rest, st, _, hr, h, hal => by
    rw [dispatchSlots] at hr
    obtain ⟨_, hr', rfl⟩ := map_eq_ok.1 hr
    have := dispatchSlots_routed allocate rest st hr' h fun u hu => hal u (List.mem_cons_of_mem _ hu)
    exact this
  | some uop :: rest, (s, uops), _, hr, h, hal => by
    simp only [dispatchSlots] at hr
    split at hr
    · -- an instruction with an exception is dropped
      obtain ⟨_, hr', rfl⟩ := map_eq_ok.1 hr
      have := dispatchSlots_routed allocate rest _ hr' h fun u hu => hal u (List.mem_cons_of_mem _ hu)
      exact this
    split at hr
    · cases hr
    split at hr
    · -- a full station stalls the input
      cases hr
      exact ⟨h.with_portCalls _, rfl, List.Subset.refl _⟩
    obtain ⟨_, hr', rfl⟩ := map_eq_ok.1 hr
    have hport := hal uop (List.mem_cons_self _ _)
    exact (dispatchSlots_routed allocate rest _ hr' (h.dispatch hport
      (readOperands_matrix regFile uop _ s.scoreboard _ _) _ _ _ _ _) fun u hu => hal u (List.mem_cons_of_mem _ hu)).imp id
      (And.imp id fun ha' _ hx => ha' (List.mem_append_left _ hx))

/-- **`tick` keeps every instruction on its port**, provided the allocator
answers with a port of the unit. -/
theorem tick_routed (allocate : Nat → Nat) (slots : List (Option Nat)) (st : DispatchIssueUnit × Uops)
    {r : List (Option Nat) × Bool × DispatchIssueUnit × Uops} (hr : tick regFile allocate slots st = .ok r)
    (h : st.1.Routed) (hal : ∀ uop, some uop ∈ slots → allocate uop % 2 ^ 8 < st.1.portMapping.length) :
    r.2.2.1.Routed ∧ r.2.2.1.portMapping = st.1.portMapping := by
  -- the counters are not part of the routing
  have h₀ : Routed { st.1 with
      ticks := (st.1.ticks + 1) % 2 ^ 64, dispatches := List.replicate st.1.dispatches.length 0 } :=
    ⟨h.1, h.2, h.3, h.4, h.5⟩
  obtain ⟨hw, hmw, haw, hsw⟩ := wakeUp_routed _ _ (_, st.2) h₀ h.waiting
  have hw' := hw.with_waiting fun w hw' => (routes_congr hmw haw).2 (h.waiting w (hsw hw'))
  obtain ⟨hd, hmd, had, hsd⟩ := readDependants_routed regFile _ (_, _) hw'
    fun e he => (routes_congr hmw haw).2 (h.dependant e he)
  have hd' := hd.with_dependants fun e he => (routes_congr hmd had).2 ((routes_congr hmw haw).2 (h.dependant e (hsd he)))
  have := dispatchSlots_routed regFile allocate slots _ hr hd' fun uop hu => (hmd.trans hmw).symm ▸ hal uop hu
  exact ⟨this.1, this.2.1.trans (hmd.trans hmw)⟩

end Tick

/-! ## `issue` -/

theorem issuePorts_routed (stalled : List Bool) :
    ∀ (ps : List Nat) (s : DispatchIssueUnit) {r : DispatchIssueUnit × List (Nat × Nat)},
      issuePorts stalled ps s = .ok r → s.Routed →
      r.1.Routed ∧ r.1.portMapping = s.portMapping ∧ r.1.allocated = s.allocated
  | [], _, _, hr, h => by cases hr; exact ⟨h, rfl, rfl⟩
  | i :: rest, s, _, hr, h => by
    simp only [issuePorts] at hr
    split at hr
    · exact issuePorts_routed stalled rest s hr h
    split at hr
    · exact issuePorts_routed stalled rest s hr h
    split at hr
    · cases hr
    obtain ⟨_, hr', rfl⟩ := map_eq_ok.1 hr
    -- the port's queue loses its front, and no queue changes its port
    have := issuePorts_routed stalled rest _ hr' (h.shrink rfl rfl
      (fun q => by simp (disch := exact fun _ => rfl) only [portAt_modify_size, portAt_modifyQueue])
      (fun q => by
        rw [queueAt_modify_size (g := fun rs => { rs with currentSize := rs.currentSize - 1 }) fun _ => rfl,
          queueAt_modifyQueue_tail]
        split
        exacts [List.tail_subset _, List.Subset.refl _])
      (fun _ => List.Subset.refl _) (List.Subset.refl _) (List.Subset.refl _))
    exact this

/-- **`issue`'s loop, over ports mapped to distinct queues.** Each port that
is not stalled pops the front of its own queue and sends it; every other queue
stays. -/
theorem issuePorts_spec {stalled : List Bool} :
    ∀ {ps : List Nat} {s s' : DispatchIssueUnit} {sent : List (Nat × Nat)},
      (ps.map (s.portMapping.getD · (0, 0))).Nodup → issuePorts stalled ps s = .ok (s', sent) →
      s'.portMapping = s.portMapping ∧
      (∀ q, queueAt s'.reservationStations q =
        if q ∈ (ps.filter fun p => !stalled.getD p false).map (s.portMapping.getD · (0, 0))
        then (queueAt s.reservationStations q).tail else queueAt s.reservationStations q) ∧
      sent = ps.filterMap fun p => if stalled.getD p false then none
        else (queueAt s.reservationStations (s.portMapping.getD p (0, 0))).head?.map (p, ·)
  | [], s, s', sent, _, h => by cases h; exact ⟨rfl, fun q => by simp, rfl⟩
  | i :: rest, s, s', sent, hnd, h => by
    rw [List.map_cons, List.nodup_cons] at hnd
    -- the queue of port `i` is no later port's
    have hrest : s.portMapping.getD i (0, 0) ∉
        (rest.filter fun p => !stalled.getD p false).map (s.portMapping.getD · (0, 0)) := fun hq =>
      hnd.1 (List.map_subset _ (List.filter_subset' _) hq)
    simp only [issuePorts] at h
    split at h
    · -- a stalled port sends nothing
      rename_i hst
      obtain ⟨hm, hq, hs⟩ := issuePorts_spec hnd.2 h
      refine ⟨hm, fun q => ?_, ?_⟩
      · rw [hq q, List.filter_cons, hst, Bool.not_true, if_neg Bool.false_ne_true]
      · rw [hs, List.filterMap_cons, if_pos hst]
    · rename_i hst
      have hst' : (!stalled.getD i false) = true := by simpa using hst
      have hqi : queueAt s.reservationStations (s.portMapping.getD i (0, 0)) =
          (((s.reservationStations.getD (s.portMapping.getD i (0, 0)).1 ⟨0, 0, []⟩).ports.getD
            (s.portMapping.getD i (0, 0)).2 {}).ready) := rfl
      split at h
      · -- an empty queue sends nothing
        rename_i hnil
        obtain ⟨hm, hq, hs⟩ := issuePorts_spec hnd.2 h
        refine ⟨hm, fun q => ?_, ?_⟩
        · rw [hq q, List.filter_cons, if_pos hst', List.map_cons]
          by_cases he : q = s.portMapping.getD i (0, 0)
          · subst he
            rw [if_neg hrest, if_pos (List.mem_cons_self _ _), hqi, hnil, List.tail_nil]
          · simp only [List.mem_cons, he, false_or]
        · rw [hs, List.filterMap_cons, if_neg hst, hqi, hnil]
          rfl
      · rename_i uop tl hcons
        split at h
        · cases h
        · obtain ⟨⟨s₁, sent₁⟩, hr, he⟩ := map_eq_ok.1 h
          cases he
          obtain ⟨hm, hq, hs⟩ := issuePorts_spec (by exact hnd.2) hr
          simp only at hm hq hs
          refine ⟨hm, fun q => ?_, ?_⟩
          · rw [hq q, queueAt_modify_size (g := fun rs => { rs with currentSize := rs.currentSize - 1 }) fun _ => rfl,
              queueAt_modifyQueue_tail, List.filter_cons, if_pos hst',
              List.map_cons]
            by_cases he : q = s.portMapping.getD i (0, 0)
            · subst he
              rw [if_neg hrest, if_pos (List.mem_cons_self _ _), if_pos rfl]
            · simp only [List.mem_cons, he, false_or, if_false]
          · rw [hs, List.filterMap_cons, if_neg hst, hqi, hcons]
            refine congrArg _ (List.filterMap_congr fun p hp => ?_)
            have hne : s.portMapping.getD p (0, 0) ≠ s.portMapping.getD i (0, 0) := fun he =>
              hnd.1 (he ▸ List.mem_map_of_mem (s.portMapping.getD · (0, 0)) hp)
            rw [queueAt_modify_size (g := fun rs => { rs with currentSize := rs.currentSize - 1 }) fun _ => rfl,
              queueAt_modifyQueue_tail, if_neg hne]

/-- What `issue` does on `s`, for every stall flag of each of its ports: each
port that is not stalled sends the front of the queue mapped to it, an
instruction allocated that port, and that queue loses its front; every other
queue stays. -/
def IssuesFronts (s : DispatchIssueUnit) : Prop :=
  ∀ (stalled : List Bool) (s' : DispatchIssueUnit) (sent : List (Nat × Nat)),
    stalled.length ≤ s.portMapping.length → issue stalled s = .ok (s', sent) →
    sent = (List.range stalled.length).filterMap (fun p => if stalled.getD p false then none
      else (queueAt s.reservationStations (s.portMapping.getD p (0, 0))).head?.map (p, ·)) ∧
    (∀ q, queueAt s'.reservationStations q =
      if q ∈ ((List.range stalled.length).filter fun p => !stalled.getD p false).map (s.portMapping.getD · (0, 0))
      then (queueAt s.reservationStations q).tail else queueAt s.reservationStations q) ∧
    ∀ x ∈ sent, (x.2, x.1) ∈ s.allocated

/-- **`issue` on a routed unit whose ports have distinct queues** serves each
queue once, from the port mapped to it. -/
theorem Routed.issuesFronts {s : DispatchIssueUnit} (h : s.Routed) (hnd : s.portMapping.Nodup) :
    IssuesFronts s := by
  intro stalled s' sent hlen hi
  have hmap : (List.range stalled.length).map (s.portMapping.getD · (0, 0)) = s.portMapping.take stalled.length :=
    List.ext_getElem (by simp [hlen]) fun i _ _ => by
      simp only [List.getElem_map, List.getElem_range, List.getElem_take]
      exact List.getD_eq_getElem _ _ _
  obtain ⟨-, hq, hs⟩ := issuePorts_spec (hmap ▸ hnd.sublist (List.take_sublist _ _)) hi
  refine ⟨hs, hq, fun x hx => ?_⟩
  rw [hs] at hx
  obtain ⟨p, hp, hx⟩ := List.mem_filterMap.1 hx
  split at hx
  · cases hx
  obtain ⟨u, hu, rfl⟩ := Option.map_eq_some'.1 hx
  rw [← h.issuePort p (lt_of_lt_of_le (List.mem_range.1 hp) hlen)]
  exact h.queued _ u (List.mem_of_mem_head? hu)

/-! ## `forwardOperands` -/

theorem forwardDependents_routed (producer : Nat) (canForward : Nat → Nat → Int) (value : RegisterValue) :
    ∀ (es : List DependencyEntry) (st : DispatchIssueUnit × Uops), st.1.Routed → (∀ e ∈ es, st.1.Routes e) →
      (forwardDependents producer canForward value es st).1.Routed ∧
        (forwardDependents producer canForward value es st).1.portMapping = st.1.portMapping ∧
        (forwardDependents producer canForward value es st).1.allocated = st.1.allocated
  | [], _, h, _ => ⟨h, rfl, rfl⟩
  | e :: rest, (s, uops), h, hes => by
    have he := hes e (List.mem_cons_self _ _)
    have key : ∀ st' : DispatchIssueUnit × Uops, st'.1.Routed → st'.1.portMapping = s.portMapping →
        st'.1.allocated = s.allocated →
        (forwardDependents producer canForward value rest st').1.Routed ∧
          (forwardDependents producer canForward value rest st').1.portMapping = s.portMapping ∧
          (forwardDependents producer canForward value rest st').1.allocated = s.allocated := fun st' h' hm ha => by
      obtain ⟨h₂, hm₂, ha₂⟩ := forwardDependents_routed producer canForward value rest st' h'
        fun e' he' => (routes_congr hm ha).2 (hes e' (List.mem_cons_of_mem e he'))
      exact ⟨h₂, hm₂.trans hm, ha₂.trans ha⟩
    simp only [forwardDependents]
    generalize (if s.enableBypassLatency = true then canForward producer e.uop else 0) = latency
    -- the entry is supplied now, waits for a register-file read, or waits for its tick
    split_ifs
    · obtain ⟨h₁, hm₁, ha₁⟩ := supplyEntry_routed e value (s, uops) h he
      exact key _ h₁ hm₁ ha₁
    · exact key _ (h.with_dependants fun e' he' => (List.mem_append.1 he').elim (h.dependant e')
        fun he' => List.mem_singleton.1 he' ▸ he) rfl rfl
    · exact key _ (h.with_waiting fun w hw => (List.mem_append.1 hw).elim (h.waiting w)
        fun hw => List.mem_singleton.1 hw ▸ he) rfl rfl

/-- Emptying one register's dependency list. -/
theorem Routed.clear_matrix {s : DispatchIssueUnit} (h : s.Routed) (reg : Register) :
    ({ s with dependencyMatrix := Function.update s.dependencyMatrix reg [] }).Routed :=
  h.shrink rfl rfl (fun _ => rfl) (fun _ => List.Subset.refl _) (fun reg' => by
    dsimp only
    by_cases hr : reg' = reg
    · subst hr
      rw [Function.update_same]
      exact List.nil_subset _
    · rw [Function.update_noteq hr]
      exact List.Subset.refl _) (List.Subset.refl _) (List.Subset.refl _)

theorem forwardLoop_routed (producer : Nat) (canForward : Nat → Nat → Int) :
    ∀ (rvs : List (Register × RegisterValue)) (st : DispatchIssueUnit × Uops), st.1.Routed →
      (forwardLoop producer canForward rvs st).1.Routed ∧
        (forwardLoop producer canForward rvs st).1.portMapping = st.1.portMapping
  | [], _, h => ⟨h, rfl⟩
  | (reg, value) :: rest, (s, uops), h => by
    simp only [forwardLoop]
    have h₁ : Routed { s with scoreboard := Function.update s.scoreboard reg true } := ⟨h.1, h.2, h.3, h.4, h.5⟩
    obtain ⟨h₂, hm₂, -⟩ := forwardDependents_routed producer canForward value _ (_, uops) h₁ (h₁.matrix reg)
    exact (forwardLoop_routed producer canForward rest _ (h₂.clear_matrix reg)).imp id (·.trans hm₂)

/-! ## `purgeFlushed` -/

section Purge

variable (uops : Uops)

/-- Each call `purgeFlushed`'s loop over one ready queue makes gives back
the queue's port, for a flushed instruction in the queue. -/
theorem purgeReady_calls (issuePort : Nat) :
    ∀ (ready : List Nat) (r : Nat × List PortCall) {res : List Nat × Nat × List PortCall},
      purgeReady uops issuePort ready r = .ok res →
      ∃ calls, res.2.2 = r.2 ++ calls ∧ ∀ c ∈ calls, ∃ u ∈ ready, (uops u).flushed ∧ c = .deallocate issuePort
  | [], _, _, hr => by cases hr; exact ⟨[], (List.append_nil _).symm, by simp⟩
  | u :: rest, (size, calls), _, hr => by
    rw [purgeReady] at hr
    by_cases hf : (uops u).flushed
    · rw [if_pos hf] at hr
      split at hr
      · cases hr
      obtain ⟨new, hnew, hc⟩ := purgeReady_calls issuePort rest _ hr
      refine ⟨.deallocate issuePort :: new, by rw [hnew, List.append_assoc, List.singleton_append], fun c hc' => ?_⟩
      rcases List.mem_cons.1 hc' with rfl | hc'
      · exact ⟨u, List.mem_cons_self _ _, hf, rfl⟩
      · obtain ⟨u', hu', hfl, rfl⟩ := hc c hc'
        exact ⟨u', List.mem_cons_of_mem _ hu', hfl, rfl⟩
    · rw [if_neg hf] at hr
      obtain ⟨_, hr', rfl⟩ := map_eq_ok.1 hr
      obtain ⟨new, hnew, hc⟩ := purgeReady_calls issuePort rest _ hr'
      exact ⟨new, hnew, fun c hc' => (hc c hc').imp fun u' ⟨hu', h'⟩ => ⟨List.mem_cons_of_mem _ hu', h'⟩⟩

/-- `purgeFlushed`'s loop over the queues of one station: each queue keeps
part of itself and its port, and each call made gives back the port of a
queue for a flushed instruction in it. -/
theorem purgePorts_spec :
    ∀ (ports : List ReservationStationPort) (r : Nat × List PortCall)
      {res : List ReservationStationPort × Nat × List PortCall}, purgePorts uops ports r = .ok res →
      (∀ k, (res.1.getD k {}).issuePort = (ports.getD k {}).issuePort ∧
        (res.1.getD k {}).ready ⊆ (ports.getD k {}).ready) ∧
      ∃ calls, res.2.2 = r.2 ++ calls ∧ ∀ c ∈ calls, ∃ k, ∃ u ∈ (ports.getD k {}).ready,
        (uops u).flushed ∧ c = .deallocate (ports.getD k {}).issuePort
  | [], _, _, hr => by
    cases hr
    exact ⟨fun _ => ⟨rfl, List.Subset.refl _⟩, [], (List.append_nil _).symm, by simp⟩
  | p :: rest, (size, calls), _, hr => by
    obtain ⟨⟨ready, r₁⟩, h₁, hr⟩ := bind_eq_ok.1 hr
    obtain ⟨⟨ports, r₂⟩, h₂, hr⟩ := bind_eq_ok.1 hr
    cases hr
    obtain ⟨new₁, hnew₁, hc₁⟩ := purgeReady_calls uops p.issuePort p.ready (size, calls) h₁
    obtain ⟨hports, new₂, hnew₂, hc₂⟩ := purgePorts_spec rest r₁ h₂
    refine ⟨fun k => ?_, new₁ ++ new₂, by rw [hnew₂, hnew₁, List.append_assoc], fun c hc => ?_⟩
    · cases k
      exacts [⟨rfl, purgeReady_sub h₁⟩, hports _]
    rcases List.mem_append.1 hc with hc | hc
    · obtain ⟨u, hu, hf, rfl⟩ := hc₁ c hc
      exact ⟨0, u, hu, hf, rfl⟩
    · obtain ⟨k, u, hu, hf, rfl⟩ := hc₂ c hc
      exact ⟨k + 1, u, hu, hf, rfl⟩

/-- Each call `purgeFlushed`'s loop over the stations makes gives back the
port of a queue, for a flushed instruction in that queue; every queue keeps
part of itself and its port. -/
theorem purgeStations_spec :
    ∀ (stations : List ReservationStation) (calls : List PortCall)
      {res : List ReservationStation × List PortCall}, purgeStations uops stations calls = .ok res →
      (∀ q, portAt res.1 q = portAt stations q ∧ queueAt res.1 q ⊆ queueAt stations q) ∧
      ∃ new, res.2 = calls ++ new ∧ ∀ c ∈ new, ∃ q, ∃ u ∈ queueAt stations q,
        (uops u).flushed ∧ c = .deallocate (portAt stations q)
  | [], _, _, hr => by
    cases hr
    exact ⟨fun _ => ⟨rfl, List.Subset.refl _⟩, [], (List.append_nil _).symm, by simp⟩
  | rs :: rest, calls, _, hr => by
    obtain ⟨⟨ports, size, calls₁⟩, h₁, hr⟩ := bind_eq_ok.1 hr
    obtain ⟨⟨stations, calls₂⟩, h₂, hr⟩ := bind_eq_ok.1 hr
    cases hr
    obtain ⟨hports, new₁, hnew₁, hc₁⟩ := purgePorts_spec uops rs.ports (rs.currentSize, calls) h₁
    obtain ⟨hst, new₂, hnew₂, hc₂⟩ := purgeStations_spec rest calls₁ h₂
    dsimp only at hnew₁ hnew₂
    refine ⟨fun ⟨i, k⟩ => ?_, new₁ ++ new₂, by rw [hnew₂, hnew₁, List.append_assoc], fun c hc => ?_⟩
    · cases i
      exacts [hports k, hst (_, k)]
    rcases List.mem_append.1 hc with hc | hc
    · obtain ⟨k, u, hu, hf, rfl⟩ := hc₁ c hc
      exact ⟨(0, k), u, hu, hf, rfl⟩
    · obtain ⟨⟨i, k⟩, u, hu, hf, rfl⟩ := hc₂ c hc
      exact ⟨(i + 1, k), u, hu, hf, rfl⟩

/-- The last loop changes only occupancies. -/
theorem dropFlushed_queues (flushed : Nat → List Nat) :
    ∀ (i : Nat) (stations : List ReservationStation) {stations' : List ReservationStation},
      dropFlushed flushed i stations = .ok stations' →
      ∀ q, portAt stations' q = portAt stations q ∧ queueAt stations' q = queueAt stations q
  | _, [], _, hr => by cases hr; exact fun _ => ⟨rfl, rfl⟩
  | i, rs :: rest, _, hr => by
    rw [dropFlushed] at hr
    split at hr
    · cases hr
    obtain ⟨_, hr', rfl⟩ := map_eq_ok.1 hr
    rintro ⟨j, k⟩
    cases j
    exacts [⟨rfl, rfl⟩, dropFlushed_queues flushed (i + 1) rest hr' (_, k)]

/-- `purgeFlushed`'s loop over one dependency list keeps part of it, and each
call it makes gives back the port of a flushed entry. -/
theorem purgeList_spec (portMapping : List (Nat × Nat)) :
    ∀ (es : List DependencyEntry) (r : (Nat → List Nat) × List PortCall),
      (purgeList uops portMapping es r).1 ⊆ es ∧ ∃ new, (purgeList uops portMapping es r).2.2 = r.2 ++ new ∧
        ∀ c ∈ new, ∃ e ∈ es, (uops e.uop).flushed ∧ c = .deallocate e.port
  | [], _ => ⟨List.Subset.refl _, [], (List.append_nil _).symm, by simp⟩
  | e :: rest, (flushed, calls) => by
    have widen : ∀ new : List PortCall, (∀ c ∈ new, ∃ e' ∈ rest, (uops e'.uop).flushed ∧ c = .deallocate e'.port) →
        ∀ c ∈ new, ∃ e' ∈ e :: rest, (uops e'.uop).flushed ∧ c = .deallocate e'.port :=
      fun _ hc c hc' => (hc c hc').imp fun _ ⟨he', h'⟩ => ⟨List.mem_cons_of_mem _ he', h'⟩
    simp only [purgeList]
    by_cases hf : (uops e.uop).flushed
    · rw [if_pos hf]
      split
      · obtain ⟨hsub, new, hnew, hc⟩ := purgeList_spec portMapping rest (flushed, calls)
        exact ⟨hsub.trans (List.subset_cons_self _ _), new, hnew, widen new hc⟩
      · obtain ⟨hsub, new, hnew, hc⟩ := purgeList_spec portMapping rest (_, calls ++ [PortCall.deallocate e.port])
        refine ⟨hsub.trans (List.subset_cons_self _ _), PortCall.deallocate e.port :: new,
          by rw [hnew, List.append_assoc, List.singleton_append], fun c hc' => ?_⟩
        rcases List.mem_cons.1 hc' with rfl | hc'
        exacts [⟨e, List.mem_cons_self _ _, hf, rfl⟩, widen new hc c hc']
    · rw [if_neg hf]
      obtain ⟨hsub, new, hnew, hc⟩ := purgeList_spec portMapping rest (flushed, calls)
      exact ⟨List.cons_subset_cons _ hsub, new, hnew, widen new hc⟩

theorem purgeMatrix_spec (portMapping : List (Nat × Nat)) :
    ∀ (regs : List Register) (r : (Register → List DependencyEntry) × (Nat → List Nat) × List PortCall),
      (∀ reg, (purgeMatrix uops portMapping regs r).1 reg ⊆ r.1 reg) ∧
      ∃ new, (purgeMatrix uops portMapping regs r).2.2 = r.2.2 ++ new ∧
        ∀ c ∈ new, ∃ reg, ∃ e ∈ r.1 reg, (uops e.uop).flushed ∧ c = .deallocate e.port
  | [], _ => ⟨fun _ => List.Subset.refl _, [], (List.append_nil _).symm, by simp⟩
  | reg :: rest, (m, flushed, calls) => by
    simp only [purgeMatrix]
    obtain ⟨hsub₁, new₁, hnew₁, hc₁⟩ := purgeList_spec uops portMapping (m reg) (flushed, calls)
    generalize purgeList uops portMapping (m reg) (flushed, calls) = P at hsub₁ hnew₁ ⊢
    obtain ⟨hsub₂, new₂, hnew₂, hc₂⟩ := purgeMatrix_spec portMapping rest (Function.update m reg P.1, P.2)
    -- the updated matrix holds only what `m` held
    have hupd : ∀ reg', Function.update m reg P.1 reg' ⊆ m reg' := fun reg' => by
      by_cases hr : reg' = reg
      · subst hr
        rw [Function.update_same]
        exact hsub₁
      · rw [Function.update_noteq hr]
        exact List.Subset.refl _
    refine ⟨fun reg' => (hsub₂ reg').trans (hupd reg'), new₁ ++ new₂, ?_, fun c hc => ?_⟩
    · rw [hnew₂]
      dsimp only at hnew₁ ⊢
      rw [hnew₁, List.append_assoc]
    rcases List.mem_append.1 hc with hc | hc
    · obtain ⟨e, he, hf, rfl⟩ := hc₁ c hc
      exact ⟨reg, e, he, hf, rfl⟩
    · obtain ⟨reg', e, he, hf, rfl⟩ := hc₂ c hc
      exact ⟨reg', e, hupd reg' he, hf, rfl⟩

/-- What `purgeFlushed` gives back on `s`: its calls on the port allocator
are those of `s` followed by deallocations, each of a port allocated to a
flushed instruction. -/
def GivesBackAllocated (s : DispatchIssueUnit) : Prop :=
  ∀ s', purgeFlushed uops s = .ok s' → ∃ calls, s'.portCalls = s.portCalls ++ calls ∧
    ∀ c ∈ calls, ∃ u p, (uops u).flushed ∧ (u, p) ∈ s.allocated ∧ c = .deallocate p

/-- **`purgeFlushed` keeps every instruction on its port, and gives back only
ports allocated to flushed instructions**: a ready queue gives back its
`issuePort`, the port of each instruction in it, and a dependency entry its
own port. -/
theorem purgeFlushed_routed {s s' : DispatchIssueUnit} (h : s.Routed) (hp : purgeFlushed uops s = .ok s') :
    s'.Routed ∧ s'.portMapping = s.portMapping ∧ s'.allocated = s.allocated := by
  obtain ⟨⟨stations, calls₁⟩, h₁, hp⟩ := bind_eq_ok.1 hp
  obtain ⟨stations', h₂, hp⟩ := bind_eq_ok.1 hp
  cases hp
  unfold updateSizes at h₂
  split at h₂
  · have hst := (purgeStations_spec uops _ _ h₁).1
    have hdrop := dropFlushed_queues _ 0 stations h₂
    refine ⟨h.shrink rfl rfl (fun q => (hdrop q).1.trans (hst q).1) (fun q => (hdrop q).2 ▸ (hst q).2)
      (purgeMatrix_spec uops s.portMapping s.registers (s.dependencyMatrix, fun _ => [], calls₁)).1
      (List.Subset.refl _) (List.Subset.refl _), rfl, rfl⟩
  · cases h₂

theorem Routed.givesBackAllocated {s : DispatchIssueUnit} (h : s.Routed) : GivesBackAllocated uops s := by
  intro s' hp
  obtain ⟨⟨stations, calls₁⟩, h₁, hp⟩ := bind_eq_ok.1 hp
  obtain ⟨stations', -, hp⟩ := bind_eq_ok.1 hp
  cases hp
  obtain ⟨-, new₁, hnew₁, hc₁⟩ := purgeStations_spec uops _ _ h₁
  obtain ⟨-, new₂, hnew₂, hc₂⟩ := purgeMatrix_spec uops s.portMapping s.registers (s.dependencyMatrix, fun _ => [], calls₁)
  refine ⟨new₁ ++ new₂, ?_, fun c hc => ?_⟩
  · dsimp only at hnew₁ hnew₂ ⊢
    rw [hnew₂, hnew₁, List.append_assoc]
  rcases List.mem_append.1 hc with hc | hc
  · obtain ⟨q, u, hu, hf, rfl⟩ := hc₁ c hc
    exact ⟨u, _, hf, h.queued q u hu, rfl⟩
  · obtain ⟨reg, e, he, hf, rfl⟩ := hc₂ c hc
    exact ⟨e.uop, e.port, hf, (h.matrix reg e he).2, rfl⟩

end Purge

/-! ## Runs -/

/-- The allocator answers every instruction of a `tick` with a port below
`n`. -/
def Event.AllocatesBelow (n : Nat) : Event → Prop
  | .tick _ _ allocate => ∀ uop, allocate uop % 2 ^ 8 < n
  | _ => True

theorem step_routed {st st' : DispatchIssueUnit × Uops} {e : Event} (hs : step st e = .ok st') (h : st.1.Routed)
    (he : e.AllocatesBelow st.1.portMapping.length) : st'.1.Routed ∧ st'.1.portMapping = st.1.portMapping := by
  cases e with
  | tick slots regFile allocate =>
    obtain ⟨r, hr, rfl⟩ := map_eq_ok.1 hs
    exact tick_routed regFile allocate slots st hr h fun uop _ => he uop
  | issue stalled =>
    obtain ⟨r, hr, rfl⟩ := map_eq_ok.1 hs
    exact (issuePorts_routed stalled _ st.1 hr h).imp id And.left
  | forwardOperands insn canForward =>
    simp only [step, forwardOperands] at hs
    split at hs
    · cases hs
      exact forwardLoop_routed insn canForward _ st h
    · cases hs
  | setRegisterReady reg =>
    cases hs
    exact ⟨⟨h.1, h.2, h.3, h.4, h.5⟩, rfl⟩
  | purgeFlushed =>
    obtain ⟨s', hp, rfl⟩ := map_eq_ok.1 hs
    exact (purgeFlushed_routed st.2 h hp).imp id And.left
  | flush uop =>
    cases hs
    exact ⟨h, rfl⟩

/-- **Every run keeps every instruction on its port**, provided the
allocator answers with ports of the unit. -/
theorem run_routed : ∀ (events : List Event) (st : DispatchIssueUnit × Uops) {st' : DispatchIssueUnit × Uops},
    run st events = .ok st' → st.1.Routed → (∀ e ∈ events, e.AllocatesBelow st.1.portMapping.length) →
    st'.1.Routed ∧ st'.1.portMapping = st.1.portMapping
  | [], _, _, hr, h, _ => by cases hr; exact ⟨h, rfl⟩
  | e :: rest, st, _, hr, h, he => by
    obtain ⟨st₁, h₁, hr⟩ := bind_eq_ok.1 hr
    obtain ⟨h₁', hm₁⟩ := step_routed h₁ h (he e (List.mem_cons_self _ _))
    obtain ⟨h₂, hm₂⟩ := run_routed rest st₁ hr h₁' fun e' he' => hm₁ ▸ he e' (List.mem_cons_of_mem _ he')
    exact ⟨h₂, hm₂.trans hm₁⟩

/-! ## The constructor -/

theorem mem_queued_of_mem_queueAt {stations : List ReservationStation} {q : Nat × Nat} {u : Nat}
    (h : u ∈ queueAt stations q) : u ∈ queued stations := by
  simp only [queueAt, List.getD_eq_getElem?_getD] at h
  cases hrs : stations[q.1]? with
  | none => simp [hrs] at h
  | some rs =>
    rw [hrs, Option.getD_some] at h
    cases hp : rs.ports[q.2]? with
    | none => simp [hp] at h
    | some p =>
      rw [hp, Option.getD_some] at h
      exact mem_queued.2 ⟨rs, List.mem_iff_getElem?.2 ⟨_, hrs⟩, p, List.mem_iff_getElem?.2 ⟨_, hp⟩, h⟩

section Create

variable (physicalRegisterStructure : List Nat) {rsArrangement : List (Nat × Nat)} (enableBypassLatency : Bool)
  (dispatchRate : Nat) (hcap : ∀ r, rsArrangement.countP (·.1 = r) ≤ 2 ^ 8)
include hcap

/-- While no station serves more than 256 ports, the queue the constructor
maps port `p` to records `p`. -/
theorem construct_issuePort {p : Nat} (hp : p < rsArrangement.length) :
    let unit := construct physicalRegisterStructure rsArrangement enableBypassLatency dispatchRate
    portAt unit.reservationStations (unit.portMapping.getD p (0, 0)) = p := by
  intro unit
  obtain ⟨h₁, h₂⟩ := portQueue_of_le hcap hp
  have hm : unit.portMapping.getD p (0, 0) = portQueue rsArrangement p := by
    rw [construct_portMapping, (arrangePorts_mapping _).1, List.getD_eq_getElem _ _ (by simpa using hp),
      List.getElem_map, List.getElem_range]
  rw [hm, h₁, ← (arrangePorts_ports rsArrangement hcap).2, List.getElem?_map] at *
  obtain ⟨x, hx, hx'⟩ := Option.map_eq_some'.1 h₂
  rw [portAt, construct_reservationStations, List.getD_eq_getElem?_getD, hx, Option.getD_some, hx']

/-- The constructor builds a routed unit while no station serves more than
256 ports: each queue records the port mapped to it, and nothing waits. -/
theorem routed_construct :
    (construct physicalRegisterStructure rsArrangement enableBypassLatency dispatchRate).Routed where
  issuePort p hp := construct_issuePort physicalRegisterStructure enableBypassLatency dispatchRate hcap
    (by simpa [construct_portMapping, (arrangePorts_mapping _).1] using hp)
  queued _ _ hu := absurd (mem_queued_of_mem_queueAt hu)
    (not_mem_queued_arrangePorts 0 rsArrangement (by simp [queued]))
  matrix _ _ he := absurd he (List.not_mem_nil _)
  waiting _ hw := absurd hw (List.not_mem_nil _)
  dependant _ he := absurd he (List.not_mem_nil _)

end Create

/-! ## The map from ports to queues, and what reads it -/

/-- Ports 0 and 2 on station 0, port 1 on station 1. -/
def threePorts : List (Nat × Nat) := [(0, 4), (1, 8), (0, 4)]

/-- Three instructions with no operand, instruction `u` allocated port
`u % 3`, dispatched in one tick. -/
def threePortTick : Event := .tick [some 0, some 1, some 2] (fun _ => []) (· % 3)

end SimEng.Pipeline.DispatchIssueUnit
