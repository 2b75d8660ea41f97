import SimEng.Assertions
import SimEng.Pipeline.DispatchIssueUnit

/-!
# SimEng — the dispatch/issue unit sends only instructions that can execute

`issue` sends the front of each ready queue without looking at its operands:
that it can execute is up to the paths that fill the ready queues. There are
four. Dispatch in `tick` pushes an instruction when every operand it lacks
can be read from the register file; a due wake-up in `tick` and
`forwardOperands` with no forwarding latency push it once the value they
supply completes it; and the loop over the no-forward list in `tick` pushes
it whenever it can execute. No path takes an operand back.

Main results:

* `ReadyInv.step` — every event keeps the ready queues holding only
  instructions that can execute, on instructions with one operand slot per
  operand register;
* `issue_sends_executable` — over every run of the unit from its
  constructor, every instruction `issue` sends can execute.
-/

namespace SimEng.Pipeline

namespace Uop

theorem canExecute_iff {u : Uop} :
    u.canExecute = true ↔ ∀ i, i < u.operands.length → (u.operands.getD i none).isSome := by
  simp only [canExecute, List.all_eq_true]
  constructor
  · intro h i hi
    rw [List.getD_eq_getElem?_getD, List.getElem?_eq_getElem hi, Option.getD_some]
    exact h _ (List.getElem_mem hi)
  · intro h x hx
    obtain ⟨i, hi, rfl⟩ := List.getElem_of_mem hx
    simpa [List.getD_eq_getElem?_getD, List.getElem?_eq_getElem hi] using h i hi

/-- `v` is `u` with the same operand registers and slots, and at least the
operands of `u` supplied. -/
structure Supplied (u v : Uop) : Prop where
  operandRegisters : v.operandRegisters = u.operandRegisters
  length : v.operands.length = u.operands.length
  mono : ∀ i, (u.operands.getD i none).isSome → (v.operands.getD i none).isSome

theorem Supplied.refl (u : Uop) : Supplied u u := ⟨rfl, rfl, fun _ h => h⟩

theorem Supplied.trans {u v w : Uop} (h₁ : Supplied u v) (h₂ : Supplied v w) : Supplied u w :=
  ⟨h₂.operandRegisters.trans h₁.operandRegisters, h₂.length.trans h₁.length, fun i h => h₂.mono i (h₁.mono i h)⟩

theorem Supplied.canExecute {u v : Uop} (h : Supplied u v) (hu : u.canExecute = true) : v.canExecute = true :=
  canExecute_iff.2 fun i hi => h.mono i (canExecute_iff.1 hu i (h.length ▸ hi))

theorem supplied_supplyOperand (u : Uop) (i : Nat) (value : RegisterValue) :
    Supplied u (u.supplyOperand i value) where
  operandRegisters := rfl
  length := List.length_set ..
  mono j h := by
    simp only [supplyOperand, List.getD_eq_getElem?_getD, List.getElem?_set] at h ⊢
    split_ifs with h₁ h₂
    · rfl
    · subst h₁; rwa [List.getElem?_eq_none (Nat.le_of_not_lt h₂)] at h
    · exact h

theorem isSome_supplyOperand {u : Uop} {i : Nat} (value : RegisterValue) (hi : i < u.operands.length) :
    ((u.supplyOperand i value).operands.getD i none).isSome := by
  simp [supplyOperand, List.getD_eq_getElem?_getD, List.getElem?_set, hi]

theorem supplied_ite (c : Bool) (u : Uop) (i : Nat) (value : RegisterValue) :
    Supplied u (if c then u.supplyOperand i value else u) := by
  split
  · exact supplied_supplyOperand u i value
  · exact .refl u

end Uop

namespace DispatchIssueUnit

/-! ## The ready queues -/

/-- Every instruction in the ready queues of `stations`. -/
def queued (stations : List ReservationStation) : List Nat :=
  stations.flatMap fun rs => rs.ports.flatMap (·.ready)

theorem mem_queued {stations : List ReservationStation} {x : Nat} :
    x ∈ queued stations ↔ ∃ rs ∈ stations, ∃ p ∈ rs.ports, x ∈ p.ready := by
  simp [queued]

theorem mem_modify {α : Type} {f : α → α} : ∀ {n : Nat} {l : List α} {y : α},
    y ∈ l.modify f n → y ∈ l ∨ ∃ x ∈ l, y = f x
  | _, [], _, h => by simp at h
  | 0, a :: l, y, h => by
    rw [List.modify_zero_cons, List.mem_cons] at h
    rcases h with rfl | h
    · exact .inr ⟨a, List.mem_cons_self _ _, rfl⟩
    · exact .inl (List.mem_cons_of_mem _ h)
  | n + 1, a :: l, y, h => by
    rw [List.modify_succ_cons, List.mem_cons] at h
    rcases h with rfl | h
    · exact .inl (List.mem_cons_self _ _)
    · rcases mem_modify h with h | ⟨x, hx, rfl⟩
      · exact .inl (List.mem_cons_of_mem _ h)
      · exact .inr ⟨x, List.mem_cons_of_mem _ hx, rfl⟩

/-- Changing one ready queue by `f` queues, besides what was queued, only
what `f` adds. -/
theorem mem_queued_modifyQueue {stations : List ReservationStation} {q : Nat × Nat}
    {f : List Nat → List Nat} {x : Nat} (h : x ∈ queued (modifyQueue stations q f)) {P : Nat → Prop}
    (hf : ∀ l, ∀ y ∈ f l, y ∈ l ∨ P y) : x ∈ queued stations ∨ P x := by
  obtain ⟨rs', hrs', p', hp', hx⟩ := mem_queued.1 h
  rcases mem_modify hrs' with hrs | ⟨rs, hrs, rfl⟩
  · exact .inl (mem_queued.2 ⟨rs', hrs, p', hp', hx⟩)
  · rcases mem_modify hp' with hp | ⟨p, hp, rfl⟩
    · exact .inl (mem_queued.2 ⟨rs, hrs, p', hp, hx⟩)
    · exact (hf _ _ hx).imp_left fun hx => mem_queued.2 ⟨rs, hrs, p, hp, hx⟩

/-- Changing a station but not its ready queues queues nothing new. -/
theorem mem_queued_modify {stations : List ReservationStation} {g : ReservationStation → ReservationStation}
    {i x : Nat} (h : x ∈ queued (stations.modify g i)) (hg : ∀ rs, (g rs).ports = rs.ports) :
    x ∈ queued stations := by
  obtain ⟨rs', hrs', p, hp, hx⟩ := mem_queued.1 h
  rcases mem_modify hrs' with hrs | ⟨rs, hrs, rfl⟩
  · exact mem_queued.2 ⟨rs', hrs, p, hp, hx⟩
  · exact mem_queued.2 ⟨rs, hrs, p, hg rs ▸ hp, hx⟩

/-- The front of a ready queue read through `getD` is queued. -/
theorem mem_queued_getD {stations : List ReservationStation} {i j x : Nat}
    (h : x ∈ ((stations.getD i ⟨0, 0, []⟩).ports.getD j {}).ready) : x ∈ queued stations := by
  simp only [List.getD_eq_getElem?_getD] at h
  cases hs : stations[i]? with
  | none => simp [hs] at h
  | some rs =>
    rw [hs, Option.getD_some] at h
    cases hp : rs.ports[j]? with
    | none => simp [hp] at h
    | some p =>
      rw [hp, Option.getD_some] at h
      exact mem_queued.2 ⟨rs, List.mem_iff_getElem?.2 ⟨_, hs⟩, p, List.mem_iff_getElem?.2 ⟨_, hp⟩, h⟩

/-! ## The invariant -/

/-- The ready queues hold only instructions that can execute, and every
instruction has one operand slot per operand register. -/
structure ReadyInv (st : DispatchIssueUnit × Uops) : Prop where
  slots : ∀ u, (st.2 u).operands.length = (st.2 u).operandRegisters.length
  ready : ∀ u ∈ queued st.1.reservationStations, (st.2 u).canExecute = true

variable {s s' : DispatchIssueUnit} {uops : Uops}

/-- Supplying operands of one instruction keeps the invariant. -/
theorem ReadyInv.update (h : ReadyInv (s, uops)) {x : Nat} {u : Uop} (hu : Uop.Supplied (uops x) u) :
    ReadyInv (s, Function.update uops x u) where
  slots y := by
    by_cases hy : y = x
    · subst hy; simpa only [Function.update_same, hu.length, hu.operandRegisters] using h.slots y
    · simpa only [Function.update_noteq hy] using h.slots y
  ready y hy := by
    by_cases hyx : y = x
    · subst hyx; simpa only [Function.update_same] using hu.canExecute (h.ready y hy)
    · simpa only [Function.update_noteq hyx] using h.ready y hy

/-- Ready queues that hold, besides what was queued, only instructions that
can execute keep the invariant. -/
theorem ReadyInv.requeue (h : ReadyInv (s, uops))
    (hq : ∀ y ∈ queued s'.reservationStations, y ∈ queued s.reservationStations ∨ (uops y).canExecute = true) :
    ReadyInv (s', uops) :=
  ⟨h.slots, fun y hy => (hq y hy).elim (h.ready y) id⟩

theorem mem_queued_pushReady {port x y : Nat} (h : y ∈ queued (s.pushReady port x).reservationStations) :
    y ∈ queued s.reservationStations ∨ y = x :=
  mem_queued_modifyQueue (f := (· ++ [x])) h fun l y hy => by simpa using hy

/-- Changing the unit but not its ready queues keeps the invariant. -/
theorem ReadyInv.of_fst {st : DispatchIssueUnit × Uops} (h : ReadyInv st)
    (hs : s'.reservationStations = st.1.reservationStations) : ReadyInv (s', st.2) :=
  ⟨h.slots, fun y hy => h.ready y (hs ▸ hy)⟩

/-- What one instruction gains, pushed onto its ready queue if it can now
execute: the step that `supplyEntry` and the no-forward loop share. -/
theorem ReadyInv.offer (h : ReadyInv (s, uops)) {x port : Nat} {u : Uop} (hu : Uop.Supplied (uops x) u) :
    ReadyInv (if u.canExecute then s.pushReady port x else s, Function.update uops x u) := by
  have h₁ := h.update hu
  split
  · refine h₁.requeue fun y hy => (mem_queued_pushReady hy).imp id fun hyx => ?_
    rwa [hyx, Function.update_same]
  · exact h₁

theorem ReadyInv.supplyEntry (h : ReadyInv (s, uops)) {e : DependencyEntry} {value : RegisterValue} :
    ReadyInv (supplyEntry e value (s, uops)) := by
  have h' : ReadyInv ({ s with supplies := s.supplies ++ [(e.uop, e.operandIndex)] }, uops) := h.of_fst rfl
  exact h'.offer (Uop.supplied_supplyOperand _ _ _)

/-! ## `tick` -/

section Tick

variable (regFile : Register → RegisterValue) (allocate : Nat → Nat)

theorem ReadyInv.wakeUp {t : Nat} :
    ∀ {l : List (Nat × DependencyEntry × RegisterValue)} {st : DispatchIssueUnit × Uops},
      ReadyInv st → ReadyInv (wakeUp t l st).2
  | [], _, h => h
  | w :: rest, (s, uops), h => by
    simp only [DispatchIssueUnit.wakeUp]
    split
    · exact ReadyInv.wakeUp h.supplyEntry
    · exact ReadyInv.wakeUp h

theorem ReadyInv.readDependants :
    ∀ {l : List DependencyEntry} {st : DispatchIssueUnit × Uops},
      ReadyInv st → ReadyInv (readDependants regFile l st).2
  | [], _, h => h
  | e :: rest, (s, uops), h => by
    let reg := ((uops e.uop).operandRegisters.get? e.operandIndex).getD ⟨0, 0⟩
    have h' : ReadyInv (if s.scoreboard reg then { s with supplies := s.supplies ++ [(e.uop, e.operandIndex)] }
        else s, uops) := h.of_fst (by split <;> rfl)
    exact ReadyInv.readDependants (l := rest) (h'.offer (x := e.uop)
      (Uop.supplied_ite (s.scoreboard reg) _ e.operandIndex (regFile reg)))

/-- The register-read loop of dispatch supplies operands only, and reports
the instruction ready only when every operand it went over is supplied. -/
theorem readOperands_spec (uop port : Nat) (scoreboard : Register → Bool) :
    ∀ (l : List (Nat × Register)) (u : Uop) (m : Register → List DependencyEntry) (ready : Bool),
      (∀ p ∈ l, p.1 < u.operands.length) →
      Uop.Supplied u (readOperands regFile uop port scoreboard l (u, m, ready)).1 ∧
      ((readOperands regFile uop port scoreboard l (u, m, ready)).2.2 = true → ready = true ∧
        ∀ p ∈ l, ((readOperands regFile uop port scoreboard l (u, m, ready)).1.operands.getD p.1 none).isSome)
  | [], u, _, _, _ => ⟨.refl u, fun h => ⟨h, fun _ hp => absurd hp (List.not_mem_nil _)⟩⟩
  | (i, reg) :: rest, u, m, ready, hl => by
    have hi : i < u.operands.length := hl _ (List.mem_cons_self _ _)
    have hrest : ∀ p ∈ rest, p.1 < u.operands.length := fun p hp => hl p (List.mem_cons_of_mem _ hp)
    simp only [readOperands]
    split
    · -- supplied before
      rename_i hready
      obtain ⟨hs, hr⟩ := readOperands_spec uop port scoreboard rest u m ready hrest
      refine ⟨hs, fun h => ⟨(hr h).1, fun p hp => ?_⟩⟩
      rcases List.mem_cons.1 hp with rfl | hp
      · exact hs.mono i hready
      · exact (hr h).2 p hp
    · split
      · -- read from the register file
        have hsu := Uop.supplied_supplyOperand u i (regFile reg)
        obtain ⟨hs, hr⟩ := readOperands_spec uop port scoreboard rest _ m ready
          fun p hp => by rw [hsu.length]; exact hrest p hp
        refine ⟨hsu.trans hs, fun h => ⟨(hr h).1, fun p hp => ?_⟩⟩
        rcases List.mem_cons.1 hp with rfl | hp
        · exact hs.mono i (Uop.isSome_supplyOperand _ hi)
        · exact (hr h).2 p hp
      · -- left in the dependency matrix
        obtain ⟨hs, hr⟩ := readOperands_spec uop port scoreboard rest u _ false hrest
        exact ⟨hs, fun h => absurd (hr h).1 Bool.false_ne_true⟩

/-- An instruction that dispatch reads ready can execute. -/
theorem canExecute_of_readOperands {u : Uop} (hslots : u.operands.length = u.operandRegisters.length)
    {port uop : Nat} {scoreboard : Register → Bool} {m : Register → List DependencyEntry}
    (h : (readOperands regFile uop port scoreboard u.operandRegisters.enum (u, m, true)).2.2 = true) :
    (readOperands regFile uop port scoreboard u.operandRegisters.enum (u, m, true)).1.canExecute = true := by
  obtain ⟨hs, hr⟩ := readOperands_spec regFile uop port scoreboard u.operandRegisters.enum u m true
    fun p hp => hslots ▸ List.fst_lt_of_mem_enum hp
  refine Uop.canExecute_iff.2 fun i hi => ?_
  rw [hs.length, hslots] at hi
  exact (hr h).2 (i, u.operandRegisters[i]) (List.mk_mem_enum_iff_getElem?.2 (List.getElem?_eq_getElem hi))

theorem ReadyInv.dispatchSlots :
    ∀ {slots : List (Option Nat)} {st : DispatchIssueUnit × Uops}
      {r : List (Option Nat) × Bool × DispatchIssueUnit × Uops},
      dispatchSlots regFile allocate slots st = .ok r → ReadyInv st → ReadyInv r.2.2
  | [], _, _, h, hi => by cases h; exact hi
  | none :: rest, st, r, h, hi => by
    obtain ⟨r', h', rfl⟩ := map_eq_ok.1 h
    exact ReadyInv.dispatchSlots (r := r') h' hi
  | some uop :: rest, (s, uops), r, h, hi => by
    simp only [DispatchIssueUnit.dispatchSlots] at h
    split at h
    · -- an exception: commit-ready, and dropped
      obtain ⟨r', h', rfl⟩ := map_eq_ok.1 h
      exact ReadyInv.dispatchSlots (r := r') h' (hi.update ⟨rfl, rfl, fun _ h => h⟩)
    · split at h
      · cases h
      · split at h
        · -- the station is full: the tick ends
          cases h
          exact ⟨hi.slots, hi.ready⟩
        · obtain ⟨r', h', rfl⟩ := map_eq_ok.1 h
          refine ReadyInv.dispatchSlots (r := r') h' ((hi.update (readOperands_spec regFile _ _ _ _ _ _ _
            fun p hp => hi.slots uop ▸ List.fst_lt_of_mem_enum hp).1).requeue fun y hy => ?_)
          split at hy
          · rename_i hready
            rcases mem_queued_modifyQueue (f := (· ++ [uop])) hy (P := (· = uop))
              (fun l y hy => by simpa using hy) with hy | rfl
            · exact .inl (mem_queued_modify hy fun _ => rfl)
            · rw [Function.update_same]
              exact .inr (canExecute_of_readOperands regFile (hi.slots y) hready)
          · exact .inl (mem_queued_modify hy fun _ => rfl)

theorem ReadyInv.tick {slots : List (Option Nat)} {st : DispatchIssueUnit × Uops}
    {r : List (Option Nat) × Bool × DispatchIssueUnit × Uops} (h : ReadyInv st)
    (ht : tick regFile allocate slots st = .ok r) : ReadyInv r.2.2 := by
  unfold DispatchIssueUnit.tick at ht
  refine ReadyInv.dispatchSlots regFile allocate ht (ReadyInv.of_fst ?_ rfl)
  refine ReadyInv.readDependants regFile (ReadyInv.of_fst ?_ rfl)
  exact ReadyInv.wakeUp (h.of_fst rfl)

end Tick

/-! ## `issue`, `forwardOperands` and `purgeFlushed` -/

/-- `issue` sends only instructions that were queued, and queues nothing
new. -/
theorem issuePorts_queued {stalled : List Bool} :
    ∀ {ports : List Nat} {s : DispatchIssueUnit} {r : DispatchIssueUnit × List (Nat × Nat)},
      issuePorts stalled ports s = .ok r →
      (∀ y ∈ queued r.1.reservationStations, y ∈ queued s.reservationStations) ∧
        ∀ p ∈ r.2, p.2 ∈ queued s.reservationStations
  | [], s, r, h => by cases h; exact ⟨fun _ hy => hy, fun _ hp => absurd hp (List.not_mem_nil _)⟩
  | i :: rest, s, r, h => by
    simp only [issuePorts] at h
    split at h
    · exact issuePorts_queued h
    · split at h
      · exact issuePorts_queued h
      · rename_i uop tail hq
        split at h
        · cases h
        · obtain ⟨r', h', rfl⟩ := map_eq_ok.1 h
          obtain ⟨hsub, hsent⟩ := issuePorts_queued h'
          have hless : ∀ y ∈ queued ((modifyQueue s.reservationStations (s.portMapping.getD i (0, 0))
              List.tail).modify (fun rs => { rs with currentSize := rs.currentSize - 1 })
              (s.portMapping.getD i (0, 0)).1), y ∈ queued s.reservationStations := fun y hy =>
            (mem_queued_modifyQueue (mem_queued_modify hy fun _ => rfl) (P := fun _ => False)
              fun _ _ hy => .inl (List.mem_of_mem_tail hy)).elim id False.elim
          refine ⟨fun y hy => hless y (hsub y hy), fun p hp => ?_⟩
          rcases List.mem_cons.1 hp with rfl | hp
          · exact mem_queued_getD (hq ▸ List.mem_cons_self _ _)
          · exact hless _ (hsent p hp)

theorem ReadyInv.forwardDependents {producer : Nat} {canForward : Nat → Nat → Int} {value : RegisterValue} :
    ∀ {l : List DependencyEntry} {st : DispatchIssueUnit × Uops},
      ReadyInv st → ReadyInv (forwardDependents producer canForward value l st)
  | [], _, h => h
  | e :: rest, (s, uops), h => by
    refine ReadyInv.forwardDependents (l := rest) ?_
    split_ifs
    all_goals first | exact h.supplyEntry | exact ⟨h.slots, h.ready⟩

theorem ReadyInv.forwardLoop {producer : Nat} {canForward : Nat → Nat → Int} :
    ∀ {l : List (Register × RegisterValue)} {st : DispatchIssueUnit × Uops},
      ReadyInv st → ReadyInv (forwardLoop producer canForward l st)
  | [], _, h => h
  | _ :: rest, _, h =>
    ReadyInv.forwardLoop (l := rest) (ReadyInv.of_fst (ReadyInv.forwardDependents (h.of_fst rfl)) rfl)

/-- `purgeFlushed`'s loop over one ready queue only drops instructions. -/
theorem purgeReady_sub {issuePort : Nat} :
    ∀ {l : List Nat} {acc : Nat × List PortCall} {r : List Nat × Nat × List PortCall},
      purgeReady uops issuePort l acc = .ok r → ∀ y ∈ r.1, y ∈ l
  | [], _, r, h => by cases h; exact fun _ hy => absurd hy (List.not_mem_nil _)
  | u :: rest, (size, calls), r, h => by
    simp only [purgeReady] at h
    split at h
    · split at h
      · cases h
      · exact fun y hy => List.mem_cons_of_mem _ (purgeReady_sub h y hy)
    · obtain ⟨r', h', rfl⟩ := map_eq_ok.1 h
      intro y hy
      rcases List.mem_cons.1 hy with rfl | hy
      · exact List.mem_cons_self _ _
      · exact List.mem_cons_of_mem _ (purgeReady_sub h' y hy)

theorem purgePorts_sub :
    ∀ {ports : List ReservationStationPort} {acc : Nat × List PortCall}
      {r : List ReservationStationPort × Nat × List PortCall},
      purgePorts uops ports acc = .ok r → ∀ p' ∈ r.1, ∀ y ∈ p'.ready, ∃ p ∈ ports, y ∈ p.ready
  | [], _, r, h => by cases h; exact fun _ hp => absurd hp (List.not_mem_nil _)
  | p :: rest, acc, r, h => by
    obtain ⟨⟨ready, acc₁⟩, h₁, h⟩ := bind_eq_ok.1 h
    obtain ⟨⟨ports, acc₂⟩, h₂, h⟩ := bind_eq_ok.1 h
    cases h
    intro p' hp' y hy
    rcases List.mem_cons.1 hp' with rfl | hp'
    · exact ⟨p, List.mem_cons_self _ _, purgeReady_sub h₁ y hy⟩
    · obtain ⟨q, hq, hy⟩ := purgePorts_sub h₂ p' hp' y hy
      exact ⟨q, List.mem_cons_of_mem _ hq, hy⟩

theorem purgeStations_sub :
    ∀ {stations : List ReservationStation} {calls : List PortCall}
      {r : List ReservationStation × List PortCall},
      purgeStations uops stations calls = .ok r → ∀ y ∈ queued r.1, y ∈ queued stations
  | [], _, r, h => by cases h; exact fun _ hy => hy
  | rs :: rest, calls, r, h => by
    obtain ⟨⟨ports, size, calls₁⟩, h₁, h⟩ := bind_eq_ok.1 h
    obtain ⟨⟨stations, calls₂⟩, h₂, h⟩ := bind_eq_ok.1 h
    cases h
    intro y hy
    obtain ⟨rs', hrs', p', hp', hy⟩ := mem_queued.1 hy
    rcases List.mem_cons.1 hrs' with rfl | hrs'
    · obtain ⟨p, hp, hy⟩ := purgePorts_sub h₁ p' hp' y hy
      exact mem_queued.2 ⟨rs, List.mem_cons_self _ _, p, hp, hy⟩
    · obtain ⟨rs₀, hrs₀, p, hp, hy⟩ := mem_queued.1 (purgeStations_sub h₂ y (mem_queued.2 ⟨rs', hrs', p', hp', hy⟩))
      exact mem_queued.2 ⟨rs₀, List.mem_cons_of_mem _ hrs₀, p, hp, hy⟩

theorem dropFlushed_sub {flushed : Nat → List Nat} :
    ∀ {i : Nat} {stations stations' : List ReservationStation},
      dropFlushed flushed i stations = .ok stations' → ∀ y ∈ queued stations', y ∈ queued stations
  | _, [], _, h => by cases h; exact fun _ hy => hy
  | i, rs :: rest, stations', h => by
    simp only [dropFlushed] at h
    split at h
    · cases h
    · obtain ⟨r', h', rfl⟩ := map_eq_ok.1 h
      intro y hy
      obtain ⟨rs', hrs', p, hp, hy⟩ := mem_queued.1 hy
      rcases List.mem_cons.1 hrs' with rfl | hrs'
      · exact mem_queued.2 ⟨rs, List.mem_cons_self _ _, p, hp, hy⟩
      · obtain ⟨rs₀, hrs₀, p₀, hp₀, hy⟩ := mem_queued.1 (dropFlushed_sub h' y (mem_queued.2 ⟨rs', hrs', p, hp, hy⟩))
        exact mem_queued.2 ⟨rs₀, List.mem_cons_of_mem _ hrs₀, p₀, hp₀, hy⟩

theorem purgeFlushed_sub (h : purgeFlushed uops s = .ok s') :
    ∀ y ∈ queued s'.reservationStations, y ∈ queued s.reservationStations := by
  obtain ⟨⟨stations, calls⟩, h₁, h⟩ := bind_eq_ok.1 h
  obtain ⟨stations', h₂, h⟩ := bind_eq_ok.1 h
  cases h
  unfold updateSizes at h₂
  split at h₂
  · exact fun y hy => purgeStations_sub h₁ y (dropFlushed_sub h₂ y hy)
  · cases h₂

/-! ## Runs -/

/-- Every event keeps the ready queues holding only instructions that can
execute. -/
theorem ReadyInv.step {st st' : DispatchIssueUnit × Uops} {e : Event} (h : ReadyInv st)
    (he : step st e = .ok st') : ReadyInv st' := by
  obtain ⟨s, uops⟩ := st
  cases e with
  | tick slots regFile allocate =>
    obtain ⟨r, hr, rfl⟩ := map_eq_ok.1 he
    exact h.tick regFile allocate hr
  | issue stalled =>
    obtain ⟨r, hr, rfl⟩ := map_eq_ok.1 he
    exact h.requeue fun y hy => .inl ((issuePorts_queued hr).1 y hy)
  | forwardOperands insn canForward =>
    simp only [DispatchIssueUnit.step, DispatchIssueUnit.forwardOperands] at he
    split at he
    · cases he; exact h.forwardLoop
    · cases he
  | setRegisterReady reg => cases he; exact ⟨h.slots, h.ready⟩
  | purgeFlushed =>
    obtain ⟨r, hr, rfl⟩ := map_eq_ok.1 he
    exact h.requeue fun y hy => .inl (purgeFlushed_sub hr y hy)
  | flush uop => cases he; exact h.update ⟨rfl, rfl, fun _ h => h⟩

theorem ReadyInv.run : ∀ {events : List Event} {st st' : DispatchIssueUnit × Uops},
    ReadyInv st → run st events = .ok st' → ReadyInv st'
  | [], _, _, h, he => by cases he; exact h
  | e :: rest, st, st', h, he => by
    obtain ⟨st₁, h₁, h₂⟩ := bind_eq_ok.1 he
    exact ReadyInv.run (h.step h₁) h₂

/-! ## The constructor -/

theorem not_mem_queued_resizeWith {stations : List ReservationStation} {n x : Nat}
    (h : x ∉ queued stations) : x ∉ queued (resizeWith stations n ⟨0, 0, []⟩) := fun hx => by
  obtain ⟨rs, hrs, p, hp, hx⟩ := mem_queued.1 hx
  rcases List.mem_append.1 hrs with hrs | hrs
  · exact h (mem_queued.2 ⟨rs, List.mem_of_mem_take hrs, p, hp, hx⟩)
  · rw [List.eq_of_mem_replicate hrs] at hp
    exact List.not_mem_nil _ hp

theorem not_mem_ready_arrangePort {ports : List ReservationStationPort} {k port x : Nat}
    (h : ∀ p ∈ ports, x ∉ p.ready) :
    ∀ p ∈ (resizeWith ports (k + 1) {}).modify (fun p => { p with issuePort := port }) k, x ∉ p.ready := by
  intro p hp hx
  rcases mem_modify hp with hp | ⟨p₀, hp₀, rfl⟩ <;>
  · rcases List.mem_append.1 ‹_› with hp' | hp'
    · exact h _ (List.mem_of_mem_take hp') hx
    · rw [List.eq_of_mem_replicate hp'] at hx
      exact List.not_mem_nil _ hx

theorem not_mem_queued_arrangePort {port : Nat} {e : Nat × Nat}
    {acc : List ReservationStation × List (Nat × Nat)} {x : Nat} (h : x ∉ queued acc.1) :
    x ∉ queued (arrangePort port e acc).1 := fun hx => by
  have hs : x ∉ queued (if acc.1.length < e.1 + 1 then resizeWith acc.1 (e.1 + 1) ⟨0, 0, []⟩ else acc.1) := by
    split
    · exact not_mem_queued_resizeWith h
    · exact h
  obtain ⟨rs', hrs', p, hp, hx⟩ := mem_queued.1 hx
  rcases List.mem_or_eq_of_mem_set hrs' with hrs | rfl
  · exact hs (mem_queued.2 ⟨rs', hrs, p, hp, hx⟩)
  · refine not_mem_ready_arrangePort (fun p hp hx => hs ?_) p hp hx
    rw [List.getD_eq_getElem?_getD] at hp
    cases hrs : (if acc.1.length < e.1 + 1 then resizeWith acc.1 (e.1 + 1) ⟨0, 0, []⟩ else acc.1)[e.1]? with
    | none => simp [hrs] at hp
    | some rs => rw [hrs, Option.getD_some] at hp; exact mem_queued.2 ⟨rs, List.mem_iff_getElem?.2 ⟨_, hrs⟩, p, hp, hx⟩

theorem not_mem_queued_arrangePorts :
    ∀ (port : Nat) (arr : List (Nat × Nat)) {acc : List ReservationStation × List (Nat × Nat)} {x : Nat},
      x ∉ queued acc.1 → x ∉ queued (arrangePorts port arr acc).1
  | _, [], _, _, h => h
  | port, _ :: rest, _, _, h => not_mem_queued_arrangePorts (port + 1) rest (not_mem_queued_arrangePort h)

theorem readyInv_create {physicalRegisterStructure : List Nat} {rsArrangement : List (Nat × Nat)}
    {enableBypassLatency : Bool} {dispatchRate : Nat} {unit : DispatchIssueUnit}
    (hcreate : create physicalRegisterStructure rsArrangement enableBypassLatency dispatchRate = some unit)
    (hslots : ∀ u, (uops u).operands.length = (uops u).operandRegisters.length) : ReadyInv (unit, uops) := by
  obtain ⟨rfl, -⟩ := create_eq_some_iff.1 hcreate
  exact ⟨hslots, fun _ hy => absurd hy (not_mem_queued_arrangePorts 0 rsArrangement (by simp [queued]))⟩

/-- **`issue` sends only instructions that can execute.** Over every run of
the unit its constructor returns, on instructions with one operand slot per
operand register, every instruction a call of `issue` sends has all its
operands supplied. -/
theorem issue_sends_executable {physicalRegisterStructure : List Nat} {rsArrangement : List (Nat × Nat)}
    {enableBypassLatency : Bool} {dispatchRate : Nat} {unit : DispatchIssueUnit} {events : List Event}
    {st : DispatchIssueUnit × Uops}
    (hcreate : create physicalRegisterStructure rsArrangement enableBypassLatency dispatchRate = some unit)
    (hslots : ∀ u, (uops u).operands.length = (uops u).operandRegisters.length)
    (hrun : run (unit, uops) events = .ok st)
    {stalled : List Bool} {r : DispatchIssueUnit × List (Nat × Nat)} (hissue : issue stalled st.1 = .ok r) :
    ∀ p ∈ r.2, (st.2 p.2).canExecute = true := fun p hp =>
  ((readyInv_create hcreate hslots).run hrun).ready _ ((issuePorts_queued hissue).2 p hp)

/-- Instruction 1 writes `⟨0, 5⟩`; instruction 0 reads it and `⟨0, 2⟩`. -/
def chained : Uops := fun n =>
  if n = 0 then { operandRegisters := [⟨0, 5⟩, ⟨0, 2⟩], operands := [none, none] }
  else if n = 1 then { destinationRegisters := [⟨0, 5⟩], results := [[7]] } else {}

/-- Both instructions are dispatched, instruction 1 issues and forwards its
result with no latency. -/
def chainedRun : List Event :=
  [.tick [some 1, some 0] (fun _ => [1]) (fun _ => 0), .issue [false], .forwardOperands 1 fun _ _ => 0]

/-- After `chainedRun`, `issue` sends instruction 0, which can execute. -/
theorem chainedRun_issue :
    ∃ unit, create [8] [(0, 4)] true 4 = some unit ∧ ∃ st, run (unit, chained) chainedRun = .ok st ∧
      ∃ r, issue [false] st.1 = .ok r ∧ r.2 = [(0, 0)] ∧ ∀ p ∈ r.2, (st.2 p.2).canExecute = true :=
  ⟨_, rfl, _, rfl, _, rfl, rfl, @issue_sends_executable chained [8] [(0, 4)] true 4 _ chainedRun _ rfl
    (fun u => by unfold chained; split_ifs <;> rfl) rfl [false] _ rfl⟩

end DispatchIssueUnit

end SimEng.Pipeline
