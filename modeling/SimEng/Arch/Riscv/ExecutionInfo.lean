import SimEng.Arch.Riscv.Inheritance

/-!
# SimEng — each group follows its nearest configured ancestor

After the RISC-V constructor, over an inheritance forest of fewer than 255
groups in which no group is named by two `Latencies` entries, every group
holds the latency and stall cycles of the entry naming its nearest
ancestor-or-self, or `{1, 1}` when no entry names one; and in `outoforder`
mode its ports are those of the `Ports` entries naming it or an ancestor, each
port as its index cast to `uint8_t`.

The `Latencies` loop keeps `Nearest`: each group holds the values of its
nearest ancestor-or-self among the groups named so far, at the distance at
which that ancestor's walk reached it. A new named group overrides exactly
the groups it is nearer to, because a nearer group reaches them at a smaller
distance (`Forest.pushes_lt`).

Main results:

* `executionInfo_nearest_ancestor` — the values above, with at most 256
  ports;
* `ports_of_create` — the ports of each group for any number of ports, each
  port as its index modulo 256;
* `portIndex_wraps` — with 257 ports, the group named only by the last port
  entry is served by port 0.
-/

namespace SimEng.Arch.Riscv

variable {groupInheritance : Nat → List Nat}

/-! ## One group of the `Latencies` loop -/

/-- What the `Latencies` loop tracks of a group: its latency, its stall
cycles and its inheritance distance. -/
def LatencyState.get (st : LatencyState) (q : Nat) : Nat × Nat × Nat :=
  ((st.groupExecutionInfo q).latency, (st.groupExecutionInfo q).stallCycles, st.inheritanceDistance q)

theorem LatencyState.get_assign (st : LatencyState) (g l t d q : Nat) :
    (st.assign g l t d).get q = if q = g then (l, t, d) else st.get q := by
  unfold LatencyState.get LatencyState.assign
  by_cases h : q = g
  · subst h; simp
  · simp [h]

@[simp] theorem LatencyState.ports_assign (st : LatencyState) (g l t d q : Nat) :
    ((st.assign g l t d).groupExecutionInfo q).ports = (st.groupExecutionInfo q).ports := by
  simp only [LatencyState.assign, Function.update_apply]
  split <;> simp_all

theorem get_inheritLatency (l t d : Nat) (st : LatencyState) (g q : Nat) :
    (inheritLatency l t d st g).get q = if q = g ∧ d < st.inheritanceDistance g then (l, t, d) else st.get q := by
  unfold inheritLatency
  by_cases hd : d < st.inheritanceDistance g
  · rw [if_pos hd, LatencyState.get_assign]
    simp [hd]
  · rw [if_neg hd]
    simp [hd]

theorem get_inheritLatency_of_ne {l t d g q : Nat} (hq : q ≠ g) (st : LatencyState) :
    (inheritLatency l t d st g).get q = st.get q := by
  rw [get_inheritLatency, if_neg fun h => hq h.1]

@[simp] theorem ports_inheritLatency (l t d : Nat) (st : LatencyState) (g q : Nat) :
    ((inheritLatency l t d st g).groupExecutionInfo q).ports = (st.groupExecutionInfo q).ports := by
  unfold inheritLatency; split <;> simp

theorem ports_actAll_inheritLatency (l t : Nat) (ps : List (Nat × Nat)) (st : LatencyState) (q : Nat) :
    ((actAll (inheritLatency l t) ps st).groupExecutionInfo q).ports = (st.groupExecutionInfo q).ports := by
  induction ps generalizing st with
  | nil => rfl
  | cons p ps ih => exact (ih _).trans (ports_inheritLatency _ _ _ _ _ _)

theorem get_actAll_of_not_mem {l t c : Nat} {ps : List (Nat × Nat)} (hc : c ∉ ps.map Prod.fst) (st : LatencyState) :
    (actAll (inheritLatency l t) ps st).get c = st.get c := by
  induction ps generalizing st with
  | nil => rfl
  | cons p ps ih =>
    rw [List.map_cons, List.mem_cons, not_or] at hc
    exact (ih hc.2 _).trans (get_inheritLatency_of_ne hc.1 st)

/-- A group acted on once by the walk takes the entry's values if its distance
is smaller than the one it holds. -/
theorem get_actAll_of_mem {l t c e : Nat} {ps : List (Nat × Nat)} (hnd : (ps.map Prod.fst).Nodup)
    (hce : (c, e) ∈ ps) (st : LatencyState) :
    (actAll (inheritLatency l t) ps st).get c = if e < st.inheritanceDistance c then (l, t, e) else st.get c := by
  induction ps generalizing st with
  | nil => cases hce
  | cons p ps ih =>
    rw [List.map_cons, List.nodup_cons] at hnd
    rcases List.mem_cons.1 hce with rfl | hce
    · rw [actAll, List.foldl_cons, ← actAll, get_actAll_of_not_mem hnd.1, get_inheritLatency]
      simp
    · have hcp : c ≠ p.1 := fun h => hnd.1 (h ▸ List.mem_map_of_mem Prod.fst hce)
      have hdist : (inheritLatency l t p.2 st p.1).inheritanceDistance c = st.inheritanceDistance c :=
        congrArg (·.2.2) (get_inheritLatency_of_ne hcp st)
      rw [actAll, List.foldl_cons, ← actAll, ih hnd.2 hce, hdist, get_inheritLatency_of_ne hcp st]

section Forest

variable {numGroups : Nat} (hf : Forest groupInheritance numGroups)
include hf

/-- One group named by a `Latencies` entry: it takes the entry's values at
distance 0, each group below it takes them if the walk reaches it at a
smaller distance than the one it holds, and every other group is left
alone. -/
theorem Forest.assignLatency_spec {fuel : Nat} (hfuel : numGroups < fuel) (l t : Nat) (st : LatencyState)
    (g : Nat) : ∃ st', assignLatency groupInheritance fuel l t st g = some st' ∧
      st'.get g = (l, t, 0) ∧
      (∀ c e, (c, e) ∈ pushes groupInheritance 1 (order groupInheritance numGroups g) →
        st'.get c = if e < st.inheritanceDistance c then (l, t, e) else st.get c) ∧
      (∀ c, c ≠ g → c ∉ (pushes groupInheritance 1 (order groupInheritance numGroups g)).map Prod.fst →
        st'.get c = st.get c) ∧
      ∀ q, (st'.groupExecutionInfo q).ports = (st.groupExecutionInfo q).ports := by
  have hg : g ∉ (pushes groupInheritance 1 (order groupInheritance numGroups g)).map Prod.fst :=
    fun h => (hf.mem_pushes_fst.1 h).elim fun n hn => hf.acyclic g n hn
  refine ⟨_, hf.walk_order _ g hfuel _, ?_, fun c e hce => ?_, fun c hc hcp => ?_, fun q => ?_⟩
  · rw [get_actAll_of_not_mem hg, LatencyState.get_assign, if_pos rfl]
  · have hcg : c ≠ g := fun h => hg (h ▸ List.mem_map_of_mem Prod.fst hce)
    rw [get_actAll_of_mem (hf.pushes_nodup g) hce, LatencyState.get_assign, if_neg hcg]
    simp only [LatencyState.assign, Function.update_apply, if_neg hcg]
  · rw [get_actAll_of_not_mem hcp, LatencyState.get_assign, if_neg hc]
  · rw [ports_actAll_inheritLatency, LatencyState.ports_assign]

end Forest

/-! ## The `Latencies` loop -/

variable (groupInheritance) in
/-- After the groups of `S` have taken their entries' values, in this order,
each group holds the values of its nearest ancestor-or-self in `S`, at
distance 0 if that is the group itself and otherwise at the distance of the
ancestor's walk; a group with no ancestor-or-self in `S` holds `{1, 1}` at
distance `UINT8_MAX`. -/
def Nearest (numGroups : Nat) (S : List (Nat × LatencyEntry)) (st : LatencyState) : Prop :=
  ∀ c, ((∀ p ∈ S, ∀ n, ¬ InheritedAt groupInheritance p.1 c n) ∧ st.get c = (1, 1, 255)) ∨
    ∃ p ∈ S, ∃ n, InheritedAt groupInheritance p.1 c n ∧
      (∀ q ∈ S, ∀ m, InheritedAt groupInheritance q.1 c m → n ≤ m) ∧
      ∃ d, st.get c = (p.2.executionLatency, p.2.executionThroughput, d) ∧
        (p.1 = c ∧ d = 0 ∨ (c, d) ∈ pushes groupInheritance 1 (order groupInheritance numGroups p.1))

theorem nearest_initial (numGroups : Nat) : Nearest groupInheritance numGroups [] initialLatencies :=
  fun _ => .inl ⟨fun _ h => absurd h (List.not_mem_nil _), rfl⟩

section Forest

variable {numGroups : Nat} (hf : Forest groupInheritance numGroups)
include hf

/-- The walk reaches a group below `g` at one distance. -/
theorem Forest.pushes_unique {g c d d' : Nat} (hd : (c, d) ∈ pushes groupInheritance 1 (order groupInheritance numGroups g))
    (hd' : (c, d') ∈ pushes groupInheritance 1 (order groupInheritance numGroups g)) : d = d' :=
  (Prod.mk.inj (List.inj_on_of_nodup_map (hf.pushes_nodup g) hd hd' rfl)).2

/-- A new named group `g`, with its entry, keeps `Nearest`, provided no group
is named with two entries. -/
theorem Forest.nearest_assign (hgroups : numGroups < 255) {fuel : Nat} (hfuel : numGroups < fuel)
    {S : List (Nat × LatencyEntry)} {st : LatencyState} (h : Nearest groupInheritance numGroups S st)
    {g : Nat} {e : LatencyEntry} (hcons : ∀ q ∈ S, q.1 = g → q.2 = e) {st' : LatencyState}
    (hst' : assignLatency groupInheritance fuel e.executionLatency e.executionThroughput st g = some st') :
    Nearest groupInheritance numGroups (S ++ [(g, e)]) st' := by
  obtain ⟨st'', hst'', hg, hpush, hrest, -⟩ :=
    hf.assignLatency_spec hfuel e.executionLatency e.executionThroughput st g
  obtain rfl := Option.some.inj (hst''.symm.trans hst')
  intro c
  -- the minimality over `S ++ [(g, e)]`, from that over `S` and the distance of `g`
  have hmin' : ∀ {n}, (∀ q ∈ S, ∀ m, InheritedAt groupInheritance q.1 c m → n ≤ m) →
      (∀ m, InheritedAt groupInheritance g c m → n ≤ m) →
      ∀ q ∈ S ++ [(g, e)], ∀ m, InheritedAt groupInheritance q.1 c m → n ≤ m := fun hS hg q hq =>
    (List.mem_append.1 hq).elim (hS q) fun hq => List.mem_singleton.1 hq ▸ hg
  by_cases hcg : c = g
  · subst hcg
    exact .inr ⟨(c, e), by simp, 0, .refl, fun _ _ _ _ => Nat.zero_le _, 0, hg, .inl ⟨rfl, rfl⟩⟩
  by_cases hcp : c ∈ (pushes groupInheritance 1 (order groupInheritance numGroups g)).map Prod.fst
  · obtain ⟨⟨c', eg⟩, hmem, rfl⟩ := List.mem_map.1 hcp
    obtain ⟨m, hm⟩ := hf.mem_pushes_fst.1 hcp
    have hgmin : ∀ k, InheritedAt groupInheritance g c' k → m + 1 ≤ k := fun k hk => (hf.distance_unique hm hk).le
    rw [hpush c' eg hmem]
    rcases h c' with ⟨hnone, hget⟩ | ⟨p, hp, n, hn, hmin, d, hget, hd⟩
    · -- no ancestor named so far: the initial distance is larger than any distance of the walk
      have hlt : eg < st.inheritanceDistance c' := by
        have := congrArg (·.2.2) hget
        have := hf.pushes_le hmem
        simp only [LatencyState.get] at *
        omega
      rw [if_pos hlt]
      exact .inr ⟨(g, e), by simp, m + 1, hm, hmin' (fun q hq k hk => absurd hk (hnone q hq k)) hgmin,
        eg, rfl, .inr hmem⟩
    · have hdist : st.inheritanceDistance c' = d := congrArg (·.2.2) hget
      rcases Nat.lt_trichotomy (m + 1) n with hlt | heq | hgt
      · -- `g` is nearer than the nearest so far, and its walk reaches `c'` first
        obtain ⟨k, hk⟩ : ∃ k, n - (m + 1) = k + 1 := ⟨n - m - 2, by omega⟩
        have hanc := hf.ancestor hm hn hlt.le
        rw [hk] at hanc
        rcases hd with ⟨rfl, -⟩ | hd
        · exact absurd (hf.distance_unique hn .refl) (by omega)
        rw [if_pos (hdist ▸ hf.pushes_lt hgroups hanc hmem hd)]
        exact .inr ⟨(g, e), by simp, m + 1, hm,
          hmin' (fun q hq k hk => hlt.le.trans (hmin q hq k hk)) hgmin, eg, rfl, .inr hmem⟩
      · -- `g` is the nearest so far, named with the same entry
        obtain rfl := hf.eq_of_inheritedAt hn (heq ▸ hm)
        rcases hd with ⟨hpc, -⟩ | hd
        · exact absurd hpc.symm hcg
        rw [if_neg (by rw [hdist, hf.pushes_unique hd hmem]; exact Nat.lt_irrefl _)]
        exact .inr ⟨p, List.mem_append_left _ hp, n, hn, hmin' hmin (heq ▸ hgmin), d, hget, .inr hd⟩
      · -- the nearest so far is nearer than `g`, and reaches `c'` first
        obtain ⟨k, hk⟩ : ∃ k, m + 1 - n = k + 1 := ⟨m - n, by omega⟩
        have hanc := hf.ancestor hn hm hgt.le
        rw [hk] at hanc
        have hle : ¬ eg < st.inheritanceDistance c' := by
          rcases hd with ⟨-, rfl⟩ | hd
          · omega
          · have := hf.pushes_lt hgroups hanc hd hmem
            omega
        rw [if_neg hle]
        exact .inr ⟨p, List.mem_append_left _ hp, n, hn,
          hmin' hmin fun k hk => (Nat.le_of_lt hgt).trans (hgmin k hk), d, hget, hd⟩
  · -- `g` is not an ancestor of `c`
    have hno : ∀ n, ¬ InheritedAt groupInheritance g c n := fun n hn => by
      cases n with
      | zero => cases hn; exact hcg rfl
      | succ n => exact hcp (hf.mem_pushes_fst.2 ⟨n, hn⟩)
    rw [hrest c hcg hcp]
    rcases h c with ⟨hnone, hget⟩ | ⟨p, hp, n, hn, hmin, hrest'⟩
    · refine .inl ⟨fun q hq k hk => ?_, hget⟩
      rcases List.mem_append.1 hq with hq | hq
      · exact hnone q hq k hk
      · rw [List.mem_singleton.1 hq] at hk
        exact hno k hk
    · exact .inr ⟨p, List.mem_append_left _ hp, n, hn, hmin' hmin fun k hk => absurd hk (hno k), hrest'⟩

end Forest

/-! ## The loops over the entries -/

/-- A `foldlM` in `Option` whose every step succeeds and keeps `P` of the
entries processed so far succeeds, keeping `P`. -/
theorem foldlM_inv {α β : Type} {f : β → α → Option β} {l : List α} (P : List α → β → Prop)
    (hstep : ∀ pre x b, x ∈ l → P pre b → ∃ b', f b x = some b' ∧ P (pre ++ [x]) b') (pre : List α) (b : β)
    (hb : P pre b) : ∃ b', l.foldlM f b = some b' ∧ P (pre ++ l) b' := by
  induction l generalizing pre b with
  | nil => exact ⟨b, rfl, by simpa using hb⟩
  | cons x l ih =>
    obtain ⟨b₁, h₁, hb₁⟩ := hstep pre x b (List.mem_cons_self _ _) hb
    obtain ⟨b', h', hb'⟩ := ih (fun pre y b hy => hstep pre y b (List.mem_cons_of_mem _ hy)) _ _ hb₁
    exact ⟨b', by simp [List.foldlM_cons, h₁, h'], by simpa using hb'⟩

/-- The groups named by `Latencies` entries, each with its entry, in the order
the loop processes them. -/
def configured (entries : List LatencyEntry) : List (Nat × LatencyEntry) :=
  entries.flatMap fun e => e.instructionGroup.map (·, e)

theorem mem_configured {entries : List LatencyEntry} {p : Nat × LatencyEntry} :
    p ∈ configured entries ↔ p.2 ∈ entries ∧ p.1 ∈ p.2.instructionGroup := by
  obtain ⟨g, e⟩ := p
  simp only [configured, List.mem_flatMap, List.mem_map, Prod.mk.injEq]
  constructor
  · rintro ⟨e', he', g', hg', rfl, rfl⟩
    exact ⟨he', hg'⟩
  · rintro ⟨he, hg⟩
    exact ⟨e, he, g, hg, rfl, rfl⟩

/-- Each group of `S` comes with one entry. -/
def Consistent (S : List (Nat × LatencyEntry)) : Prop :=
  ∀ p ∈ S, ∀ q ∈ S, p.1 = q.1 → p.2 = q.2

/-- When no group is named by two entries, a group comes with one entry. -/
theorem configured_consistent {entries : List LatencyEntry}
    (h : entries.Pairwise fun e e' => ∀ g ∈ e.instructionGroup, g ∉ e'.instructionGroup) :
    Consistent (configured entries) := by
  induction entries with
  | nil => exact fun p hp => absurd hp (List.not_mem_nil _)
  | cons e rest ih =>
    obtain ⟨he, hrest⟩ := List.pairwise_cons.1 h
    intro p hp q hq hpq
    rw [mem_configured, List.mem_cons] at hp hq
    rcases hp with ⟨hp | hp, hpg⟩ <;> rcases hq with ⟨hq | hq, hqg⟩
    · exact hp.trans hq.symm
    · rw [hp, hpq] at hpg
      exact absurd hqg (he q.2 hq q.1 hpg)
    · rw [hq, ← hpq] at hqg
      exact absurd hpg (he p.2 hp p.1 hqg)
    · exact ih hrest p (mem_configured.2 ⟨hp, hpg⟩) q (mem_configured.2 ⟨hq, hqg⟩) hpq

section Forest

variable {numGroups : Nat} (hf : Forest groupInheritance numGroups)
include hf

/-- One group of a `Latencies` entry: the walk succeeds, leaves the ports
alone and, over fewer than 255 groups with each group named once, extends
`Nearest` by the group. -/
theorem Forest.assignLatency_step {fuel : Nat} (hfuel : numGroups < fuel) {latencies pre : List LatencyEntry}
    (hpre : pre ⊆ latencies) {x : LatencyEntry} (hx : x ∈ latencies) (gpre : List Nat) {g : Nat}
    (hg : g ∈ x.instructionGroup) {s : LatencyState} (hports : ∀ q, (s.groupExecutionInfo q).ports = [])
    (hnear : numGroups < 255 → Consistent (configured latencies) →
      Nearest groupInheritance numGroups (configured pre ++ gpre.map (·, x)) s) :
    ∃ s', assignLatency groupInheritance fuel x.executionLatency x.executionThroughput s g = some s' ∧
      (∀ q, (s'.groupExecutionInfo q).ports = []) ∧
      (numGroups < 255 → Consistent (configured latencies) →
        Nearest groupInheritance numGroups (configured pre ++ (gpre ++ [g]).map (·, x)) s') := by
  obtain ⟨s', hs', -, -, -, hports'⟩ := hf.assignLatency_spec hfuel x.executionLatency x.executionThroughput s g
  refine ⟨s', hs', fun q => (hports' q).trans (hports q), fun hgroups hcons => ?_⟩
  have hsame : ∀ q ∈ configured pre ++ gpre.map (·, x), q.1 = g → q.2 = x := by
    intro q hq hqg
    rcases List.mem_append.1 hq with hq | hq
    · exact hcons q (mem_configured.2 ⟨hpre (mem_configured.1 hq).1, (mem_configured.1 hq).2⟩) (g, x)
        (mem_configured.2 ⟨hx, hg⟩) hqg
    · obtain ⟨g', -, rfl⟩ := List.mem_map.1 hq
      rfl
  simpa using hf.nearest_assign hgroups hfuel (hnear hgroups hcons) hsame hs'

/-- One entry of the `Latencies` loop, its groups one by one. -/
theorem Forest.latencyEntry_step {fuel : Nat} (hfuel : numGroups < fuel) {latencies pre : List LatencyEntry}
    (hpre : pre ⊆ latencies) {x : LatencyEntry} (hx : x ∈ latencies) {st : LatencyState × (Nat → Option ExecutionInfo)}
    (hports : ∀ q, (st.1.groupExecutionInfo q).ports = [])
    (hnear : numGroups < 255 → Consistent (configured latencies) →
      Nearest groupInheritance numGroups (configured pre) st.1) :
    ∃ st', latencyEntry groupInheritance fuel st x = some st' ∧ (∀ q, (st'.1.groupExecutionInfo q).ports = []) ∧
      (numGroups < 255 → Consistent (configured latencies) →
        Nearest groupInheritance numGroups (configured (pre ++ [x])) st'.1) := by
  obtain ⟨s, hs, hsports, hsnear⟩ := foldlM_inv (l := x.instructionGroup)
    (fun gpre (s : LatencyState) => (∀ q, (s.groupExecutionInfo q).ports = []) ∧
      (numGroups < 255 → Consistent (configured latencies) →
        Nearest groupInheritance numGroups (configured pre ++ gpre.map (·, x)) s))
    (fun gpre g s hg h => hf.assignLatency_step hfuel hpre hx gpre hg h.1 h.2) [] st.1
    ⟨hports, by simpa using hnear⟩
  refine ⟨(s, x.instructionOpcode.foldl (overrideLatency x.executionLatency x.executionThroughput) st.2),
    by simp [latencyEntry, hs], hsports, fun hgroups hcons => ?_⟩
  simpa [configured] using hsnear hgroups hcons

/-- The `Latencies` loop succeeds and leaves every group without ports; over
fewer than 255 groups, when no group is named twice, it ends in `Nearest` for
all the named groups. -/
theorem Forest.latencies_spec {fuel : Nat} (hfuel : numGroups < fuel) (latencies : List LatencyEntry) :
    ∃ st, latencies.foldlM (latencyEntry groupInheritance fuel) (initialLatencies, fun _ => none) = some st ∧
      (∀ q, (st.1.groupExecutionInfo q).ports = []) ∧
      (numGroups < 255 → Consistent (configured latencies) →
        Nearest groupInheritance numGroups (configured latencies) st.1) := by
  obtain ⟨st, hst, -, hports, hnear⟩ := foldlM_inv (l := latencies)
    (fun pre (st : LatencyState × (Nat → Option ExecutionInfo)) => pre ⊆ latencies ∧
      (∀ q, (st.1.groupExecutionInfo q).ports = []) ∧
      (numGroups < 255 → Consistent (configured latencies) →
        Nearest groupInheritance numGroups (configured pre) st.1))
    (fun pre x st hx h => (hf.latencyEntry_step hfuel h.1 hx h.2.1 h.2.2).imp fun _ h' =>
      ⟨h'.1, List.append_subset.2 ⟨h.1, List.cons_subset.2 ⟨hx, List.nil_subset _⟩⟩, h'.2⟩)
    [] (initialLatencies, fun _ => none)
    ⟨List.nil_subset _, fun _ => rfl, fun _ _ => nearest_initial numGroups⟩
  exact ⟨st, hst, hports, hnear⟩

end Forest

/-! ## The `Ports` loop -/

theorem mem_ports_addPort {port : Nat} {info : Nat → ExecutionInfo} {g c p : Nat} :
    p ∈ (addPort port info g c).ports ↔ p ∈ (info c).ports ∨ c = g ∧ p = port := by
  by_cases h : c = g
  · subst h; simp [addPort]
  · simp [addPort, Function.update_noteq h, h]

@[simp] theorem latency_addPort (port : Nat) (info : Nat → ExecutionInfo) (g c : Nat) :
    (addPort port info g c).latency = (info c).latency := by
  simp only [addPort, Function.update_apply]; split <;> simp_all

@[simp] theorem stallCycles_addPort (port : Nat) (info : Nat → ExecutionInfo) (g c : Nat) :
    (addPort port info g c).stallCycles = (info c).stallCycles := by
  simp only [addPort, Function.update_apply]; split <;> simp_all

theorem mem_ports_foldl_addPort (port : Nat) (L : List Nat) (info : Nat → ExecutionInfo) (c p : Nat) :
    p ∈ (L.foldl (addPort port) info c).ports ↔ p ∈ (info c).ports ∨ c ∈ L ∧ p = port := by
  induction L generalizing info with
  | nil => simp
  | cons g L ih => rw [List.foldl_cons, ih, mem_ports_addPort, List.mem_cons]; tauto

@[simp] theorem latency_foldl_addPort (port : Nat) (L : List Nat) (info : Nat → ExecutionInfo) (c : Nat) :
    (L.foldl (addPort port) info c).latency = (info c).latency ∧
      (L.foldl (addPort port) info c).stallCycles = (info c).stallCycles := by
  induction L generalizing info with
  | nil => exact ⟨rfl, rfl⟩
  | cons g L ih => rw [List.foldl_cons, (ih _).1, (ih _).2, latency_addPort, stallCycles_addPort]; exact ⟨rfl, rfl⟩

variable (groupInheritance) in
/-- Each group's ports are those of the pairs `(index, group)` of `T` naming
it or an ancestor, each index cast to `uint8_t`. -/
def Served (T : List (Nat × Nat)) (info : Nat → ExecutionInfo) : Prop :=
  ∀ c p, p ∈ (info c).ports ↔ ∃ q ∈ T, (∃ n, InheritedAt groupInheritance q.2 c n) ∧ p = q.1 % 256

/-- The pairs `(index, group)` of `Ports` entries, in the order the loop
processes them. -/
def served (entries : List (Nat × PortEntry)) : List (Nat × Nat) :=
  entries.flatMap fun e => e.2.instructionGroupSupport.map (e.1, ·)

section Forest

variable {numGroups : Nat} (hf : Forest groupInheritance numGroups)
include hf

theorem Forest.inherits_iff {g c : Nat} : (∃ n, InheritedAt groupInheritance g c n) ↔
    c = g ∨ c ∈ (pushes groupInheritance 1 (order groupInheritance numGroups g)).map Prod.fst := by
  rw [hf.mem_pushes_fst]
  constructor
  · rintro ⟨_ | n, h⟩
    · cases h; exact Or.inl rfl
    · exact Or.inr ⟨n, h⟩
  · rintro (rfl | ⟨n, h⟩)
    · exact ⟨0, .refl⟩
    · exact ⟨n + 1, h⟩

/-- One group named by a `Ports` entry: the port is added to it and to every
group below it, and nothing else changes. -/
theorem Forest.assignPort_spec {fuel : Nat} (hfuel : numGroups < fuel) (port : Nat) (info : Nat → ExecutionInfo)
    (g : Nat) : ∃ info', assignPort groupInheritance fuel port info g = some info' ∧
      (∀ c p, p ∈ (info' c).ports ↔ p ∈ (info c).ports ∨ (∃ n, InheritedAt groupInheritance g c n) ∧ p = port) ∧
      ∀ c, (info' c).latency = (info c).latency ∧ (info' c).stallCycles = (info c).stallCycles := by
  have hall : actAll (fun _ => addPort port) (pushes groupInheritance 1 (order groupInheritance numGroups g))
      (addPort port info g) = ((pushes groupInheritance 1 (order groupInheritance numGroups g)).map Prod.fst).foldl
        (addPort port) (addPort port info g) := by
    rw [actAll, List.foldl_map]
  refine ⟨_, hf.walk_order _ g hfuel _, fun c p => ?_, fun c => ?_⟩
  · rw [hall, mem_ports_foldl_addPort, mem_ports_addPort, hf.inherits_iff]
    tauto
  · rw [hall]
    simp

/-- One group of a `Ports` entry extends `Served` by the pair. -/
theorem Forest.assignPort_step {fuel : Nat} (hfuel : numGroups < fuel) {T : List (Nat × Nat)} (i g : Nat)
    {info : Nat → ExecutionInfo} (hT : Served groupInheritance T info) :
    ∃ info', assignPort groupInheritance fuel (i % 256) info g = some info' ∧
      Served groupInheritance (T ++ [(i, g)]) info' ∧
      ∀ c, (info' c).latency = (info c).latency ∧ (info' c).stallCycles = (info c).stallCycles := by
  obtain ⟨info', hinfo', hports, htiming⟩ := hf.assignPort_spec hfuel (i % 256) info g
  refine ⟨info', hinfo', fun c p => ?_, htiming⟩
  rw [hports, hT]
  simp only [List.mem_append, List.mem_singleton]
  constructor
  · rintro (⟨q, hq, hqc⟩ | hp)
    · exact ⟨q, Or.inl hq, hqc⟩
    · exact ⟨(i, g), Or.inr rfl, hp⟩
  · rintro ⟨q, hq | rfl, hqc⟩
    · exact Or.inl ⟨q, hq, hqc⟩
    · exact Or.inr hqc

/-- One `Ports` entry: its groups one by one. -/
theorem Forest.portEntry_step {fuel : Nat} (hfuel : numGroups < fuel) {T : List (Nat × Nat)}
    (x : Nat × PortEntry) {arch : Architecture} (hT : Served groupInheritance T arch.groupExecutionInfo) :
    ∃ arch', portEntry groupInheritance fuel arch x = some arch' ∧
      Served groupInheritance (T ++ served [x]) arch'.groupExecutionInfo ∧
      ∀ c, (arch'.groupExecutionInfo c).latency = (arch.groupExecutionInfo c).latency ∧
        (arch'.groupExecutionInfo c).stallCycles = (arch.groupExecutionInfo c).stallCycles := by
  obtain ⟨info, hinfo, hserved, htiming⟩ := foldlM_inv (l := x.2.instructionGroupSupport)
    (f := assignPort groupInheritance fuel (x.1 % 256))
    (fun gpre (info : Nat → ExecutionInfo) => Served groupInheritance (T ++ gpre.map (x.1, ·)) info ∧
      ∀ c, (info c).latency = (arch.groupExecutionInfo c).latency ∧
        (info c).stallCycles = (arch.groupExecutionInfo c).stallCycles)
    (fun gpre g info _ h => (hf.assignPort_step hfuel x.1 g h.1).imp fun _ h' =>
      ⟨h'.1, by simpa using h'.2.1, fun c => ⟨(h'.2.2 c).1.trans (h.2 c).1, (h'.2.2 c).2.trans (h.2 c).2⟩⟩)
    [] arch.groupExecutionInfo ⟨by simpa using hT, fun _ => ⟨rfl, rfl⟩⟩
  exact ⟨⟨info, x.2.instructionOpcodeSupport.foldl (supportOpcode (x.1 % 256)) arch.opcodeExecutionInfo⟩,
    by simp [portEntry, hinfo], by simpa [served] using hserved, htiming⟩

/-- The `Ports` loop, from groups without ports: it succeeds, each group ends
with the ports of the pairs naming it or an ancestor, and latencies and stall
cycles are left alone. -/
theorem Forest.ports_spec {fuel : Nat} (hfuel : numGroups < fuel) (entries : List (Nat × PortEntry))
    (arch : Architecture) (hempty : ∀ c, (arch.groupExecutionInfo c).ports = []) :
    ∃ arch', entries.foldlM (portEntry groupInheritance fuel) arch = some arch' ∧
      Served groupInheritance (served entries) arch'.groupExecutionInfo ∧
      ∀ c, (arch'.groupExecutionInfo c).latency = (arch.groupExecutionInfo c).latency ∧
        (arch'.groupExecutionInfo c).stallCycles = (arch.groupExecutionInfo c).stallCycles := by
  obtain ⟨arch', h, hserved, htiming⟩ := foldlM_inv (l := entries)
    (fun pre (arch' : Architecture) => Served groupInheritance (served pre) arch'.groupExecutionInfo ∧
      ∀ c, (arch'.groupExecutionInfo c).latency = (arch.groupExecutionInfo c).latency ∧
        (arch'.groupExecutionInfo c).stallCycles = (arch.groupExecutionInfo c).stallCycles)
    (fun pre x a _ h => (hf.portEntry_step hfuel x h.1).imp fun _ h' =>
      ⟨h'.1, by simpa [served] using h'.2.1, fun c => ⟨(h'.2.2 c).1.trans (h.2 c).1, (h'.2.2 c).2.trans (h.2 c).2⟩⟩)
    [] arch ⟨fun c p => by simp [hempty, served], fun _ => ⟨rfl, rfl⟩⟩
  exact ⟨arch', h, by simpa using hserved, htiming⟩

end Forest

/-! ## The constructor -/

theorem mem_served_enum {ports : List PortEntry} {i g : Nat} :
    (i, g) ∈ served ports.enum ↔ ∃ h : i < ports.length, g ∈ ports[i].instructionGroupSupport := by
  simp only [served, List.mem_flatMap, List.mem_map, Prod.mk.injEq]
  constructor
  · rintro ⟨⟨j, e⟩, he, g', hg', rfl, rfl⟩
    obtain ⟨hj, rfl⟩ := List.getElem?_eq_some_iff.1 (List.mk_mem_enum_iff_getElem?.1 he)
    exact ⟨hj, hg'⟩
  · rintro ⟨hi, hg⟩
    exact ⟨(i, ports[i]), List.mk_mem_enum_iff_getElem?.2 (List.getElem?_eq_getElem hi), g, hg, rfl, rfl⟩

theorem served_enum_iff {ports : List PortEntry} {c p : Nat} :
    (∃ q ∈ served ports.enum, (∃ n, InheritedAt groupInheritance q.2 c n) ∧ p = q.1 % 256) ↔
      ∃ i, ∃ h : i < ports.length, ∃ a ∈ ports[i].instructionGroupSupport,
        (∃ n, InheritedAt groupInheritance a c n) ∧ p = i % 256 := by
  constructor
  · rintro ⟨⟨i, a⟩, hq, hac, rfl⟩
    obtain ⟨hi, ha⟩ := mem_served_enum.1 hq
    exact ⟨i, hi, a, ha, hac, rfl⟩
  · rintro ⟨i, hi, a, ha, hac, rfl⟩
    exact ⟨(i, a), mem_served_enum.2 ⟨hi, ha⟩, hac, rfl⟩

section Forest

variable {numGroups : Nat} (hf : Forest groupInheritance numGroups)
include hf

/-- The constructor succeeds after the `Latencies` loop; the `Ports` loop,
run in `outoforder` mode only, keeps the latencies and stall cycles. -/
theorem Forest.create_spec {fuel : Nat} (hfuel : numGroups < fuel) (config : Config)
    {st : LatencyState × (Nat → Option ExecutionInfo)}
    (hst : config.latencies.foldlM (latencyEntry groupInheritance fuel) (initialLatencies, fun _ => none) = some st)
    (hempty : ∀ q, (st.1.groupExecutionInfo q).ports = []) :
    ∃ arch, create groupInheritance fuel config = some arch ∧
      (∀ c, (arch.groupExecutionInfo c).latency = (st.1.groupExecutionInfo c).latency ∧
        (arch.groupExecutionInfo c).stallCycles = (st.1.groupExecutionInfo c).stallCycles) ∧
      (config.simulationMode = "outoforder" →
        Served groupInheritance (served config.ports.enum) arch.groupExecutionInfo) := by
  by_cases hmode : config.simulationMode = "outoforder"
  · obtain ⟨arch, harch, hserved, htiming⟩ := hf.ports_spec hfuel config.ports.enum ⟨st.1.groupExecutionInfo, st.2⟩ hempty
    exact ⟨arch, by simp [create, hst, hmode, harch], htiming, fun _ => hserved⟩
  · exact ⟨⟨st.1.groupExecutionInfo, st.2⟩, by simp [create, hst, hmode], fun _ => ⟨rfl, rfl⟩, fun h => absurd h hmode⟩

/-- In `outoforder` mode, for any number of `Ports` entries, each group's
ports are the indices, cast to `uint8_t`, of the entries naming it or an
ancestor. -/
theorem Forest.ports_of_create {fuel : Nat} (hfuel : numGroups < fuel) (config : Config)
    (hmode : config.simulationMode = "outoforder") :
    ∃ arch, create groupInheritance fuel config = some arch ∧ ∀ c p, p ∈ (arch.groupExecutionInfo c).ports ↔
      ∃ i, ∃ h : i < config.ports.length, ∃ a ∈ config.ports[i].instructionGroupSupport,
        (∃ n, InheritedAt groupInheritance a c n) ∧ p = i % 256 := by
  obtain ⟨st, hst, hempty, -⟩ := hf.latencies_spec hfuel config.latencies
  obtain ⟨arch, harch, -, hserved⟩ := hf.create_spec hfuel config hst hempty
  exact ⟨arch, harch, fun c p => (hserved hmode c p).trans served_enum_iff⟩

/-- After the constructor, over an inheritance forest of fewer than 255 groups
in which no group is named by two `Latencies` entries: a group with no named
ancestor-or-self holds `{1, 1}`; a group holds the latency and throughput of
the entry naming its nearest named ancestor-or-self; and in `outoforder` mode
with at most 256 `Ports` entries, a group is served by port `p` iff
`Ports[p]` names the group or an ancestor. -/
theorem executionInfo_nearest_ancestor (hgroups : numGroups < 255) (config : Config)
    (hentries : config.latencies.Pairwise fun e e' => ∀ g ∈ e.instructionGroup, g ∉ e'.instructionGroup)
    {fuel : Nat} (hfuel : numGroups < fuel) :
    ∃ arch, create groupInheritance fuel config = some arch ∧
      (∀ c, (∀ e ∈ config.latencies, ∀ a ∈ e.instructionGroup, ∀ n, ¬ InheritedAt groupInheritance a c n) →
        (arch.groupExecutionInfo c).latency = 1 ∧ (arch.groupExecutionInfo c).stallCycles = 1) ∧
      (∀ c, ∀ e ∈ config.latencies, ∀ a ∈ e.instructionGroup, ∀ n, InheritedAt groupInheritance a c n →
        (∀ e' ∈ config.latencies, ∀ a' ∈ e'.instructionGroup, ∀ n', InheritedAt groupInheritance a' c n' → n ≤ n') →
        (arch.groupExecutionInfo c).latency = e.executionLatency ∧
          (arch.groupExecutionInfo c).stallCycles = e.executionThroughput) ∧
      (config.simulationMode = "outoforder" → config.ports.length ≤ 256 → ∀ c p,
        p ∈ (arch.groupExecutionInfo c).ports ↔ ∃ h : p < config.ports.length,
          ∃ a ∈ config.ports[p].instructionGroupSupport, ∃ n, InheritedAt groupInheritance a c n) := by
  obtain ⟨st, hst, hempty, hnear⟩ := hf.latencies_spec hfuel config.latencies
  have hN := hnear hgroups (configured_consistent hentries)
  obtain ⟨arch, harch, htiming, hserved⟩ := hf.create_spec hfuel config hst hempty
  refine ⟨arch, harch, fun c hc => ?_, fun c e he a ha n hn hmin => ?_, fun hmode hlen c p => ?_⟩
  · -- no named ancestor-or-self: the initial values
    rcases hN c with ⟨-, hget⟩ | ⟨q, hq, m, hm, -⟩
    · simp only [LatencyState.get, Prod.mk.injEq] at hget
      rw [(htiming c).1, (htiming c).2, hget.1, hget.2.1]
      exact ⟨rfl, rfl⟩
    · exact absurd hm (hc q.2 (mem_configured.1 hq).1 q.1 (mem_configured.1 hq).2 m)
  · -- the nearest named ancestor-or-self is `a`, named by `e` alone
    have hae : (a, e) ∈ configured config.latencies := mem_configured.2 ⟨he, ha⟩
    rcases hN c with ⟨hnone, -⟩ | ⟨q, hq, m, hm, hqmin, d, hget, -⟩
    · exact absurd hn (hnone (a, e) hae n)
    · have hmn : m = n :=
        le_antisymm (hqmin (a, e) hae n hn) (hmin q.2 (mem_configured.1 hq).1 q.1 (mem_configured.1 hq).2 m hm)
      subst hmn
      have hqe : q.2 = e := configured_consistent hentries q hq (a, e) hae (hf.eq_of_inheritedAt hm hn)
      simp only [LatencyState.get, Prod.mk.injEq] at hget
      rw [(htiming c).1, (htiming c).2, hget.1, hget.2.1, hqe]
      exact ⟨rfl, rfl⟩
  · -- every index is below 256, so the cast keeps it
    rw [hserved hmode c p, served_enum_iff]
    constructor
    · rintro ⟨i, hi, a, ha, hac, rfl⟩
      have hmod : i % 256 = i := Nat.mod_eq_of_lt (by omega)
      rw [hmod]
      exact ⟨hi, a, ha, hac⟩
    · rintro ⟨hp, a, ha, hac⟩
      exact ⟨p, hp, a, ha, hac, (Nat.mod_eq_of_lt (by omega)).symm⟩

end Forest

/-- Groups 1 and 2 inherit from group 0, and group 3 from group 1. -/
def twoLevels : Nat → List Nat
  | 0 => [1, 2]
  | 1 => [3]
  | _ => []

theorem twoLevels_forest : Forest twoLevels 4 :=
  Forest.of_lt twoLevels
    (fun g c hc => by rcases g with _ | _ | g <;> simp [twoLevels] at hc <;> omega)
    (fun g => by rcases g with _ | _ | g <;> simp [twoLevels])
    (fun g g' c hc hc' => by
      rcases g with _ | _ | g <;> rcases g' with _ | _ | g' <;> simp [twoLevels] at hc hc' <;> omega)

/-- The entry of group 1 comes before that of its parent, group 0; group 0
and group 3 each have a port. -/
def nearerFirst : Config where
  latencies := [{ executionLatency := 7, executionThroughput := 3, instructionGroup := [1] },
    { executionLatency := 4, executionThroughput := 2, instructionGroup := [0] }]
  simulationMode := "outoforder"
  ports := [{ instructionGroupSupport := [0] }, { instructionGroupSupport := [3] }]

/-- Group 3 follows group 1, its nearer named ancestor, although group 0's
entry is processed later, and is served by the port of group 0. -/
theorem nearerFirst_group3 : Forest twoLevels 4 ∧ ∃ arch, create twoLevels 5 nearerFirst = some arch ∧
    (arch.groupExecutionInfo 3).latency = 7 ∧ (arch.groupExecutionInfo 3).stallCycles = 3 ∧
    0 ∈ (arch.groupExecutionInfo 3).ports := by
  obtain ⟨arch, harch, -, hnear, hports⟩ :=
    executionInfo_nearest_ancestor twoLevels_forest (by decide) nearerFirst (by decide) (by decide : 4 < 5)
  have h01 : InheritedAt twoLevels 0 1 1 := .tail .refl (by decide)
  have h13 : InheritedAt twoLevels 1 3 1 := .tail .refl (by decide)
  have hmin : ∀ e' ∈ nearerFirst.latencies, ∀ a' ∈ e'.instructionGroup, ∀ n',
      InheritedAt twoLevels a' 3 n' → 1 ≤ n' := by
    intro e' he' a' ha' n' h
    cases h with
    | refl =>
      simp only [nearerFirst, List.mem_cons, List.mem_singleton, List.not_mem_nil, or_false] at he'
      rcases he' with rfl | rfl <;> simp at ha'
    | tail => omega
  obtain ⟨h7, h3⟩ := hnear 3 _ (List.mem_cons_self _ _) 1 (by decide) 1 h13 hmin
  exact ⟨twoLevels_forest, arch, harch, h7, h3,
    (hports rfl (by decide) 3 0).2 ⟨by decide, 0, by decide, 2, .tail h01 (by decide)⟩⟩

example : (create twoLevels 5 nearerFirst).map (·.groupExecutionInfo 3) = some ⟨7, 3, [0, 1]⟩ := by decide

/-! ## More than 256 ports -/

/-- 257 `Ports` entries, of which only the last names a group. -/
def portsPastUint8 : Config where
  latencies := []
  simulationMode := "outoforder"
  ports := List.replicate 256 { instructionGroupSupport := [] } ++ [{ instructionGroupSupport := [0] }]

/-- With 257 ports, the index 256 of the entry naming group 0 is cast to port
0: group 0 is served by port 0, whose entry names no group, and not by port
256. -/
theorem portIndex_wraps : ∃ arch, create (fun _ => []) 2 portsPastUint8 = some arch ∧
    portsPastUint8.ports[0]? = some { instructionGroupSupport := [] } ∧ 0 ∈ (arch.groupExecutionInfo 0).ports ∧
    portsPastUint8.ports[256]? = some { instructionGroupSupport := [0] } ∧
    256 ∉ (arch.groupExecutionInfo 0).ports := by
  have hf : Forest (fun _ => []) 1 := Forest.of_lt _ (fun _ c hc => absurd hc (List.not_mem_nil c))
    (fun _ => List.nodup_nil) (fun _ _ c hc => absurd hc (List.not_mem_nil c))
  obtain ⟨arch, harch, hports⟩ := hf.ports_of_create (by decide : 1 < 2) portsPastUint8 rfl
  have h0 : portsPastUint8.ports[0]? = some { instructionGroupSupport := [] } := by
    rw [portsPastUint8, List.getElem?_append_left (by rw [List.length_replicate]; omega), List.getElem?_replicate]
    rfl
  have h256 : portsPastUint8.ports[256]? = some { instructionGroupSupport := [0] } := by
    rw [portsPastUint8, List.getElem?_append_right (by rw [List.length_replicate]), List.length_replicate]
    rfl
  obtain ⟨hlt, hget⟩ := List.getElem?_eq_some_iff.1 h256
  refine ⟨arch, harch, h0, (hports 0 0).2 ⟨256, hlt, 0, by rw [hget]; exact List.mem_singleton_self 0, ⟨0, .refl⟩, rfl⟩,
    h256, fun h => ?_⟩
  obtain ⟨i, -, -, -, -, h256⟩ := (hports 0 256).1 h
  omega

end SimEng.Arch.Riscv
