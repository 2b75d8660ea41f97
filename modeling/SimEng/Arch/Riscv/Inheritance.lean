import Mathlib.Data.List.Nodup
import Mathlib.Data.List.Perm.Subperm
import SimEng.Arch.Riscv.Architecture

/-!
# SimEng — the inheritance walk of the RISC-V constructor

Over an inheritance map that is a forest, the constructor's walk from a group
`a` pops the groups below `a` level by level: `a`, then the groups inheriting
from it, then theirs. It acts on every group strictly below `a` exactly once,
at the distance `1 + i`, where `i` is the position of the group's parent among
the pops (`pushes`).

Main results:

* `Forest.walk_order` — with enough fuel the walk ends, and its effect is that of the
  actions of `pushes 1 (order a)`, one per group strictly below `a`;
* `Forest.pushes_lt` — from a group below `a`, every group further below is
  reached at a smaller distance than from `a`. This is why, whatever the order
  of the `Latencies` entries, the nearest configured ancestor wins: the
  distance counts pops, not levels, but the pops from the nearer group come in
  the same order as from the farther one, without the farther group and what
  it pops first.
-/

namespace SimEng.Arch.Riscv

variable (groupInheritance : Nat → List Nat)

/-- `c` inherits from `a` through `n` inheritance edges. -/
inductive InheritedAt (a : Nat) : Nat → Nat → Prop
  | refl : InheritedAt a a 0
  | tail {b c n : Nat} : InheritedAt a b n → c ∈ groupInheritance b → InheritedAt a c (n + 1)

/-- The inheritance map is a forest over the groups below `numGroups`: the
groups inheriting from a group are groups, listed once each; no group inherits
from two groups, and none from itself. -/
structure Forest (numGroups : Nat) : Prop where
  child_lt : ∀ g, ∀ c ∈ groupInheritance g, c < numGroups
  nodup : ∀ g, (groupInheritance g).Nodup
  parent_unique : ∀ g g' c, c ∈ groupInheritance g → c ∈ groupInheritance g' → g = g'
  acyclic : ∀ g n, ¬ InheritedAt groupInheritance g g (n + 1)

theorem InheritedAt.add_le_of_lt {groupInheritance} (hlt : ∀ g, ∀ c ∈ groupInheritance g, g < c) {a c n : Nat}
    (h : InheritedAt groupInheritance a c n) : a + n ≤ c := by
  induction h with
  | refl => exact Nat.le_refl _
  | tail _ hc ih => have := hlt _ _ hc; omega

/-- A map whose groups inherit from smaller groups only, each from one, is a
forest. -/
theorem Forest.of_lt {numGroups : Nat} (hlt : ∀ g, ∀ c ∈ groupInheritance g, g < c ∧ c < numGroups)
    (hnodup : ∀ g, (groupInheritance g).Nodup)
    (hparent : ∀ g g' c, c ∈ groupInheritance g → c ∈ groupInheritance g' → g = g') :
    Forest groupInheritance numGroups where
  child_lt g c hc := (hlt g c hc).2
  nodup := hnodup
  parent_unique := hparent
  acyclic g n h := by
    have := h.add_le_of_lt fun g c hc => (hlt g c hc).1
    omega

/-- The groups `n` inheritance edges below `a`, in the order the walk pops
them. -/
def level (a : Nat) : Nat → List Nat
  | 0 => [a]
  | n + 1 => (level a n).flatMap groupInheritance

/-- The first `n` levels below `a`. -/
def levels (a n : Nat) : List Nat := (List.range n).flatMap (level groupInheritance a)

/-- The groups the walk acts on while it pops `pops`, each with the distance
of its round. -/
def pushes : Nat → List Nat → List (Nat × Nat)
  | _, [] => []
  | d, x :: xs => (groupInheritance x).map (·, d) ++ pushes ((d + 1) % 256) xs

/-- The effect of acting on the groups of `ps` in turn. -/
def actAll {σ : Type} (act : Nat → σ → Nat → σ) (ps : List (Nat × Nat)) (st : σ) : σ :=
  ps.foldl (fun st p => act p.2 st p.1) st

/-- The groups the walk from `a` pops, over a forest of `numGroups` groups:
its first `numGroups + 1` levels, past which none is inhabited. -/
def order (numGroups a : Nat) : List Nat := levels groupInheritance a (numGroups + 1)

/-! ## Paths and levels -/

section Lists

variable {α β : Type}

theorem flatMap_sublist_of_sublist {l₁ l₂ : List α} (h : l₁.Sublist l₂) (f : α → List β) :
    (l₁.flatMap f).Sublist (l₂.flatMap f) := by
  induction h with
  | slnil => exact .slnil
  | cons a _ ih => exact ih.trans (List.sublist_append_right _ _)
  | cons₂ a _ ih => exact ih.append_left _

theorem flatMap_sublist_flatMap {L : List α} {f g : α → List β} (h : ∀ x ∈ L, (f x).Sublist (g x)) :
    (L.flatMap f).Sublist (L.flatMap g) := by
  induction L with
  | nil => exact .slnil
  | cons x L ih =>
    exact (h x (List.mem_cons_self _ _)).append (ih fun y hy => h y (List.mem_cons_of_mem _ hy))

/-- An element is no later in a sublist of a list without repeats. -/
theorem indexOf_le_of_sublist [DecidableEq α] {l₁ l₂ : List α} (h : l₁.Sublist l₂) (hnd : l₂.Nodup) {x : α}
    (hx : x ∈ l₁) : l₁.indexOf x ≤ l₂.indexOf x := by
  induction h with
  | slnil => exact absurd hx (List.not_mem_nil _)
  | @cons l₁ l₂ a h ih =>
    have hxa : x ≠ a := fun hxa => (List.nodup_cons.1 hnd).1 (hxa ▸ h.subset hx)
    rw [List.indexOf_cons_ne _ (Ne.symm hxa)]
    exact (ih (List.nodup_cons.1 hnd).2 hx).trans (Nat.le_succ _)
  | @cons₂ l₁ l₂ a h ih =>
    by_cases hxa : x = a
    · subst hxa; rw [List.indexOf_cons_self, List.indexOf_cons_self]
    · rw [List.indexOf_cons_ne _ (Ne.symm hxa), List.indexOf_cons_ne _ (Ne.symm hxa)]
      exact Nat.succ_le_succ (ih (List.nodup_cons.1 hnd).2 ((List.mem_cons.1 hx).resolve_left hxa))

end Lists

section Paths

variable {groupInheritance}

theorem mem_level {a c n : Nat} : c ∈ level groupInheritance a n ↔ InheritedAt groupInheritance a c n := by
  induction n generalizing c with
  | zero =>
    simp only [level, List.mem_singleton]
    exact ⟨fun h => h ▸ .refl, fun h => by cases h; rfl⟩
  | succ n ih =>
    simp only [level, List.mem_flatMap, ih]
    exact ⟨fun ⟨b, hb, hc⟩ => .tail hb hc, fun h => by cases h with | tail hb hc => exact ⟨_, hb, hc⟩⟩

theorem InheritedAt.truncate {a c n : Nat} (h : InheritedAt groupInheritance a c n) :
    ∀ k ≤ n, ∃ b, InheritedAt groupInheritance a b k := by
  induction h with
  | refl => exact fun k hk => ⟨a, Nat.le_zero.1 hk ▸ .refl⟩
  | @tail b c n hb hc ih =>
    intro k hk
    rcases Nat.lt_or_eq_of_le hk with hk | rfl
    · exact ih k (by omega)
    · exact ⟨c, .tail hb hc⟩

theorem levels_succ (a n : Nat) :
    levels groupInheritance a (n + 1) = levels groupInheritance a n ++ level groupInheritance a n := by
  simp [levels, List.range_succ]

theorem levels_add (a m n : Nat) : levels groupInheritance a (m + n) =
    levels groupInheritance a m ++ (List.range n).flatMap fun j => level groupInheritance a (m + j) := by
  simp [levels, List.range_add, List.flatMap_append, List.flatMap_map]

theorem InheritedAt.trans {g a c k j : Nat} (hk : InheritedAt groupInheritance g a k)
    (hj : InheritedAt groupInheritance a c j) : InheritedAt groupInheritance g c (k + j) := by
  induction hj with
  | refl => exact hk
  | tail _ hc ih => exact .tail ih hc

theorem mem_levels {a c N : Nat} : c ∈ levels groupInheritance a N ↔ ∃ n < N, InheritedAt groupInheritance a c n := by
  simp [levels, mem_level]

/-- The levels below a group lie, in order, in the levels below its
ancestors. -/
theorem level_sublist {g a k : Nat} (hk : InheritedAt groupInheritance g a k) (j : Nat) :
    (level groupInheritance a j).Sublist (level groupInheritance g (k + j)) := by
  induction j with
  | zero => exact List.singleton_sublist.2 (mem_level.2 hk)
  | succ j ih => exact flatMap_sublist_of_sublist ih groupInheritance

end Paths

/-! ## The walk, round by round -/

section Walk

variable {σ : Type} (act : Nat → σ → Nat → σ)

theorem actAll_append (ps qs : List (Nat × Nat)) (st : σ) :
    actAll act (ps ++ qs) st = actAll act qs (actAll act ps st) :=
  List.foldl_append _ _ _ _

theorem pushes_append {d : Nat} (hd : d < 256) (X X' : List Nat) :
    pushes groupInheritance d (X ++ X') =
      pushes groupInheritance d X ++ pushes groupInheritance ((d + X.length) % 256) X' := by
  induction X generalizing d with
  | nil => simp [pushes, Nat.mod_eq_of_lt hd]
  | cons x X ih =>
    have hd' : ((d + 1) % 256 + X.length) % 256 = (d + (X.length + 1)) % 256 := by omega
    rw [List.cons_append, pushes, pushes, ih (Nat.mod_lt _ (by decide)), List.append_assoc, List.length_cons, hd']

theorem map_fst_pushes (d : Nat) (X : List Nat) :
    (pushes groupInheritance d X).map Prod.fst = X.flatMap groupInheritance := by
  induction X generalizing d with
  | nil => rfl
  | cons x X ih => simp [pushes, ih, List.map_map, Function.comp_def]

/-- Over pops without repeats, each group acted on is acted on at the
distance of the round its parent was popped in. -/
theorem mem_pushes {d : Nat} (hd : d < 256) {X : List Nat} (hX : X.Nodup) {c e : Nat}
    (h : (c, e) ∈ pushes groupInheritance d X) :
    ∃ x ∈ X, c ∈ groupInheritance x ∧ e = (d + X.indexOf x) % 256 := by
  induction X generalizing d with
  | nil => cases h
  | cons x X ih =>
    rcases List.mem_append.1 h with h | h
    · obtain ⟨c', hc', he⟩ := List.mem_map.1 h
      cases he
      exact ⟨x, List.mem_cons_self _ _, hc', by rw [List.indexOf_cons_self, Nat.add_zero, Nat.mod_eq_of_lt hd]⟩
    · obtain ⟨y, hy, hc, he⟩ := ih (Nat.mod_lt _ (by decide)) (List.nodup_cons.1 hX).2 h
      have hyx : x ≠ y := fun h' => (List.nodup_cons.1 hX).1 (h' ▸ hy)
      refine ⟨y, List.mem_cons_of_mem _ hy, hc, ?_⟩
      rw [he, List.indexOf_cons_ne _ hyx]
      omega

/-- Popping the groups `X` from the front of the queue acts on the groups
inheriting from them and queues those. -/
theorem walk_append {d : Nat} (hd : d < 256) (X Y : List Nat) (f : Nat) (st : σ) :
    walk groupInheritance act (X.length + f) (X ++ Y) d st =
      walk groupInheritance act f (Y ++ X.flatMap groupInheritance) ((d + X.length) % 256)
        (actAll act (pushes groupInheritance d X) st) := by
  induction X generalizing Y d st with
  | nil => simp [actAll, pushes, Nat.mod_eq_of_lt hd]
  | cons x X ih =>
    have hd' : ((d + 1) % 256 + X.length) % 256 = (d + (X.length + 1)) % 256 := by omega
    rw [List.length_cons, Nat.add_right_comm, List.cons_append, walk, List.append_assoc,
      ih (Nat.mod_lt _ (by decide)), pushes, actAll_append, List.flatMap_cons, List.append_assoc, hd']
    simp [actAll, List.foldl_map]

/-- The walk from `a` pops its levels one after the other. -/
theorem walk_levels (a n f : Nat) (st : σ) :
    walk groupInheritance act ((levels groupInheritance a n).length + f) [a] 1 st =
      walk groupInheritance act f (level groupInheritance a n) ((1 + (levels groupInheritance a n).length) % 256)
        (actAll act (pushes groupInheritance 1 (levels groupInheritance a n)) st) := by
  induction n generalizing f with
  | zero => simp only [levels, List.range_zero, List.flatMap_nil, List.length_nil, Nat.zero_add]; rfl
  | succ n ih =>
    have h := walk_append groupInheritance act (Nat.mod_lt (1 + (levels groupInheritance a n).length) (by decide))
      (level groupInheritance a n) [] f (actAll act (pushes groupInheritance 1 (levels groupInheritance a n)) st)
    have hd : ((1 + (levels groupInheritance a n).length) % 256 + (level groupInheritance a n).length) % 256 =
        (1 + ((levels groupInheritance a n).length + (level groupInheritance a n).length)) % 256 := by omega
    rw [List.append_nil, List.nil_append, hd] at h
    rw [levels_succ, List.length_append, Nat.add_assoc, ih, h, pushes_append _ (by decide), actAll_append]
    rfl

end Walk

/-! ## Paths in a forest -/

section Forest

variable {groupInheritance} {numGroups : Nat} (hf : Forest groupInheritance numGroups)
include hf

/-- In a forest, the ancestors of a group form a chain: of two paths to `c`,
the longer one passes through the start of the shorter. -/
theorem Forest.ancestor {a b c n m : Nat} (ha : InheritedAt groupInheritance a c n)
    (hb : InheritedAt groupInheritance b c m) (hnm : n ≤ m) : InheritedAt groupInheritance b a (m - n) := by
  induction ha generalizing m with
  | refl => simpa using hb
  | @tail p c n _ hc ih =>
    cases hb with
    | refl => omega
    | @tail p' _ m hp' hc' =>
      obtain rfl := hf.parent_unique _ _ _ hc hc'
      simpa using ih hp' (by omega)

theorem Forest.eq_of_inheritedAt {a b c n : Nat} (ha : InheritedAt groupInheritance a c n)
    (hb : InheritedAt groupInheritance b c n) : a = b := by
  have := hf.ancestor ha hb le_rfl
  rw [Nat.sub_self] at this
  cases this; rfl

/-- In a forest, a group is at one distance below another. -/
theorem Forest.distance_unique {a c n m : Nat} (hn : InheritedAt groupInheritance a c n)
    (hm : InheritedAt groupInheritance a c m) : n = m := by
  rcases Nat.lt_trichotomy n m with h | h | h
  · have := hf.ancestor hn hm h.le
    obtain ⟨k, hk⟩ : ∃ k, m - n = k + 1 := ⟨m - n - 1, by omega⟩
    exact absurd (hk ▸ this) (hf.acyclic a k)
  · exact h
  · have := hf.ancestor hm hn h.le
    obtain ⟨k, hk⟩ : ∃ k, n - m = k + 1 := ⟨n - m - 1, by omega⟩
    exact absurd (hk ▸ this) (hf.acyclic a k)

theorem Forest.level_nodup (a n : Nat) : (level groupInheritance a n).Nodup := by
  induction n with
  | zero => exact List.nodup_singleton a
  | succ n ih =>
    refine List.nodup_flatMap.2 ⟨fun x _ => hf.nodup x, ih.pairwise_of_forall_ne fun x _ y _ hxy => ?_⟩
    exact fun c hx hy => hxy (hf.parent_unique _ _ c hx hy)

theorem Forest.levels_nodup (a N : Nat) : (levels groupInheritance a N).Nodup := by
  refine List.nodup_flatMap.2 ⟨fun n _ => hf.level_nodup a n,
    (List.nodup_range N).pairwise_of_forall_ne fun n _ m _ hnm => ?_⟩
  exact fun c hn hm => hnm (hf.distance_unique (mem_level.1 hn) (mem_level.1 hm))

/-- The walk pops at most `numGroups + 1` groups: the start and groups below
`numGroups`, each once. -/
theorem Forest.length_levels_le (a N : Nat) : (levels groupInheritance a N).length ≤ numGroups + 1 := by
  cases N with
  | zero => simp [levels]
  | succ N =>
    rw [Nat.add_comm, levels_add]
    have hnd := hf.levels_nodup a (1 + N)
    rw [levels_add] at hnd
    have hsub : ((List.range N).flatMap fun j => level groupInheritance a (1 + j)) ⊆ List.range numGroups := by
      intro c hc
      obtain ⟨j, -, hc⟩ := List.mem_flatMap.1 hc
      rw [Nat.add_comm, level, List.mem_flatMap] at hc
      obtain ⟨x, -, hx⟩ := hc
      exact List.mem_range.2 (hf.child_lt x c hx)
    have := ((List.nodup_append.1 hnd).2.1.subperm hsub).length_le
    have h1 : levels groupInheritance a 1 = [a] := rfl
    simp only [h1, List.length_append, List.length_singleton, List.length_range] at this ⊢
    omega

/-- Every level at or below `numGroups + 1` is empty. -/
theorem Forest.level_eq_nil (a : Nat) {n : Nat} (hn : numGroups + 1 ≤ n) : level groupInheritance a n = [] := by
  refine List.eq_nil_iff_forall_not_mem.2 fun c hc => ?_
  -- every level down to `n` is inhabited, so the first `n + 1` levels hold too many groups
  have hall : ∀ k ≤ n + 1, k ≤ (levels groupInheritance a k).length := by
    intro k hk
    induction k with
    | zero => exact Nat.zero_le _
    | succ k ih =>
      obtain ⟨b, hb⟩ := (mem_level.1 hc).truncate k (by omega)
      rw [levels_succ, List.length_append]
      have := List.length_pos_of_mem (mem_level.2 hb)
      have := ih (by omega)
      omega
  have := hall (numGroups + 2) (by omega)
  have := hf.length_levels_le a (numGroups + 2)
  omega

theorem Forest.mem_order {a c : Nat} : c ∈ order groupInheritance numGroups a ↔
    ∃ n, InheritedAt groupInheritance a c n := by
  refine mem_levels.trans ⟨fun ⟨n, _, h⟩ => ⟨n, h⟩, fun ⟨n, h⟩ => ⟨n, ?_, h⟩⟩
  by_contra hn
  have hc := mem_level.2 h
  rw [hf.level_eq_nil a (by omega)] at hc
  exact List.not_mem_nil c hc

theorem Forest.order_nodup (a : Nat) : (order groupInheritance numGroups a).Nodup := hf.levels_nodup a _

theorem Forest.length_order_le (a : Nat) : (order groupInheritance numGroups a).length ≤ numGroups + 1 :=
  hf.length_levels_le a _

/-- With enough fuel the walk from `a` ends, having acted on the groups
`pushes 1 (order a)` in turn. -/
theorem Forest.walk_order {σ : Type} (act : Nat → σ → Nat → σ) (a : Nat) {fuel : Nat}
    (hfuel : numGroups < fuel) (st : σ) :
    walk groupInheritance act fuel [a] 1 st =
      some (actAll act (pushes groupInheritance 1 (order groupInheritance numGroups a)) st) := by
  have hle := hf.length_levels_le a (numGroups + 1)
  obtain ⟨f, rfl⟩ : ∃ f, fuel = (levels groupInheritance a (numGroups + 1)).length + f :=
    ⟨fuel - (levels groupInheritance a (numGroups + 1)).length, by omega⟩
  rw [walk_levels, hf.level_eq_nil a le_rfl, walk]
  rfl

/-- The groups the walk from `a` acts on are those strictly below `a`, each
once. -/
theorem Forest.mem_pushes_fst {a c : Nat} :
    c ∈ (pushes groupInheritance 1 (order groupInheritance numGroups a)).map Prod.fst ↔
      ∃ n, InheritedAt groupInheritance a c (n + 1) := by
  rw [map_fst_pushes, List.mem_flatMap]
  constructor
  · rintro ⟨x, hx, hc⟩
    obtain ⟨n, hn⟩ := hf.mem_order.1 hx
    exact ⟨n, .tail hn hc⟩
  · rintro ⟨n, hn⟩
    cases hn with
    | tail hb hc => exact ⟨_, hf.mem_order.2 ⟨n, hb⟩, hc⟩

theorem Forest.pushes_nodup (a : Nat) :
    ((pushes groupInheritance 1 (order groupInheritance numGroups a)).map Prod.fst).Nodup := by
  rw [map_fst_pushes]
  refine List.nodup_flatMap.2 ⟨fun x _ => hf.nodup x, (hf.order_nodup a).pairwise_of_forall_ne ?_⟩
  exact fun x _ y _ hxy c hx hy => hxy (hf.parent_unique _ _ c hx hy)

/-- The walk from a group below `g` pops each of its groups strictly earlier
than the walk from `g`: the pops from `a` come, in the same order, among the
pops from `g`, after `g` itself. -/
theorem Forest.indexOf_lt {g a x k : Nat} (hk : InheritedAt groupInheritance g a (k + 1))
    (hx : x ∈ order groupInheritance numGroups a) :
    (order groupInheritance numGroups a).indexOf x < (order groupInheritance numGroups g).indexOf x := by
  obtain ⟨j, hj⟩ := hf.mem_order.1 hx
  have hxg := hk.trans hj
  have hle : k + 1 + j ≤ numGroups := by
    by_contra h
    have hc := mem_level.2 hxg
    rw [hf.level_eq_nil g (by omega)] at hc
    exact List.not_mem_nil x hc
  obtain ⟨M, hM⟩ : ∃ M, numGroups + 1 = k + 1 + M := ⟨numGroups - k, by omega⟩
  have hg : order groupInheritance numGroups g =
      levels groupInheritance g (k + 1) ++ (List.range M).flatMap fun i => level groupInheritance g (k + 1 + i) := by
    rw [order, hM, levels_add]
  have ha : order groupInheritance numGroups a = levels groupInheritance a M ++
      (List.range (numGroups + 1 - M)).flatMap fun i => level groupInheritance a (M + i) := by
    rw [order, ← levels_add, Nat.add_sub_cancel' (by omega)]
  have hxa : x ∈ levels groupInheritance a M := mem_levels.2 ⟨j, by omega, hj⟩
  have hxg' : x ∉ levels groupInheritance g (k + 1) := fun h => by
    obtain ⟨n, hn, h⟩ := mem_levels.1 h
    have := hf.distance_unique h hxg
    omega
  have hnd := hf.levels_nodup g (numGroups + 1)
  rw [← order, hg] at hnd
  have hpos : 0 < (levels groupInheritance g (k + 1)).length :=
    List.length_pos_of_mem (mem_levels.2 ⟨0, by omega, .refl⟩)
  have hsub : (levels groupInheritance a M).Sublist
      ((List.range M).flatMap fun i => level groupInheritance g (k + 1 + i)) :=
    flatMap_sublist_flatMap fun i _ => level_sublist hk i
  have hle' := indexOf_le_of_sublist hsub (List.nodup_append.1 hnd).2.1 hxa
  rw [ha, List.indexOf_append_of_mem hxa, hg, List.indexOf_append_of_not_mem hxg']
  omega

/-- A group nearer to `c` reaches it at a smaller distance. -/
theorem Forest.pushes_lt {g a c e e' k : Nat} (hgroups : numGroups < 255) (hk : InheritedAt groupInheritance g a (k + 1))
    (he : (c, e) ∈ pushes groupInheritance 1 (order groupInheritance numGroups a))
    (he' : (c, e') ∈ pushes groupInheritance 1 (order groupInheritance numGroups g)) : e < e' := by
  obtain ⟨x, hx, hc, rfl⟩ := mem_pushes groupInheritance (by decide) (hf.order_nodup a) he
  obtain ⟨x', hx', hc', rfl⟩ := mem_pushes groupInheritance (by decide) (hf.order_nodup g) he'
  obtain rfl := hf.parent_unique _ _ _ hc hc'
  have h₁ := hf.indexOf_lt hk hx
  have h₂ := List.indexOf_lt_length.2 hx'
  have h₃ := hf.length_order_le g
  omega

/-- Every distance of the walk is at most the number of groups: the parent
and its child are both among the pops. -/
theorem Forest.pushes_le {g c e : Nat} (he : (c, e) ∈ pushes groupInheritance 1 (order groupInheritance numGroups g)) :
    e ≤ numGroups := by
  obtain ⟨x, hx, hc, rfl⟩ := mem_pushes groupInheritance (by decide) (hf.order_nodup g) he
  obtain ⟨j, hj⟩ := hf.mem_order.1 hx
  have hcj : c ∈ level groupInheritance g (j + 1) := mem_level.2 (.tail hj hc)
  have hle : j + 1 ≤ numGroups := by
    by_contra h
    rw [hf.level_eq_nil g (by omega)] at hcj
    exact List.not_mem_nil c hcj
  have hsplit : order groupInheritance numGroups g = levels groupInheritance g (j + 1) ++
      (List.range (numGroups - j)).flatMap fun i => level groupInheritance g (j + 1 + i) := by
    rw [order, ← levels_add, show j + 1 + (numGroups - j) = numGroups + 1 by omega]
  have hxl : x ∈ levels groupInheritance g (j + 1) := mem_levels.2 ⟨j, by omega, hj⟩
  have hi := List.indexOf_lt_length.2 hxl
  have h₂ := hf.length_levels_le g (j + 1 + 1)
  rw [levels_succ, List.length_append] at h₂
  have hpos := List.length_pos_of_mem hcj
  rw [hsplit, List.indexOf_append_of_mem hxl]
  omega

end Forest

end SimEng.Arch.Riscv
