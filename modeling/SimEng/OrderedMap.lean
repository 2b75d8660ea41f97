import Mathlib.Data.List.Basic
import Mathlib.Algebra.Order.Ring.Nat
import Mathlib.Algebra.Group.Int

/-!
# SimEng — ordered maps

The load/store queue and the memory management unit keep their bookkeeping in
`std::map`s keyed by a sequence id or a due cycle, and iterate them in key
order. A map is modelled by its entries in increasing key order, and the
structure carries that order: `begin()` is the entry with the least key. The
operations are the ones the source uses (`m[k].push_back(x)`, `emplace`,
`find`, `erase`), each proved once to keep the keys sorted.

Main results:

* `keys_pushBack` / `keys_emplace` — inserting at a key adds that key to the
  key set with `insertKey`, and `insertKey` keeps keys sorted;
* `find?_pushBack` / `find?_emplace` / `find?_erase` — what a lookup sees after
  each update (the first two use the key order).
-/

namespace SimEng

/-- A `std::map<uint64_t, V>`, as its entries in increasing key order. -/
structure OrderedMap (V : Type) where
  entries : List (Nat × V)
  sorted : (entries.map Prod.fst).Pairwise (· < ·)

namespace OrderedMap

variable {V : Type}

instance [DecidableEq V] : DecidableEq (OrderedMap V) := fun a b =>
  decidable_of_iff (a.entries = b.entries) (by cases a; cases b; simp)

/-- The empty map. -/
def empty : OrderedMap V := ⟨[], List.Pairwise.nil⟩

instance : EmptyCollection (OrderedMap V) := ⟨empty⟩

/-- The keys, in iteration order. -/
def keys (m : OrderedMap V) : List Nat := m.entries.map Prod.fst

/-- `m.size()`. -/
def size (m : OrderedMap V) : Nat := m.entries.length

/-- Entry lists: the value at the first entry with key `k`. -/
def findEntries (k : Nat) : List (Nat × V) → Option V
  | [] => none
  | (k', v) :: rest => if k' = k then some v else findEntries k rest

/-- `m.find(k)`. -/
def find? (m : OrderedMap V) (k : Nat) : Option V := findEntries k m.entries

/-- A sorted key list with `k` added at its place; unchanged when `k` is
already there. -/
def insertKey (k : Nat) : List Nat → List Nat
  | [] => [k]
  | k' :: rest =>
    if k = k' then k' :: rest
    else if k < k' then k :: k' :: rest
    else k' :: insertKey k rest

theorem mem_insertKey {k j : Nat} {l : List Nat} : j ∈ insertKey k l ↔ j = k ∨ j ∈ l := by
  induction l with
  | nil => simp [insertKey]
  | cons k' rest ih =>
    unfold insertKey
    split_ifs with h₁ h₂ <;> simp_all <;> tauto

theorem insertKey_sorted {k : Nat} {l : List Nat} (h : l.Pairwise (· < ·)) :
    (insertKey k l).Pairwise (· < ·) := by
  induction l with
  | nil => simp [insertKey]
  | cons k' rest ih =>
    rw [List.pairwise_cons] at h
    unfold insertKey
    split_ifs with h₁ h₂
    · exact List.pairwise_cons.2 h
    · refine List.pairwise_cons.2 ⟨fun j hj => ?_, List.pairwise_cons.2 h⟩
      rcases List.mem_cons.1 hj with rfl | hj
      · exact h₂
      · exact lt_trans h₂ (h.1 j hj)
    · refine List.pairwise_cons.2 ⟨fun j hj => ?_, ih h.2⟩
      rcases mem_insertKey.1 hj with rfl | hj
      · omega
      · exact h.1 j hj

/-- Entry lists: `m[k].push_back(x)`. -/
def pushBackEntries {α : Type} : List (Nat × List α) → Nat → α → List (Nat × List α)
  | [], k, x => [(k, [x])]
  | (k', v) :: rest, k, x =>
    if k = k' then (k', v ++ [x]) :: rest
    else if k < k' then (k, [x]) :: (k', v) :: rest
    else (k', v) :: pushBackEntries rest k x

theorem keys_pushBackEntries {α : Type} (l : List (Nat × List α)) (k : Nat) (x : α) :
    (pushBackEntries l k x).map Prod.fst = insertKey k (l.map Prod.fst) := by
  induction l with
  | nil => rfl
  | cons e rest ih =>
    obtain ⟨k', v⟩ := e
    simp only [pushBackEntries, insertKey]
    split_ifs <;> simp_all

/-- `m[k].push_back(x)`: appends `x` to the list at key `k`, creating an empty
list at its place in key order first when `k` is absent. -/
def pushBack {α : Type} (m : OrderedMap (List α)) (k : Nat) (x : α) : OrderedMap (List α) :=
  ⟨pushBackEntries m.entries k x, by rw [keys_pushBackEntries]; exact insertKey_sorted m.sorted⟩

/-- Entry lists: `m.emplace(k, v)`. -/
def emplaceEntries : List (Nat × V) → Nat → V → List (Nat × V)
  | [], k, v => [(k, v)]
  | (k', v') :: rest, k, v =>
    if k = k' then (k', v') :: rest
    else if k < k' then (k, v) :: (k', v') :: rest
    else (k', v') :: emplaceEntries rest k v

theorem keys_emplaceEntries (l : List (Nat × V)) (k : Nat) (v : V) :
    (emplaceEntries l k v).map Prod.fst = insertKey k (l.map Prod.fst) := by
  induction l with
  | nil => rfl
  | cons e rest ih =>
    obtain ⟨k', v'⟩ := e
    simp only [emplaceEntries, insertKey]
    split_ifs <;> simp_all

/-- `m.emplace(k, v)`: inserts `(k, v)` unless `k` is already a key. -/
def emplace (m : OrderedMap V) (k : Nat) (v : V) : OrderedMap V :=
  ⟨emplaceEntries m.entries k v, by rw [keys_emplaceEntries]; exact insertKey_sorted m.sorted⟩

/-- `m.erase(k)`. -/
def erase (m : OrderedMap V) (k : Nat) : OrderedMap V :=
  ⟨m.entries.filter fun e => e.1 != k, m.sorted.sublist (List.Sublist.map _ (List.filter_sublist _))⟩

/-- `m[k] = v`: the value at `k` set to `v`, the key inserted at its place
when absent. -/
def assign (m : OrderedMap V) (k : Nat) (v : V) : OrderedMap V := (m.erase k).emplace k v

/-- `m.erase(m.begin())`: the map without its least entry. -/
def eraseBegin (m : OrderedMap V) : OrderedMap V :=
  ⟨m.entries.tail, by
    have h := m.sorted
    cases hm : m.entries with
    | nil => simp
    | cons e rest => rw [hm, List.map_cons, List.pairwise_cons] at h; exact h.2⟩

/-- Entry lists: the first entry's value replaced by `v`. -/
def setBeginEntries (v : V) : List (Nat × V) → List (Nat × V)
  | [] => []
  | (k, _) :: rest => (k, v) :: rest

theorem keys_setBeginEntries (v : V) (l : List (Nat × V)) :
    (setBeginEntries v l).map Prod.fst = l.map Prod.fst := by
  cases l <;> rfl

/-- `begin()->second = v`: the least entry's value replaced; the keys stay. -/
def setBegin (m : OrderedMap V) (v : V) : OrderedMap V :=
  ⟨setBeginEntries v m.entries, by rw [keys_setBeginEntries]; exact m.sorted⟩

/-- Every value mapped by `f`; the keys stay. -/
def mapValues {W : Type} (m : OrderedMap V) (f : V → W) : OrderedMap W :=
  ⟨m.entries.map fun e => (e.1, f e.2), by rw [List.map_map]; exact m.sorted⟩

/-- The entries that satisfy `p`, in order. -/
def filter (m : OrderedMap V) (p : Nat × V → Bool) : OrderedMap V :=
  ⟨m.entries.filter p, m.sorted.sublist (List.Sublist.map _ (List.filter_sublist _))⟩

/-- The elements of a map of lists, in iteration order. -/
def values {α : Type} (m : OrderedMap (List α)) : List α := m.entries.flatMap Prod.snd

/-- A map of lists read in iteration order: each element with its key. -/
def flat {α : Type} (m : OrderedMap (List α)) : List (Nat × α) :=
  m.entries.flatMap fun e => e.2.map fun x => (e.1, x)

@[simp] theorem keys_pushBack {α : Type} (m : OrderedMap (List α)) (k : Nat) (x : α) :
    (m.pushBack k x).keys = insertKey k m.keys :=
  keys_pushBackEntries _ _ _

@[simp] theorem keys_emplace (m : OrderedMap V) (k : Nat) (v : V) :
    (m.emplace k v).keys = insertKey k m.keys :=
  keys_emplaceEntries _ _ _

@[simp] theorem keys_empty : (empty : OrderedMap V).keys = [] := rfl

/-- A key below every key of an entry list is not found in it. -/
theorem findEntries_eq_none_of_lt {l : List (Nat × V)} {k : Nat}
    (h : ∀ j ∈ l.map Prod.fst, k < j) : findEntries k l = none := by
  induction l with
  | nil => rfl
  | cons e rest ih =>
    have hk : k < e.1 := h e.1 (by simp)
    have hne : ¬ e.1 = k := by omega
    simp only [findEntries, hne, if_false]
    exact ih fun j hj => h j (by simp_all)

theorem find?_pushBack {α : Type} (m : OrderedMap (List α)) (k j : Nat) (x : α) :
    (m.pushBack k x).find? j = if j = k then some ((m.find? k).getD [] ++ [x]) else m.find? j := by
  obtain ⟨l, hl⟩ := m
  simp only [pushBack, find?]
  induction l with
  | nil => by_cases h : j = k <;> simp [pushBackEntries, findEntries, h, Ne.symm]
  | cons e rest ih =>
    obtain ⟨k', v⟩ := e
    rw [List.map_cons, List.pairwise_cons] at hl
    have ih := ih hl.2
    by_cases hk : k = k'
    · subst hk
      by_cases h : j = k
      · simp [pushBackEntries, findEntries, h]
      · simp [pushBackEntries, findEntries, h, Ne.symm h]
    · by_cases hlt : k < k'
      · have hnone : findEntries k rest = none :=
          findEntries_eq_none_of_lt fun j hj => lt_trans hlt (hl.1 j hj)
        by_cases h : j = k
        · subst h; simp [pushBackEntries, findEntries, hk, hlt, Ne.symm hk, hnone]
        · simp [pushBackEntries, findEntries, hk, hlt, h, Ne.symm h]
      · simp only [pushBackEntries, hk, hlt, if_false, findEntries, ih]
        by_cases h : j = k
        · subst h; simp [Ne.symm hk]
        · by_cases h' : k' = j <;> simp [h, h', hk]

theorem find?_emplace (m : OrderedMap V) (k j : Nat) (v : V) :
    (m.emplace k v).find? j = if j = k then some ((m.find? k).getD v) else m.find? j := by
  obtain ⟨l, hl⟩ := m
  simp only [emplace, find?]
  induction l with
  | nil => by_cases h : j = k <;> simp [emplaceEntries, findEntries, h, Ne.symm]
  | cons e rest ih =>
    obtain ⟨k', v'⟩ := e
    rw [List.map_cons, List.pairwise_cons] at hl
    have ih := ih hl.2
    by_cases hk : k = k'
    · subst hk
      by_cases h : j = k
      · simp [emplaceEntries, findEntries, h]
      · simp [emplaceEntries, findEntries, h, Ne.symm h]
    · by_cases hlt : k < k'
      · have hnone : findEntries k rest = none :=
          findEntries_eq_none_of_lt fun j hj => lt_trans hlt (hl.1 j hj)
        by_cases h : j = k
        · subst h; simp [emplaceEntries, findEntries, hk, hlt, Ne.symm hk, hnone]
        · simp [emplaceEntries, findEntries, hk, hlt, h, Ne.symm h]
      · simp only [emplaceEntries, hk, hlt, if_false, findEntries, ih]
        by_cases h : j = k
        · subst h; simp [Ne.symm hk]
        · by_cases h' : k' = j <;> simp [h, h', hk]

@[simp] theorem find?_erase (m : OrderedMap V) (k j : Nat) :
    (m.erase k).find? j = if j = k then none else m.find? j := by
  obtain ⟨l, -⟩ := m
  simp only [erase, find?]
  induction l with
  | nil => simp [findEntries]
  | cons e rest ih =>
    obtain ⟨k', v⟩ := e
    by_cases hk : k' = k
    · subst hk; by_cases h : j = k' <;> simp_all [findEntries, Ne.symm]
    · by_cases h : j = k <;> by_cases h' : k' = j <;> simp_all [findEntries]

@[simp] theorem find?_assign (m : OrderedMap V) (k j : Nat) (v : V) :
    (m.assign k v).find? j = if j = k then some v else m.find? j := by
  rw [assign, find?_emplace, find?_erase, find?_erase]
  split_ifs <;> simp_all

theorem isSome_findEntries {k : Nat} {l : List (Nat × V)} :
    (findEntries k l).isSome ↔ k ∈ l.map Prod.fst := by
  induction l with
  | nil => simp [findEntries]
  | cons e rest ih =>
    obtain ⟨k', v⟩ := e
    by_cases h : k' = k
    · simp [findEntries, h]
    · simp [findEntries, h, ih, Ne.symm h]

/-- A map whose keys are exactly `0, …, n - 1` has `n` entries. -/
theorem size_eq_of_find? {m : OrderedMap V} {n : Nat} (h : ∀ i, (m.find? i).isSome ↔ i < n) :
    m.size = n := by
  have hperm : m.keys.Perm (List.range n) :=
    (List.perm_ext_iff_of_nodup (m.sorted.imp Nat.ne_of_lt) (List.nodup_range n)).2 fun i => by
      rw [List.mem_range, ← h i]; exact isSome_findEntries.symm
  simpa [size, keys] using hperm.length_eq

/-! ## The least entry -/

theorem size_setBegin (m : OrderedMap V) (v : V) : (m.setBegin v).size = m.size := by
  obtain ⟨_ | ⟨⟨k, w⟩, rest⟩, _⟩ := m <;> rfl

theorem size_eraseBegin (m : OrderedMap V) : (m.eraseBegin).size = m.size - 1 := by
  obtain ⟨l, _⟩ := m; exact List.length_tail l

theorem flat_of_entries_cons {α : Type} {m : OrderedMap (List α)} {k : Nat} {v : List α}
    {rest : List (Nat × List α)} (h : m.entries = (k, v) :: rest) :
    m.flat = v.map (fun x => (k, x)) ++ rest.flatMap fun e => e.2.map fun x => (e.1, x) := by
  simp [flat, h]

theorem flat_eraseBegin_of_entries_cons {α : Type} {m : OrderedMap (List α)} {k : Nat}
    {v : List α} {rest : List (Nat × List α)} (h : m.entries = (k, v) :: rest) :
    m.eraseBegin.flat = rest.flatMap fun e => e.2.map fun x => (e.1, x) := by
  simp [flat, eraseBegin, h]

theorem flat_setBegin_of_entries_cons {α : Type} {m : OrderedMap (List α)} {k : Nat}
    {v w : List α} {rest : List (Nat × List α)} (h : m.entries = (k, v) :: rest) :
    (m.setBegin w).flat = w.map (fun x => (k, x)) ++ rest.flatMap fun e => e.2.map fun x => (e.1, x) := by
  simp [flat, setBegin, setBeginEntries, h]

/-- Every element of a map of lists sits at a key no less than the least key. -/
theorem le_of_mem_flat {α : Type} {m : OrderedMap (List α)} {k : Nat} {v : List α}
    {rest : List (Nat × List α)} (h : m.entries = (k, v) :: rest) {p : Nat × α} (hp : p ∈ m.flat) :
    k ≤ p.1 := by
  have hs := m.sorted
  rw [h, List.map_cons, List.pairwise_cons] at hs
  simp only [flat, h, List.flatMap_cons, List.mem_append, List.mem_map, List.mem_flatMap] at hp
  rcases hp with ⟨x, -, rfl⟩ | ⟨e, he, x, -, rfl⟩
  · exact le_rfl
  · exact le_of_lt (hs.1 e.1 (List.mem_map_of_mem _ he))

/-! ## The elements of a map of lists -/

theorem values_eq_flat {α : Type} (m : OrderedMap (List α)) : m.values = m.flat.map Prod.snd := by
  simp [values, flat, List.map_flatMap, Function.comp_def]

theorem pushBackEntries_flat_perm {α : Type} (l : List (Nat × List α)) (k : Nat) (x : α) :
    ((pushBackEntries l k x).flatMap fun e => e.2.map fun y => (e.1, y)).Perm
      ((l.flatMap fun e => e.2.map fun y => (e.1, y)) ++ [(k, x)]) := by
  induction l with
  | nil => simp [pushBackEntries]
  | cons e rest ih =>
    obtain ⟨k', v⟩ := e
    simp only [pushBackEntries, List.flatMap_cons]
    split_ifs with h₁
    · subst h₁
      simpa using (@List.perm_append_comm _ [(k, x)] _).append_left (v.map fun y => (k, y))
    · exact (List.perm_append_singleton _ _).symm
    · simpa using ih.append_left _

/-- `m[k].push_back(x)` adds one `(k, x)` to the map read in order. -/
theorem flat_pushBack_perm {α : Type} (m : OrderedMap (List α)) (k : Nat) (x : α) :
    (m.pushBack k x).flat.Perm (m.flat ++ [(k, x)]) :=
  pushBackEntries_flat_perm _ _ _

/-- `m[k].push_back(x)` adds one `x` to the elements. -/
theorem values_pushBack_perm {α : Type} (m : OrderedMap (List α)) (k : Nat) (x : α) :
    (m.pushBack k x).values.Perm (m.values ++ [x]) := by
  rw [values_eq_flat, values_eq_flat]
  simpa using (flat_pushBack_perm m k x).map Prod.snd

theorem mem_flatMap_of_findEntries {α : Type} {l : List (Nat × List α)} {k : Nat} {x : α}
    (h : x ∈ (findEntries k l).getD []) : x ∈ l.flatMap Prod.snd := by
  induction l with
  | nil => simp [findEntries] at h
  | cons e rest ih =>
    by_cases hk : e.1 = k
    · simp_all [findEntries]
    · simp only [findEntries, hk, if_false] at h
      simp [ih h]

theorem mem_of_mem_find? {α : Type} {m : OrderedMap (List α)} {k : Nat} {x : α}
    (h : x ∈ (m.find? k).getD []) : x ∈ m.values :=
  mem_flatMap_of_findEntries h

theorem exists_findEntries_of_mem {α : Type} {l : List (Nat × List α)} {x : α}
    (hl : (l.map Prod.fst).Pairwise (· < ·)) (h : x ∈ l.flatMap Prod.snd) :
    ∃ k, x ∈ (findEntries k l).getD [] := by
  induction l with
  | nil => simp at h
  | cons e rest ih =>
    rw [List.map_cons, List.pairwise_cons] at hl
    rw [List.flatMap_cons, List.mem_append] at h
    rcases h with h | h
    · exact ⟨e.1, by simp [findEntries, h]⟩
    · obtain ⟨k, hk⟩ := ih hl.2 h
      refine ⟨k, ?_⟩
      have hne : e.1 ≠ k := by
        rintro rfl
        simp [findEntries_eq_none_of_lt fun j hj => hl.1 j hj] at hk
      simpa [findEntries, hne] using hk

/-- Keys are unique: an element lies in the list at some key. -/
theorem exists_find?_of_mem_values {α : Type} {m : OrderedMap (List α)} {x : α}
    (h : x ∈ m.values) : ∃ k, x ∈ (m.find? k).getD [] :=
  exists_findEntries_of_mem m.sorted h

theorem erase_findEntries_perm {α : Type} {l : List (Nat × List α)} (k : Nat)
    (hl : (l.map Prod.fst).Pairwise (· < ·)) :
    ((l.filter fun e => e.1 != k).flatMap Prod.snd ++ (findEntries k l).getD []).Perm
      (l.flatMap Prod.snd) := by
  induction l with
  | nil => simp [findEntries]
  | cons e rest ih =>
    obtain ⟨k', v⟩ := e
    rw [List.map_cons, List.pairwise_cons] at hl
    by_cases hk : k' = k
    · subst hk
      have hrest : rest.filter (fun e => e.1 != k') = rest :=
        List.filter_eq_self.2 fun e he => by
          have := hl.1 e.1 (List.mem_map_of_mem _ he)
          simp only [bne_iff_ne, ne_eq]; omega
      simpa [findEntries, hrest] using List.perm_append_comm
    · simpa [findEntries, hk] using (ih hl.2).append_left v

/-- Erasing a key removes exactly the list found at it. -/
theorem values_erase_perm {α : Type} (m : OrderedMap (List α)) (k : Nat) :
    ((m.erase k).values ++ (m.find? k).getD []).Perm m.values :=
  erase_findEntries_perm k m.sorted

/-- Dropping entries and filtering the lists keeps a part of the filtered
elements. -/
theorem values_filter_mapValues_sublist {α : Type} (m : OrderedMap (List α))
    (p : Nat × List α → Bool) (q : α → Bool) :
    ((m.filter p).mapValues fun l => l.filter q).values.Sublist (m.values.filter q) := by
  show ((m.entries.filter p).map fun e => (e.1, e.2.filter q)).flatMap Prod.snd
    |>.Sublist ((m.entries.flatMap Prod.snd).filter q)
  induction m.entries with
  | nil => simp
  | cons e rest ih =>
    by_cases he : p e
    · simpa [List.filter_cons, he, List.filter_append] using ih.append_left (e.2.filter q)
    · simpa [List.filter_cons, he, List.filter_append] using ih.trans (List.sublist_append_right _ _)

/-- Filtering the lists and dropping the empty ones filters the map read in
order. -/
theorem flat_mapValues_filter {α : Type} (m : OrderedMap (List α)) (q : α → Bool) :
    ((m.mapValues fun l => l.filter q).filter fun e => !e.2.isEmpty).flat =
      m.flat.filter fun p => q p.2 := by
  show ((m.entries.map fun e => (e.1, e.2.filter q)).filter fun e => !e.2.isEmpty).flatMap
      (fun e => e.2.map fun y => (e.1, y)) =
    (m.entries.flatMap fun e => e.2.map fun y => (e.1, y)).filter fun p => q p.2
  induction m.entries with
  | nil => simp
  | cons e rest ih =>
    by_cases he : e.2.filter q = [] <;>
      simp_all [List.filter_cons, List.filter_append, List.filter_map, Function.comp_def]

/-- Filtering the lists and dropping the empty ones filters the elements. -/
theorem values_mapValues_filter {α : Type} (m : OrderedMap (List α)) (q : α → Bool) :
    ((m.mapValues fun l => l.filter q).filter fun e => !e.2.isEmpty).values = m.values.filter q := by
  rw [values_eq_flat, values_eq_flat, flat_mapValues_filter, List.filter_map]
  rfl

theorem find?_filter_mapValues {α : Type} (m : OrderedMap (List α)) (p : Nat → Bool)
    (q : α → Bool) (k : Nat) :
    ((m.filter fun e => p e.1).mapValues fun l => l.filter q).find? k =
      if p k then (m.find? k).map fun l => l.filter q else none := by
  show findEntries k ((m.entries.filter fun e => p e.1).map fun e => (e.1, e.2.filter q)) =
    if p k then (findEntries k m.entries).map fun l => l.filter q else none
  induction m.entries with
  | nil => simp [findEntries]
  | cons e rest ih =>
    by_cases he : p e.1 <;> by_cases hk : e.1 = k <;> simp_all [findEntries]

theorem mem_keys_erase {m : OrderedMap V} {k x : Nat} : x ∈ (m.erase k).keys ↔ x ∈ m.keys ∧ x ≠ k := by
  simp [keys, erase]

theorem mem_keys_filter {m : OrderedMap V} {p : Nat → Bool} {x : Nat} :
    x ∈ (m.filter fun e => p e.1).keys ↔ x ∈ m.keys ∧ p x := by
  simp [keys, filter]

theorem count_values_pushBack {α : Type} [DecidableEq α] (m : OrderedMap (List α)) (k : Nat)
    (x y : α) : (m.pushBack k x).values.count y = m.values.count y + if x = y then 1 else 0 := by
  rw [(values_pushBack_perm m k x).count_eq, List.count_append, List.count_singleton']

/-- An element that occurs once in a map of lists is in the list of one key
only. -/
theorem eq_of_mem_find?_of_count_le_one {α : Type} [DecidableEq α] {m : OrderedMap (List α)}
    {x : α} (hc : m.values.count x ≤ 1) {k₁ k₂ : Nat} (h₁ : x ∈ (m.find? k₁).getD [])
    (h₂ : x ∈ (m.find? k₂).getD []) : k₁ = k₂ := by
  by_contra hne
  have hk : x ∈ ((m.erase k₁).find? k₂).getD [] := by rwa [find?_erase, if_neg (Ne.symm hne)]
  have hcount := (values_erase_perm m k₁).count_eq x
  rw [List.count_append] at hcount
  have := List.count_pos_iff.2 (mem_of_mem_find? hk)
  have := List.count_pos_iff.2 h₁
  omega

end OrderedMap

end SimEng
