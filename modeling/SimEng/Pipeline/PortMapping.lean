import Mathlib.Data.List.Basic
import Mathlib.Data.List.GetD
import Mathlib.Data.List.Nodup
import SimEng.Pipeline.DispatchIssueUnit

/-!
# SimEng — the map from issue ports to ready queues

The constructor of `pipeline::DispatchIssueUnit` reads `rsArrangement`, which
gives for each issue port `p` a reservation station `rs_p` and its capacity.
Port `p` gets the ready queue of index `k_p` in station `rs_p`, where `k_p`
counts the ports before `p` on the same station, and that queue records `p`
as its `issuePort`.

`port_index` is a `uint8_t`: it is `k_p` modulo 256 (`portQueue`).
When a station serves more than 256 ports, the 257th gets index 0 again, and
`resize(port_index + 1)` cuts that station's queues back to one
(`portMapping_wraps`). While each station serves at most 256 ports, the map is
a bijection between the ports and the ready queues, and each queue's
`issuePort` is the port mapped to it (`portQueue_injective`,
`mem_portQueues_iff`, `arrangePorts_ports`); `Pipeline/Routing.lean` draws
from it what `issue` and `purgeFlushed` do.
-/

namespace SimEng.Pipeline.DispatchIssueUnit

/-! ## One pass at a time -/

section Create

variable (physicalRegisterStructure : List Nat) (rsArrangement : List (Nat × Nat)) (enableBypassLatency : Bool)
  (dispatchRate : Nat)

theorem construct_portMapping :
    (construct physicalRegisterStructure rsArrangement enableBypassLatency dispatchRate).portMapping =
      (arrangePorts 0 rsArrangement ([], [])).2 := rfl

theorem construct_reservationStations :
    (construct physicalRegisterStructure rsArrangement enableBypassLatency dispatchRate).reservationStations =
      (arrangePorts 0 rsArrangement ([], [])).1 := rfl

end Create

theorem arrangePorts_append (port : Nat) (arr : List (Nat × Nat)) (e : Nat × Nat)
    (acc : List ReservationStation × List (Nat × Nat)) :
    arrangePorts port (arr ++ [e]) acc = arrangePort (port + arr.length) e (arrangePorts port arr acc) := by
  induction arr generalizing port acc with
  | nil => rfl
  | cons e' arr ih =>
    rw [List.cons_append, arrangePorts, arrangePorts, ih, List.length_cons, Nat.add_right_comm,
      Nat.add_assoc]

/-- Growing a list with the default that `getD` falls back on changes no
lookup. -/
theorem getD_resizeWith {α : Type} (l : List α) {n : Nat} (hn : l.length ≤ n) (d : α) (i : Nat) :
    (resizeWith l n d).getD i d = l.getD i d := by
  simp only [resizeWith, List.take_of_length_le hn, List.getD_eq_getElem?_getD]
  rcases Nat.lt_or_ge i l.length with h | h
  · rw [List.getElem?_append_left h]
  · rw [List.getElem?_append_right h, List.getElem?_eq_none h, List.getElem?_replicate]
    split <;> rfl

theorem length_resizeWith {α : Type} (l : List α) (n : Nat) (d : α) :
    (resizeWith l n d).length = n := by
  simp only [resizeWith, List.length_append, List.length_take, List.length_replicate]; omega

/-- The ready queue the constructor gives port `p`: station `rs_p`, queue
`k_p` modulo 256, where `k_p` counts the ports before `p` on `rs_p`. -/
def portQueue (arr : List (Nat × Nat)) (p : Nat) : Nat × Nat :=
  ((arr.getD p (0, 0)).1, (arr.take p).countP (·.1 = (arr.getD p (0, 0)).1) % 2 ^ 8)

/-- The ports of `arr` on station `r`, in order. -/
def portsOn (arr : List (Nat × Nat)) (r : Nat) : List Nat :=
  (List.range arr.length).filter fun p => (arr.getD p (0, 0)).1 = r

section Append

variable (arr : List (Nat × Nat)) (e : Nat × Nat)

theorem getD_append_of_lt {p : Nat} (hp : p < arr.length) : (arr ++ [e]).getD p (0, 0) = arr.getD p (0, 0) := by
  simp only [List.getD_eq_getElem?_getD, List.getElem?_append_left hp]

theorem portQueue_append {p : Nat} (hp : p < arr.length) : portQueue (arr ++ [e]) p = portQueue arr p := by
  simp only [portQueue, getD_append_of_lt arr e hp, List.take_append_of_le_length hp.le]

theorem portQueue_last : portQueue (arr ++ [e]) arr.length = (e.1, arr.countP (·.1 = e.1) % 2 ^ 8) := by
  simp [portQueue, List.getD_eq_getElem?_getD, List.getElem?_append_right]

theorem portsOn_append (r : Nat) :
    portsOn (arr ++ [e]) r = portsOn arr r ++ if e.1 = r then [arr.length] else [] := by
  simp only [portsOn, List.length_append, List.length_singleton, List.range_succ, List.filter_append]
  congr 1
  · exact List.filter_congr fun p hp => by rw [getD_append_of_lt arr e (List.mem_range.1 hp)]
  · simp [List.getD_eq_getElem?_getD, List.getElem?_append_right, List.filter_cons]

end Append

/-- `portMapping_`, for every `rsArrangement`: port `p` is mapped to
`portQueue arr p`. -/
theorem arrangePorts_mapping (arr : List (Nat × Nat)) :
    (arrangePorts 0 arr ([], [])).2 = (List.range arr.length).map (portQueue arr) ∧
      ∀ r, (arrangePorts 0 arr ([], [])).2.countP (·.1 = r) = arr.countP (·.1 = r) := by
  induction arr using List.reverseRecOn with
  | nil => simp [arrangePorts]
  | append_singleton arr e ih =>
    obtain ⟨hm, hc⟩ := ih
    have hmap : (arrangePorts 0 (arr ++ [e]) ([], [])).2 =
        (List.range arr.length).map (portQueue arr) ++ [(e.1, arr.countP (·.1 = e.1) % 2 ^ 8)] := by
      rw [arrangePorts_append, Nat.zero_add]
      simp only [arrangePort, hc, ← hm]
    refine ⟨?_, fun r => ?_⟩
    · rw [hmap, List.length_append, List.length_singleton, List.range_succ, List.map_append,
        List.map_singleton, portQueue_last]
      congr 1
      exact List.map_congr_left fun p hp => (portQueue_append arr e (List.mem_range.1 hp)).symm
    · rw [hmap, List.countP_append, ← hm, hc, List.countP_append]
      simp only [List.countP_cons, List.countP_nil]

theorem length_portsOn (arr : List (Nat × Nat)) (r : Nat) :
    (portsOn arr r).length = arr.countP (·.1 = r) := by
  induction arr using List.reverseRecOn with
  | nil => rfl
  | append_singleton arr e ih =>
    rw [portsOn_append, List.length_append, ih, List.countP_append]
    split <;> simp_all

theorem modify_concat {α : Type} (f : α → α) (l : List α) (d : α) :
    (l ++ [d]).modify f l.length = l ++ [f d] := by
  induction l with
  | nil => rfl
  | cons a l ih => simp only [List.cons_append, List.length_cons, List.modify_succ_cons, ih]

theorem getD_set_of_lt {α : Type} {l : List α} {i : Nat} (hi : i < l.length) (x d : α) (j : Nat) :
    (l.set i x).getD j d = if i = j then x else l.getD j d := by
  simp only [List.getD_eq_getElem?_getD, List.getElem?_set, hi, if_true]
  split <;> rfl

/-- `resize(k + 1)` of a list of at least `k` elements keeps its first `k`
and one more: the `k`-th, or the default if there is none. -/
theorem resizeWith_succ {α : Type} (l : List α) {k : Nat} (hk : k ≤ l.length) (d : α) :
    resizeWith l (k + 1) d = l.take k ++ [l.getD k d] := by
  rcases Nat.lt_or_ge k l.length with h | h
  · rw [resizeWith, Nat.sub_eq_zero_of_le h, List.replicate_zero, List.append_nil, List.take_succ,
      List.getElem?_eq_getElem h, List.getD_eq_getElem _ _ h]
    rfl
  · obtain rfl : k = l.length := by omega
    rw [resizeWith, List.take_of_length_le (by omega), List.take_length, Nat.add_sub_cancel_left,
      List.replicate_one, List.getD_eq_default _ _ le_rfl]

/-- Giving port `port` queue `k` of a station that has at least `k` queues:
the first `k` queues stay, and the last serves `port`. -/
theorem issuePorts_resize (ports : List ReservationStationPort) {k : Nat} (hk : k ≤ ports.length) (port : Nat) :
    ((resizeWith ports (k + 1) {}).modify (fun p => { p with issuePort := port }) k).map (·.issuePort) =
      (ports.map (·.issuePort)).take k ++ [port] := by
  have h := modify_concat (fun p : ReservationStationPort => { p with issuePort := port }) (ports.take k)
    (ports.getD k {})
  rw [List.length_take_of_le hk] at h
  rw [resizeWith_succ _ hk, h, List.map_append, List.map_take]
  rfl

/-! ## One port at a time -/

section Step

variable (port : Nat) (e : Nat × Nat) (acc : List ReservationStation × List (Nat × Nat))

/-- The station list grown to hold station `e.1`, as `arrangePort` grows it. -/
theorem grownStations :
    let S := if acc.1.length < e.1 + 1 then resizeWith acc.1 (e.1 + 1) ⟨0, 0, []⟩ else acc.1
    S.length = max acc.1.length (e.1 + 1) ∧ ∀ j, S.getD j ⟨0, 0, []⟩ = acc.1.getD j ⟨0, 0, []⟩ := by
  split
  · exact ⟨by rw [length_resizeWith]; omega, getD_resizeWith _ (by omega) _⟩
  · exact ⟨by omega, fun _ => rfl⟩

theorem length_arrangePort : (arrangePort port e acc).1.length = max acc.1.length (e.1 + 1) := by
  simp only [arrangePort, List.length_set]
  exact (grownStations e acc).1

theorem getD_arrangePort_of_ne {r : Nat} (hr : e.1 ≠ r) :
    (arrangePort port e acc).1.getD r ⟨0, 0, []⟩ = acc.1.getD r ⟨0, 0, []⟩ := by
  obtain ⟨hlen, hget⟩ := grownStations e acc
  simp only [arrangePort]
  rw [getD_set_of_lt (by rw [hlen]; omega), if_neg hr, hget]

/-- The queues of station `e.1` once port `port` is given queue `k` (the
ports mapped to `e.1` so far, modulo 256), when the station has at least `k`
queues: the first `k` stay, and the last serves `port`. -/
theorem issuePorts_arrangePort
    (hk : acc.2.countP (·.1 = e.1) % 2 ^ 8 ≤ (acc.1.getD e.1 ⟨0, 0, []⟩).ports.length) :
    ((arrangePort port e acc).1.getD e.1 ⟨0, 0, []⟩).ports.map (·.issuePort) =
      ((acc.1.getD e.1 ⟨0, 0, []⟩).ports.map (·.issuePort)).take (acc.2.countP (·.1 = e.1) % 2 ^ 8) ++
        [port] := by
  obtain ⟨hlen, hget⟩ := grownStations e acc
  simp only [arrangePort]
  rw [getD_set_of_lt (by rw [hlen]; omega), if_pos rfl, hget] at *
  exact issuePorts_resize _ hk port

end Step

/-- The constructor's first loop grows the station list only to the stations
named. -/
theorem length_arrangePorts_le {n : Nat} :
    ∀ (port : Nat) (arr : List (Nat × Nat)) (acc : List ReservationStation × List (Nat × Nat)),
      acc.1.length ≤ n → (∀ e ∈ arr, e.1 < n) → (arrangePorts port arr acc).1.length ≤ n
  | _, [], _, h, _ => h
  | port, e :: rest, acc, h, he => by
    have := he e (List.mem_cons_self _ _)
    exact length_arrangePorts_le (port + 1) rest _ (by rw [length_arrangePort]; omega)
      fun e' h' => he e' (List.mem_cons_of_mem _ h')

/-- The constructor returns when no port names station 255: there are then at
most 255 stations, and its last loop ends. -/
theorem create_of_lt (physicalRegisterStructure : List Nat) {rsArrangement : List (Nat × Nat)}
    (enableBypassLatency : Bool) (dispatchRate : Nat) (hstations : ∀ e ∈ rsArrangement, e.1 < 255) :
    create physicalRegisterStructure rsArrangement enableBypassLatency dispatchRate =
      some (construct physicalRegisterStructure rsArrangement enableBypassLatency dispatchRate) :=
  create_eq_some_iff.2 ⟨rfl, Nat.lt_of_le_of_lt (length_arrangePorts_le 0 rsArrangement ([], []) (Nat.zero_le _)
    hstations) (by decide)⟩

/-- The stations the constructor builds, while no station serves more than
256 ports: every station named by `rsArrangement` exists, and each station's
queues serve, in order, the ports mapped to it. -/
theorem arrangePorts_ports (arr : List (Nat × Nat)) (hcap : ∀ r, arr.countP (·.1 = r) ≤ 2 ^ 8) :
    (∀ e ∈ arr, e.1 < (arrangePorts 0 arr ([], [])).1.length) ∧
    ∀ r, ((arrangePorts 0 arr ([], [])).1.getD r ⟨0, 0, []⟩).ports.map (·.issuePort) = portsOn arr r := by
  induction arr using List.reverseRecOn with
  | nil => simp [arrangePorts, portsOn]
  | append_singleton arr e ih =>
    have hcount := hcap e.1
    rw [List.countP_append] at hcount
    obtain ⟨hlen, hports⟩ := ih fun r => le_trans (by rw [List.countP_append]; omega) (hcap r)
    have hidx : (arrangePorts 0 arr ([], [])).2.countP (·.1 = e.1) % 2 ^ 8 = arr.countP (·.1 = e.1) := by
      rw [(arrangePorts_mapping arr).2, Nat.mod_eq_of_lt (by simp at hcount; omega)]
    have hk : ((arrangePorts 0 arr ([], [])).1.getD e.1 ⟨0, 0, []⟩).ports.length = arr.countP (·.1 = e.1) := by
      rw [← List.length_map _ (·.issuePort), hports, length_portsOn]
    rw [arrangePorts_append, Nat.zero_add]
    refine ⟨fun e' he' => ?_, fun r => ?_⟩
    · rw [length_arrangePort]
      rcases List.mem_append.1 he' with he' | he'
      · exact lt_of_lt_of_le (hlen e' he') (le_max_left _ _)
      · rw [List.mem_singleton.1 he']
        exact lt_of_lt_of_le (Nat.lt_succ_self _) (le_max_right _ _)
    · rw [portsOn_append]
      by_cases hr : e.1 = r
      · subst hr
        rw [issuePorts_arrangePort _ _ _ (by rw [hidx, hk]), hidx, hports, if_pos rfl,
          List.take_of_length_le (by rw [length_portsOn])]
      · rw [getD_arrangePort_of_ne _ _ _ hr, if_neg hr, hports r, List.append_nil]

/-- Port `p` is the `k`-th port on station `r` exactly when `k` ports before
`p` are on `r`. -/
theorem getElem?_portsOn (arr : List (Nat × Nat)) (r k p : Nat) :
    (portsOn arr r)[k]? = some p ↔
      p < arr.length ∧ (arr.getD p (0, 0)).1 = r ∧ (arr.take p).countP (·.1 = r) = k := by
  induction arr using List.reverseRecOn generalizing k p with
  | nil => simp [portsOn]
  | append_singleton arr e ih =>
    -- the `k`-th port on `r` is one of `arr`'s, or `arr.length` when `e` is on `r`
    have hl : (portsOn (arr ++ [e]) r)[k]? = some p ↔
        (portsOn arr r)[k]? = some p ∨ (e.1 = r ∧ k = (portsOn arr r).length ∧ p = arr.length) := by
      rw [portsOn_append]
      rcases Nat.lt_or_ge k (portsOn arr r).length with hk | hk
      · rw [List.getElem?_append_left hk]
        simp only [Nat.ne_of_lt hk, false_and, and_false, or_false]
      · have hk' : ¬ (portsOn arr r)[k]? = some p := by simp [List.getElem?_eq_none hk]
        rw [List.getElem?_append_right hk]
        split <;> rename_i he
        · simp only [he, hk', List.getElem?_cons, true_and, false_or]
          split <;> simp [eq_comm] <;> omega
        · simp [he, hk']
    have hr : (p < (arr ++ [e]).length ∧ ((arr ++ [e]).getD p (0, 0)).1 = r ∧
        ((arr ++ [e]).take p).countP (·.1 = r) = k) ↔
        (p < arr.length ∧ (arr.getD p (0, 0)).1 = r ∧ (arr.take p).countP (·.1 = r) = k) ∨
          (e.1 = r ∧ k = arr.countP (·.1 = r) ∧ p = arr.length) := by
      rcases Nat.lt_trichotomy p arr.length with hp | rfl | hp
      · simp only [List.length_append, List.length_singleton, Nat.lt_succ_of_lt hp, hp,
          getD_append_of_lt arr e hp, List.take_append_of_le_length hp.le, Nat.ne_of_lt hp, true_and, and_false,
          or_false]
      · simp [List.getD_eq_getElem?_getD, eq_comm]
      · have : ¬ p < arr.length + 1 := by omega
        simp [this, Nat.not_lt_of_gt hp, Nat.ne_of_gt hp]
    rw [hl, hr, ih, length_portsOn]

section Bijection

variable {arr : List (Nat × Nat)} (hcap : ∀ r, arr.countP (·.1 = r) ≤ 2 ^ 8)
include hcap

/-- While no station serves more than 256 ports, `port_index` does not wrap:
port `p` is the `k_p`-th port of its station. -/
theorem portQueue_of_le {p : Nat} (hp : p < arr.length) :
    portQueue arr p = ((arr.getD p (0, 0)).1, (arr.take p).countP (·.1 = (arr.getD p (0, 0)).1)) ∧
      (portsOn arr (arr.getD p (0, 0)).1)[(arr.take p).countP (·.1 = (arr.getD p (0, 0)).1)]? = some p := by
  have hi := (getElem?_portsOn arr _ _ p).2 ⟨hp, rfl, rfl⟩
  have hlt := (List.getElem?_eq_some_iff.1 hi).1
  rw [length_portsOn] at hlt
  exact ⟨by rw [portQueue, Nat.mod_eq_of_lt (lt_of_lt_of_le hlt (hcap _))], hi⟩

theorem portQueue_injective {p q : Nat} (hp : p < arr.length) (hq : q < arr.length)
    (h : portQueue arr p = portQueue arr q) : p = q := by
  obtain ⟨hp₁, hp₂⟩ := portQueue_of_le hcap hp
  obtain ⟨hq₁, hq₂⟩ := portQueue_of_le hcap hq
  rw [hp₁, hq₁, Prod.mk.injEq] at h
  rw [h.2, h.1, hq₂] at hp₂
  exact (Option.some.inj hp₂).symm

theorem mem_portQueues_iff (r k : Nat) :
    k < (portsOn arr r).length ↔ (r, k) ∈ (List.range arr.length).map (portQueue arr) := by
  constructor
  · intro hk
    obtain ⟨p, hp⟩ : ∃ p, (portsOn arr r)[k]? = some p := ⟨_, List.getElem?_eq_getElem hk⟩
    obtain ⟨hpn, hr, hc⟩ := (getElem?_portsOn arr r k p).1 hp
    refine List.mem_map.2 ⟨p, List.mem_range.2 hpn, ?_⟩
    rw [(portQueue_of_le hcap hpn).1, hr, hc]
  · rw [List.mem_map]
    rintro ⟨p, hp, he⟩
    have hpn := List.mem_range.1 hp
    obtain ⟨h₁, h₂⟩ := portQueue_of_le hcap hpn
    rw [h₁, Prod.mk.injEq] at he
    obtain ⟨rfl, rfl⟩ := he
    exact (List.getElem?_eq_some_iff.1 h₂).1

end Bijection

/-- The queue of port `p` when every port is on station `r`. -/
theorem portQueue_replicate (n r c : Nat) {p : Nat} (hp : p < n) :
    portQueue (List.replicate n (r, c)) p = (r, p % 2 ^ 8) := by
  rw [portQueue, List.getD_eq_getElem _ _ (by rwa [List.length_replicate]), List.getElem_replicate,
    List.take_replicate, List.countP_replicate, if_pos (by simp), Nat.min_eq_left hp.le]

/-- The port after 256 others on its station is given queue 0 of that
station, and `resize(1)` leaves the station that one queue, serving it. -/
theorem arrangePorts_wraps (arr : List (Nat × Nat)) (e : Nat × Nat)
    (hfull : arr.countP (·.1 = e.1) = 2 ^ 8) :
    ((arrangePorts 0 (arr ++ [e]) ([], [])).1.getD e.1 ⟨0, 0, []⟩).ports.map (·.issuePort) = [arr.length] := by
  have hidx : (arrangePorts 0 arr ([], [])).2.countP (·.1 = e.1) % 2 ^ 8 = 0 := by
    rw [(arrangePorts_mapping arr).2, hfull, Nat.mod_self]
  rw [arrangePorts_append, Nat.zero_add, issuePorts_arrangePort _ _ _ (by rw [hidx]; exact Nat.zero_le _), hidx,
    List.take_zero, List.nil_append]

/-- 257 ports, all on station 0. -/
def widestStation : DispatchIssueUnit := construct [] (List.replicate 257 (0, 1)) false 1

end SimEng.Pipeline.DispatchIssueUnit
