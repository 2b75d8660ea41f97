import Mathlib.Data.ZMod.Basic
import Mathlib.Tactic.Ring
import Mathlib.Tactic.LinearCombination
import SimEng.Memory.Caps

/-!
# SimEng — the MMU's outstanding-request counter

`pendingDataRequests_` counts the data packets whose response has not come
back: `requestRead`, `requestWrite` and the untimed `requestWrite` add the
packets they make, and the receiver takes one off for each data response,
never for an instruction read. `Core::tick` waits for `hasPendingRequests()`
to turn false before the core goes idle, and `Core::processException` before
it applies an exception's changes.

The counter is a `uint64_t`. The untimed write issues its packets before it
counts them, so a faulty one comes back and is taken off first, and the
counter can pass below zero within the call. The accounting is therefore in
`ZMod (2 ^ 64)`: every operation changes the outstanding data packets and the
counter by the same amount, so their difference `gap` stays 0.

Main results:

* `receiver_gap`, `issueRequest_gap` — a data response raises the gap by one,
  and so does issuing a data packet, whatever the translation;
* `processRequests_gap`, `requestRead_gap`, `supplyDelayedTranslation_gap`,
  `respond_gap` — each operation keeps the gap;
* `run_counted` — every run from the new MMU keeps the gap at 0, when each
  request makes fewer than `2^16` packets;
* `pendingDataRequests_exact` — the counter is the number of outstanding
  data packets modulo `2^64`.
-/

namespace SimEng.Memory

open MemPacket

/-- The data packets of a list: all but the instruction reads. -/
def dataCount (ps : List MemPacket) : Nat := ps.countP fun p => !p.isInstrRead

@[simp] theorem dataCount_nil : dataCount [] = 0 := rfl

@[simp] theorem dataCount_append (a b : List MemPacket) : dataCount (a ++ b) = dataCount a + dataCount b :=
  List.countP_append _ _ _

theorem dataCount_perm {a b : List MemPacket} (h : a.Perm b) : dataCount a = dataCount b :=
  h.countP_eq _

/-- A list of packets made by a request: all data packets. -/
theorem dataCount_of_data {ps : List MemPacket} (h : ∀ p ∈ ps, p.isInstrRead = false) :
    dataCount ps = ps.length :=
  List.countP_eq_length.2 fun p hp => by simp [h p hp]

/-- `uint64_t` decrement, read in `ZMod (2 ^ 64)`. -/
theorem cast_dec64 (p : Nat) : (((p + (2 ^ 64 - 1)) % 2 ^ 64 : Nat) : ZMod (2 ^ 64)) = p - 1 := by
  rw [ZMod.natCast_mod, Nat.cast_add, Nat.cast_sub Nat.one_le_two_pow, ZMod.natCast_self, Nat.cast_one]
  ring

namespace MMU

/-- The data packets whose response has not reached the receiver: queued in
`loadsStores_`, parked in `pendingRequests_`, or in flight. -/
def outstanding (s : MMU) : Nat :=
  dataCount (s.loadsStores LD).flatten + dataCount (s.loadsStores STR).flatten +
    dataCount s.pendingRequests.values + dataCount s.inFlight

/-- The outstanding data packets less the counter, as `uint64_t` values. -/
def gap (s : MMU) : ZMod (2 ^ 64) := (s.outstanding : ZMod (2 ^ 64)) - s.pendingDataRequests

/-- The counter's invariant: it matches the outstanding packets, and is a
`uint64_t`. -/
structure Counted (s : MMU) : Prop where
  gap_eq : s.gap = 0
  lt : s.pendingDataRequests < 2 ^ 64

variable {s s' : MMU} {heap : Heap}

theorem KeepsTraffic.gap_eq (h : KeepsTraffic s s') : s'.gap = s.gap := by
  simp only [gap, outstanding, h.loadsStores, h.pendingRequests, h.inFlight, h.pendingDataRequests]

theorem outstanding_send (p : MemPacket) : (s.send p).outstanding = s.outstanding + dataCount [p] := by
  unfold send outstanding; split_ifs <;> simp only [dataCount_append] <;> omega

theorem send_pendingDataRequests (p : MemPacket) : (s.send p).pendingDataRequests = s.pendingDataRequests := by
  unfold send; split_ifs <;> rfl

/-! ## Responses and issue -/

/-- A data response takes one off the counter. -/
theorem receiver_gap {p : MemPacket} (h : s.receiver heap p = .ok s') :
    s'.gap = s.gap + dataCount [p] ∧ (s.pendingDataRequests < 2 ^ 64 → s'.pendingDataRequests < 2 ^ 64) := by
  have hk := receiver_keeps h
  refine ⟨hk.gap_eq.trans ?_, fun hp => hk.pendingDataRequests ▸ ?_⟩
  · show (s.outstanding : ZMod (2 ^ 64)) - ((if p.isInstrRead then s.pendingDataRequests
      else (s.pendingDataRequests + (2 ^ 64 - 1)) % 2 ^ 64 : Nat) : ZMod (2 ^ 64)) = s.gap + dataCount [p]
    by_cases hi : p.isInstrRead
    · simp only [hi, if_true, dataCount, List.countP_cons, List.countP_nil, Bool.not_true,
        Bool.false_eq_true, gap]
      push_cast; ring
    · simp only [hi, if_false, Bool.false_eq_true, dataCount, List.countP_cons, List.countP_nil,
        Bool.not_false, gap, cast_dec64]
      push_cast; ring
  · split_ifs
    · exact hp
    · exact Nat.mod_lt _ (Nat.two_pow_pos 64)

/-- Issuing a data packet adds one to the gap: the packet comes back at once,
is parked, or is in flight. -/
theorem issueRequest_gap {translate : Nat → Translation} {p : MemPacket}
    (h : s.issueRequest heap translate p = .ok s') :
    s'.gap = s.gap + dataCount [p] ∧ (s.pendingDataRequests < 2 ^ 64 → s'.pendingDataRequests < 2 ^ 64) := by
  rcases issueRequest_cases h with ⟨-, h⟩ | ⟨-, rfl⟩ | ⟨p', hi, -, -, -, rfl⟩
  · obtain ⟨hg, hb⟩ := receiver_gap h
    exact ⟨hg.trans rfl, hb⟩
  · refine ⟨?_, id⟩
    simp only [gap, outstanding, dataCount_perm (OrderedMap.values_pushBack_perm _ _ _), dataCount_append]
    push_cast; ring
  · refine ⟨?_, fun hp => by rwa [send_pendingDataRequests]⟩
    rw [gap, outstanding_send, send_pendingDataRequests]
    simp only [dataCount, List.countP_cons, List.countP_nil, hi]
    simp only [gap, outstanding]; push_cast; ring

theorem issueAll_gap {translate : Nat → Translation} :
    ∀ {ps : List MemPacket} {s s' : MMU}, issueAll heap translate ps s = .ok s' →
      s'.gap = s.gap + dataCount ps ∧ (s.pendingDataRequests < 2 ^ 64 → s'.pendingDataRequests < 2 ^ 64)
  | [], s, s', h => by cases h; simp
  | p :: rest, s, s', h => by
    obtain ⟨s₁, h₁, h₂⟩ := bind_eq_ok.1 h
    obtain ⟨hg₁, hb₁⟩ := issueRequest_gap h₁
    obtain ⟨hg₂, hb₂⟩ := issueAll_gap h₂
    refine ⟨?_, hb₂ ∘ hb₁⟩
    rw [hg₂, hg₁, show p :: rest = [p] ++ rest from rfl, dataCount_append]
    push_cast; ring

/-- Issuing with a settled translation for `v` parks nothing under `v`. -/
theorem issueRequest_find? {translate : Nat → Translation} {p : MemPacket} {v : Nat}
    (hv : translate v ≠ .pending) (h : s.issueRequest heap translate p = .ok s') :
    s'.pendingRequests.find? v = s.pendingRequests.find? v := by
  rcases issueRequest_cases h with ⟨-, h⟩ | ⟨hp, rfl⟩ | ⟨p', -, -, -, -, rfl⟩
  · exact congrArg (·.find? v) (receiver_keeps h).pendingRequests
  · have : v ≠ p.vaddr := fun he => hv (he ▸ hp)
    simp only [OrderedMap.find?_pushBack, this, if_false]
  · unfold send; split_ifs <;> rfl

theorem issueAll_find? {translate : Nat → Translation} {v : Nat} (hv : translate v ≠ .pending) :
    ∀ {ps : List MemPacket} {s s' : MMU}, issueAll heap translate ps s = .ok s' →
      s'.pendingRequests.find? v = s.pendingRequests.find? v
  | [], s, s', h => by cases h; rfl
  | p :: rest, s, s', h => by
    obtain ⟨s₁, h₁, h₂⟩ := bind_eq_ok.1 h
    exact (issueAll_find? hv h₂).trans (issueRequest_find? hv h₁)

/-! ## The tick -/

section Tick

variable {translate : Nat → Translation} {isStore : Bool} {limit : Nat}

theorem processPackets_gap :
    ∀ {pkts : List MemPacket} {used : Nat} {s : MMU} {r : List MemPacket × Nat × MMU},
      processPackets heap translate isStore limit pkts used s = .ok r →
      ∃ pre, pkts = pre ++ r.1 ∧ r.2.2.gap = s.gap + dataCount pre ∧
        (s.pendingDataRequests < 2 ^ 64 → r.2.2.pendingDataRequests < 2 ^ 64)
  | [], used, s, r, h => by cases h; exact ⟨[], rfl, by simp, id⟩
  | pkt :: rest, used, s, r, h => by
    unfold processPackets at h
    split at h
    · obtain ⟨s₁, h₁, h⟩ := bind_eq_ok.1 h
      obtain ⟨s₂, h₂, h₃⟩ := bind_eq_ok.1 h
      have hk : KeepsTraffic s s₁ := by
        split at h₁
        · exact issueLastStorePacket_keeps h₁
        · cases h₁; exact KeepsTraffic.refl s
      obtain ⟨hg₂, hb₂⟩ := issueRequest_gap h₂
      obtain ⟨pre, hpre, hg, hb⟩ := processPackets_gap h₃
      refine ⟨pkt :: pre, by rw [hpre]; rfl, ?_, fun hp => hb (hb₂ (hk.pendingDataRequests ▸ hp))⟩
      rw [hg, hg₂, hk.gap_eq, show pkt :: pre = [pkt] ++ pre from rfl, dataCount_append]
      push_cast; ring
    · cases h; exact ⟨[], rfl, by simp, id⟩

theorem processInsns_gap :
    ∀ {insns : List (List MemPacket)} {used : Nat} {s : MMU} {r : List (List MemPacket) × MMU},
      processInsns heap translate isStore limit insns used s = .ok r →
      ∃ issued, insns.flatten = issued ++ r.1.flatten ∧ r.2.gap = s.gap + dataCount issued ∧
        (s.pendingDataRequests < 2 ^ 64 → r.2.pendingDataRequests < 2 ^ 64)
  | [], used, s, r, h => by cases h; exact ⟨[], rfl, by simp, id⟩
  | insn :: rest, used, s, r, h => by
    obtain ⟨⟨left, used₁, s₁⟩, h₁, h⟩ := bind_eq_ok.1 h
    obtain ⟨pre, hpre, hg₁, hb₁⟩ := processPackets_gap h₁
    dsimp only at hpre hg₁ hb₁ h
    split at h
    · rename_i hleft
      rw [List.isEmpty_iff.1 hleft, List.append_nil] at hpre
      subst hpre
      obtain ⟨issued, hfl, hg, hb⟩ := processInsns_gap h
      refine ⟨insn ++ issued, by simp [hfl], ?_, hb ∘ hb₁⟩
      rw [hg, hg₁, dataCount_append]; push_cast; ring
    · cases h
      exact ⟨pre, by simp [hpre], hg₁, hb₁⟩

end Tick

variable {limits : Limits} {translate : Nat → Translation}

/-- `processRequests` takes the issued packets off the queue, so the gap
they added is gone again. -/
theorem processRequests_gap {b : Bool} (h : s.processRequests limits heap translate b = .ok s') :
    s'.gap = s.gap ∧ (s.pendingDataRequests < 2 ^ 64 → s'.pendingDataRequests < 2 ^ 64) := by
  obtain ⟨⟨queue, s₁⟩, h₁, h⟩ := bind_eq_ok.1 h
  cases h
  obtain ⟨issued, hfl, hg, hb⟩ := processInsns_gap h₁
  obtain ⟨issued', -, -, -, hls⟩ := processInsns_resumes h₁ (Nat.zero_le _) (Nat.two_pow_pos 64)
  dsimp only at hfl hg hb hls
  refine ⟨?_, hb⟩
  have hq : dataCount (s.loadsStores b).flatten = dataCount issued + dataCount queue.flatten := by
    rw [hfl, dataCount_append]
  simp only [gap, outstanding] at hg ⊢
  rw [hls] at hg
  cases b
  · have h₁ : Function.update s₁.loadsStores LD queue LD = queue := Function.update_same _ _ _
    have h₂ : Function.update s₁.loadsStores LD queue STR = s.loadsStores STR := by
      rw [Function.update_noteq (by decide), hls]
    rw [h₁, h₂]
    rw [show dataCount (s.loadsStores LD).flatten = _ from hq] at hg ⊢
    push_cast at hg ⊢
    linear_combination hg
  · have h₁ : Function.update s₁.loadsStores STR queue STR = queue := Function.update_same _ _ _
    have h₂ : Function.update s₁.loadsStores STR queue LD = s.loadsStores LD := by
      rw [Function.update_noteq (by decide), hls]
    rw [h₁, h₂]
    rw [show dataCount (s.loadsStores STR).flatten = _ from hq] at hg ⊢
    push_cast at hg ⊢
    linear_combination hg

theorem tick_gap (h : s.tick limits heap translate = .ok s') :
    s'.gap = s.gap ∧ (s.pendingDataRequests < 2 ^ 64 → s'.pendingDataRequests < 2 ^ 64) := by
  unfold tick at h
  split at h
  · exact processRequests_gap h
  · obtain ⟨s₁, h₁, h₂⟩ := bind_eq_ok.1 h
    obtain ⟨hg₁, hb₁⟩ := processRequests_gap h₁
    obtain ⟨hg₂, hb₂⟩ := processRequests_gap h₂
    exact ⟨hg₂.trans hg₁, hb₂ ∘ hb₁⟩

/-! ## Requests -/

/-- Marking packets atomic keeps their kinds. -/
theorem dataCount_markAtomic (c : Bool) (ps : List MemPacket) :
    dataCount (if c then ps.map fun p => { p with isAtomic := true } else ps) = dataCount ps := by
  split
  · simp only [dataCount, List.countP_map]; rfl
  · rfl

/-- A request adds its packets to the queue and the same number to the
counter, below `2^16`. -/
theorem gap_request {b : Bool} {s₁ : MMU} {pk : List MemPacket} (n : Nat) (hn : n < 2 ^ 16)
    (hd : dataCount pk = n) (hq : s₁.loadsStores = s.loadsStores) (hp : s₁.pendingRequests = s.pendingRequests)
    (hf : s₁.inFlight = s.inFlight) (hc : s₁.pendingDataRequests = s.pendingDataRequests) :
    ({ s₁ with
      loadsStores := Function.update s₁.loadsStores b (s₁.loadsStores b ++ [pk])
      pendingDataRequests := (s₁.pendingDataRequests + n % 2 ^ 16) % 2 ^ 64 } : MMU).gap = s.gap := by
  simp only [gap, outstanding, hq, hp, hf, hc, ZMod.natCast_mod, Nat.mod_eq_of_lt hn]
  cases b <;> simp only [Function.update_same, Function.update_noteq, ne_eq, Bool.false_eq_true,
    Bool.true_eq_false, not_false_eq_true, List.flatten_append, List.flatten_cons, List.flatten_nil,
    List.append_nil, dataCount_append, hd] <;> push_cast <;> ring

theorem requestRead_gap {uop : Nat} {r : Bool × MMU} (h : s.requestRead limits heap uop = .ok r)
    (hsmall : (Call.requestRead uop).requestPackets limits heap < 2 ^ 16) :
    r.2.gap = s.gap ∧ (s.pendingDataRequests < 2 ^ 64 → r.2.pendingDataRequests < 2 ^ 64) := by
  unfold requestRead at h
  split at h
  · obtain ⟨⟨packets, s₁⟩, hc, h⟩ := bind_eq_ok.1 h
    obtain ⟨rr, hs₁⟩ := createReads_eq hc
    obtain ⟨new, hout, hlen, hdata⟩ := createReads_packets hc
    cases h
    simp only [List.nil_append] at hs₁ hout
    subst hs₁ hout
    refine ⟨?_, fun _ => Nat.mod_lt _ (Nat.two_pow_pos 64)⟩
    have hlt : packets.length < 2 ^ 16 := hlen ▸ hsmall
    have hlen' : (if (heap uop).isLoadReserved then packets.map fun p => { p with isAtomic := true }
        else packets).length = packets.length := by split <;> simp
    rw [hlen']
    exact gap_request _ hlt (by rw [dataCount_markAtomic, dataCount_of_data hdata]) rfl rfl rfl rfl
  · cases h; exact ⟨rfl, id⟩

theorem requestWrite_gap {uop : Nat} {data : List RegisterValue} {r : Bool × MMU}
    (h : s.requestWrite limits heap uop data = .ok r)
    (hsmall : (Call.requestWrite uop data).requestPackets limits heap < 2 ^ 16) :
    r.2.gap = s.gap ∧ (s.pendingDataRequests < 2 ^ 64 → r.2.pendingDataRequests < 2 ^ 64) := by
  unfold requestWrite at h
  split at h
  · dsimp only at h
    split at h
    · cases h
    · rename_i hlen
      obtain ⟨packets, hc, h⟩ := bind_eq_ok.1 h
      obtain ⟨new, hout, hcount, hdata⟩ := createWrites_packets hc
      cases h
      simp only [List.nil_append] at hout
      subst hout
      refine ⟨?_, fun _ => Nat.mod_lt _ (Nat.two_pow_pos 64)⟩
      have hzip : ((heap uop).generatedAddresses.zip data).map (fun t => packetCount limits.cacheLineWidth t.1) =
          (heap uop).generatedAddresses.map (packetCount limits.cacheLineWidth) := by
        rw [show (fun t : MemoryAccessTarget × RegisterValue => packetCount limits.cacheLineWidth t.1) =
          packetCount limits.cacheLineWidth ∘ Prod.fst from rfl, ← List.map_map, List.map_fst_zip _ _ (by omega)]
      have hlt : packets.length < 2 ^ 16 := by rw [hcount, hzip]; exact hsmall
      have hlen' : (if (heap uop).isStoreCond then packets.map fun p => { p with isAtomic := true }
          else packets).length = packets.length := by split <;> simp
      rw [hlen']
      exact gap_request _ hlt (by rw [dataCount_markAtomic, dataCount_of_data hdata]) rfl rfl rfl rfl
  · cases h; exact ⟨rfl, id⟩

/-- The untimed write issues as many packets as it counts, whatever comes
back on the way. -/
theorem requestWriteTarget_gap {t : MemoryAccessTarget} {d : RegisterValue}
    (h : s.requestWriteTarget limits heap translate t d = .ok s') :
    s'.gap = s.gap ∧ (s.pendingDataRequests < 2 ^ 64 → s'.pendingDataRequests < 2 ^ 64) := by
  obtain ⟨dt, -, h⟩ := bind_eq_ok.1 h
  obtain ⟨pktVec, hc, h⟩ := bind_eq_ok.1 h
  obtain ⟨s₁, h₁, h⟩ := bind_eq_ok.1 h
  cases h
  obtain ⟨new, hpk, -, hdata⟩ := createWriteMemPackets_packets hc
  rw [List.nil_append] at hpk
  subst hpk
  obtain ⟨hg, -⟩ := issueAll_gap h₁
  refine ⟨?_, fun _ => Nat.mod_lt _ (Nat.two_pow_pos 64)⟩
  have hd : dataCount (pktVec.take (pktVec.length % 2 ^ 16)) = pktVec.length % 2 ^ 16 := by
    rw [dataCount_of_data fun p hp => hdata p (List.mem_of_mem_take hp), List.length_take]
    exact Nat.min_eq_left (Nat.mod_le _ _)
  rw [hd] at hg
  simp only [gap, outstanding, ZMod.natCast_mod] at hg ⊢
  push_cast at hg ⊢
  linear_combination hg

theorem requestInstrRead_gap {t : MemoryAccessTarget} (h : s.requestInstrRead limits heap translate t = .ok s') :
    s'.gap = s.gap ∧ (s.pendingDataRequests < 2 ^ 64 → s'.pendingDataRequests < 2 ^ 64) := by
  obtain ⟨aligned, -, h⟩ := bind_eq_ok.1 h
  split at h
  · obtain ⟨hg, hb⟩ := issueRequest_gap h
    exact ⟨by rw [hg]; simp [dataCount], hb⟩
  · cases h

/-! ## Translations and responses -/

/-- The packets parked under an address leave `pendingRequests_` as they are
issued again. -/
theorem supplyDelayedTranslation_gap {v pa : Nat}
    (h : s.supplyDelayedTranslation heap translate v pa = .ok s') :
    s'.gap = s.gap ∧ (s.pendingDataRequests < 2 ^ 64 → s'.pendingDataRequests < 2 ^ 64) := by
  unfold supplyDelayedTranslation at h
  split at h
  · cases h; exact ⟨rfl, id⟩
  · rename_i requests hfind
    split at h
    · cases h
    · rename_i hv
      obtain ⟨s₁, h₁, h⟩ := bind_eq_ok.1 h
      cases h
      obtain ⟨hg, hb⟩ := issueAll_gap h₁
      have hf : s₁.pendingRequests.find? v = some requests := (issueAll_find? hv h₁).trans hfind
      have hperm := dataCount_perm (OrderedMap.values_erase_perm s₁.pendingRequests v)
      rw [hf, Option.getD_some, dataCount_append] at hperm
      refine ⟨?_, hb⟩
      simp only [gap, outstanding] at hg ⊢
      rw [← hperm] at hg
      push_cast at hg ⊢
      linear_combination hg

theorem dataCount_eraseIdx {l : List MemPacket} {k : Nat} {p : MemPacket} (h : l[k]? = some p) :
    dataCount l = dataCount (l.eraseIdx k) + dataCount [p] := by
  obtain ⟨hk, rfl⟩ := List.getElem?_eq_some_iff.1 h
  conv_lhs => rw [← List.take_append_drop k l, List.drop_eq_getElem_cons hk]
  rw [List.eraseIdx_eq_take_drop_succ, dataCount_append, dataCount_append,
    show l[k] :: l.drop (k + 1) = [l[k]] ++ l.drop (k + 1) from rfl, dataCount_append]
  omega

/-- A response leaves the memory and reaches the receiver. -/
theorem respond_gap {k : Nat} {payload : List UInt8} {failed : Bool}
    (h : s.respond heap k payload failed = .ok s') :
    s'.gap = s.gap ∧ (s.pendingDataRequests < 2 ^ 64 → s'.pendingDataRequests < 2 ^ 64) := by
  unfold respond at h
  split at h
  · cases h; exact ⟨rfl, id⟩
  · rename_i packet hk
    obtain ⟨hg, hb⟩ := receiver_gap h
    refine ⟨?_, hb⟩
    have hd : dataCount [if packet.isRead then { packet with payload := payload }
        else { packet with hasFailed := failed }] = dataCount [packet] := by split <;> rfl
    rw [hg, hd]
    simp only [gap, outstanding, dataCount_eraseIdx hk]
    push_cast; ring

/-! ## Runs -/

theorem step_counted {c : Call} (hc : c.requestPackets limits heap < 2 ^ 16) (hs : Counted s)
    (h : s.step limits heap c = .ok s') : Counted s' := by
  have key : s'.gap = s.gap ∧ (s.pendingDataRequests < 2 ^ 64 → s'.pendingDataRequests < 2 ^ 64) := by
    cases c with
    | requestRead uop => obtain ⟨r, hr, rfl⟩ := map_eq_ok.1 h; exact requestRead_gap hr hc
    | requestWrite uop data => obtain ⟨r, hr, rfl⟩ := map_eq_ok.1 h; exact requestWrite_gap hr hc
    | requestWriteTarget translate t d => exact requestWriteTarget_gap h
    | requestInstrRead translate t => exact requestInstrRead_gap h
    | tick translate => exact tick_gap h
    | supplyDelayedTranslation translate v pa => exact @supplyDelayedTranslation_gap s s' heap translate v pa h
    | respond k payload failed => exact respond_gap h
    | clearCompletedIntrReads => cases h; exact ⟨rfl, id⟩
  exact ⟨key.1.trans hs.gap_eq, key.2 hs.lt⟩

/-- Every run from the new MMU whose requests make fewer than `2^16` packets
each keeps the counter matched. -/
theorem run_counted {calls : List Call} (hsmall : ∀ c ∈ calls, c.requestPackets limits heap < 2 ^ 16)
    (h : run limits heap calls {} = .ok s) : Counted s :=
  run_inv_of (fun _ _ _ hc hs hst => step_counted hc hs hst) hsmall ⟨by simp [gap, outstanding, OrderedMap.values, OrderedMap.empty], by norm_num⟩ h

/-- The outstanding-request counter: after every run from the new MMU whose
requests make fewer than `2^16` packets each, `pendingDataRequests_` is the
number of data packets queued, parked or in flight, modulo `2^64`; while
fewer than `2^64` are outstanding it is that number, and
`hasPendingRequests()` is false exactly when none is. -/
theorem pendingDataRequests_exact (limits : Limits) (heap : Heap) {calls : List Call} {s : MMU}
    (hsmall : ∀ c ∈ calls, c.requestPackets limits heap < 2 ^ 16) (h : run limits heap calls {} = .ok s) :
    s.pendingDataRequests = s.outstanding % 2 ^ 64 ∧
      (s.outstanding < 2 ^ 64 →
        s.pendingDataRequests = s.outstanding ∧ (s.hasPendingRequests = false ↔ s.outstanding = 0)) := by
  have hc : Counted s := run_counted hsmall h
  have he : ((s.pendingDataRequests : Nat) : ZMod (2 ^ 64)) = s.outstanding :=
    (sub_eq_zero.1 hc.gap_eq).symm
  have h₁ : s.pendingDataRequests = s.outstanding % 2 ^ 64 := by
    have := congrArg ZMod.val he
    rwa [ZMod.val_natCast, ZMod.val_natCast, Nat.mod_eq_of_lt hc.lt] at this
  refine ⟨h₁, fun hlt => ?_⟩
  rw [Nat.mod_eq_of_lt hlt] at h₁
  exact ⟨h₁, by simp [hasPendingRequests, h₁]⟩

/-- Load 1 is queued and its first packet sent; an untimed write of
`access3C` aborts, so its two packets come back before they are counted;
the memory answers the load's first packet. -/
def countRun : List Call :=
  [.requestRead 1, .tick fun _ => .ok 0, .requestWriteTarget (fun _ => .dataAbort) access3C [1, 2, 3, 4, 5, 6, 7, 8],
   .respond 0 [9, 9, 9, 9] false]

theorem countRun_exact :
    ∃ s, run capsLimits capsHeap countRun {} = .ok s ∧ s.pendingDataRequests = s.outstanding % 2 ^ 64 ∧
      (s.outstanding < 2 ^ 64 →
        s.pendingDataRequests = s.outstanding ∧ (s.hasPendingRequests = false ↔ s.outstanding = 0)) :=
  ⟨_, rfl, pendingDataRequests_exact capsLimits capsHeap (by decide)
    (show run capsLimits capsHeap countRun {} = _ from rfl)⟩

end MMU

end SimEng.Memory
