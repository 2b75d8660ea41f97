import SimEng.Memory.MMU

/-!
# SimEng — the MMU's request limits and bandwidths

`requestRead` and `requestWrite` refuse an instruction when a request limit
would be passed, and change nothing then. `tick` issues the queued packets of
each kind in order, within the kind's byte bandwidth; an instruction issued
in part stays at the head of its queue with its remaining packets, so the next
tick resumes it first.

Main results:

* `requestRead_refused`, `requestWrite_refused` — a refused request leaves
  the state as it was;
* `processInsns_resumes` — one kind's issue is a prefix of its queue, in
  order, within its bandwidth (`Resumes`);
* `tick_issues` — a tick issues the stores, then the loads, each so;
* `run_withinLimits` — every run from the new MMU keeps the queue bounds
  (`WithinLimits`).
-/

namespace SimEng.Memory

open MemPacket

/-- The total size of a list of packets. -/
def bytes (ps : List MemPacket) : Nat := (ps.map MemPacket.size).sum

@[simp] theorem bytes_nil : bytes [] = 0 := rfl

@[simp] theorem bytes_append (a b : List MemPacket) : bytes (a ++ b) = bytes a + bytes b := by
  induction a with
  | nil => simp [bytes]
  | cons p rest ih => simp only [bytes, List.cons_append, List.map_cons, List.sum_cons] at ih ⊢; omega

@[simp] theorem bytes_cons (p : MemPacket) (ps : List MemPacket) : bytes (p :: ps) = p.size + bytes ps := by
  simp [bytes]

/-- What issuing leaves of a queue: either every packet was issued and the
queue is empty, or the issue stopped inside instruction `m` after its first
packets `pre`; then what is left is the rest `suf` of that instruction,
followed by the instructions after it as they were. The packets issued are
the queue's first packets, in order. -/
def Resumes (before : List (List MemPacket)) (issued : List MemPacket) (after : List (List MemPacket)) :
    Prop :=
  (after = [] ∧ issued = before.flatten) ∨
    ∃ m pre suf, before[m]? = some (pre ++ suf) ∧ after = suf :: before.drop (m + 1) ∧
      issued = (before.take m).flatten ++ pre

namespace Resumes

variable {before after : List (List MemPacket)} {issued : List MemPacket}

/-- A queue nothing was issued from. -/
theorem refl (q : List (List MemPacket)) : Resumes q [] q := by
  cases q with
  | nil => exact .inl ⟨rfl, rfl⟩
  | cons i rest => exact .inr ⟨0, [], i, by simp, rfl, rfl⟩

theorem flatten_eq (h : Resumes before issued after) : before.flatten = issued ++ after.flatten := by
  rcases h with ⟨rfl, rfl⟩ | ⟨m, pre, suf, hm, rfl, rfl⟩
  · simp
  · obtain ⟨hlt, heq⟩ := List.getElem?_eq_some_iff.1 hm
    have hsplit := List.take_append_drop m before
    rw [List.drop_eq_getElem_cons hlt, heq] at hsplit
    conv_lhs => rw [← hsplit]
    simp

theorem length_le (h : Resumes before issued after) : after.length ≤ before.length := by
  rcases h with ⟨rfl, -⟩ | ⟨m, pre, suf, hm, rfl, -⟩
  · exact Nat.zero_le _
  · have := (List.getElem?_eq_some_iff.1 hm).1
    simp only [List.length_cons, List.length_drop]; omega

theorem eq_nil (h : Resumes [] issued after) : after = [] := by
  rcases h with ⟨rfl, -⟩ | ⟨m, pre, suf, hm, -, -⟩
  · rfl
  · simp at hm

/-- Issuing one whole instruction, then resuming the rest. -/
theorem cons_of_all {insn : List MemPacket} {rest : List (List MemPacket)} (h : Resumes rest issued after) :
    Resumes (insn :: rest) (insn ++ issued) after := by
  rcases h with ⟨rfl, rfl⟩ | ⟨m, pre, suf, hm, rfl, rfl⟩
  · exact .inl ⟨rfl, rfl⟩
  · exact .inr ⟨m + 1, pre, suf, by simpa using hm, rfl, by simp⟩

end Resumes

namespace MMU

variable {limits : Limits} {heap : Heap}

/-! ## Refusal -/

/-- `requestRead` answers whether it admitted the load; a refused request
leaves the state as it was. -/
theorem requestRead_refused {s : MMU} {uop : Nat} {r : Bool × MMU}
    (h : s.requestRead limits heap uop = .ok r) (hr : r.1 = false) : r.2 = s := by
  unfold requestRead at h
  split at h
  · obtain ⟨⟨packets, s₁⟩, -, h⟩ := bind_eq_ok.1 h
    cases h; cases hr
  · cases h; rfl

theorem requestWrite_refused {s : MMU} {uop : Nat} {data : List RegisterValue} {r : Bool × MMU}
    (h : s.requestWrite limits heap uop data = .ok r) (hr : r.1 = false) : r.2 = s := by
  unfold requestWrite at h
  split at h
  · dsimp only at h
    split at h
    · cases h
    · obtain ⟨packets, -, h⟩ := bind_eq_ok.1 h
      cases h; cases hr
  · cases h; rfl

/-- An admitted load is queued last; a refused one changes nothing. -/
theorem requestRead_loadsStores {s : MMU} {uop : Nat} {r : Bool × MMU}
    (h : s.requestRead limits heap uop = .ok r) :
    (s.admits limits LD = true ∧ ∃ pk, r.2.loadsStores = Function.update s.loadsStores LD (s.loadsStores LD ++ [pk])) ∨
      (s.admits limits LD = false ∧ r.2 = s) := by
  unfold requestRead at h
  split at h
  · obtain ⟨⟨packets, s₁⟩, hc, h⟩ := bind_eq_ok.1 h
    obtain ⟨rr, hs₁⟩ := createReads_eq hc
    cases h
    dsimp only at hs₁
    subst hs₁
    exact .inl ⟨‹_›, _, rfl⟩
  · cases h; exact .inr ⟨Bool.eq_false_iff.2 ‹_›, rfl⟩

/-- An admitted store is queued last; a refused one changes nothing. -/
theorem requestWrite_loadsStores {s : MMU} {uop : Nat} {data : List RegisterValue} {r : Bool × MMU}
    (h : s.requestWrite limits heap uop data = .ok r) :
    (s.admits limits STR = true ∧ ∃ pk, r.2.loadsStores = Function.update s.loadsStores STR (s.loadsStores STR ++ [pk])) ∨
      (s.admits limits STR = false ∧ r.2 = s) := by
  unfold requestWrite at h
  split at h
  · dsimp only at h
    split at h
    · cases h
    · obtain ⟨packets, -, h⟩ := bind_eq_ok.1 h
      cases h
      exact .inl ⟨‹_›, _, rfl⟩
  · cases h; exact .inr ⟨Bool.eq_false_iff.2 ‹_›, rfl⟩

/-! ## Issue within the bandwidth -/

section Issue

variable {translate : Nat → Translation} {isStore : Bool} {limit : Nat}

/-- The inner loop issues a prefix `pre` of the instruction's packets, in
order, and the bandwidth used grows by its size as a `uint64_t`, staying
within the limit. -/
theorem processPackets_spec :
    ∀ {pkts : List MemPacket} {used : Nat} {s : MMU} {r : List MemPacket × Nat × MMU},
      processPackets heap translate isStore limit pkts used s = .ok r → used ≤ limit → used < 2 ^ 64 →
      ∃ pre, pkts = pre ++ r.1 ∧ r.2.1 = (used + bytes pre) % 2 ^ 64 ∧ r.2.1 ≤ limit ∧
        r.2.2.issued = s.issued ++ pre ∧ r.2.2.loadsStores = s.loadsStores
  | [], used, s, r, h, hl, hu => by
    cases h; exact ⟨[], rfl, by rw [bytes_nil, Nat.add_zero, Nat.mod_eq_of_lt hu], hl, by simp, rfl⟩
  | pkt :: rest, used, s, r, h, hl, hu => by
    unfold processPackets at h
    split at h
    · rename_i hfit
      obtain ⟨s₁, h₁, h⟩ := bind_eq_ok.1 h
      obtain ⟨s₂, h₂, h₃⟩ := bind_eq_ok.1 h
      have hk : KeepsTraffic s s₁ := by
        split at h₁
        · exact issueLastStorePacket_keeps h₁
        · cases h₁; exact KeepsTraffic.refl s
      obtain ⟨pre, hpre, hused, hle, hiss, hls⟩ :=
        processPackets_spec h₃ hfit (Nat.mod_lt _ (Nat.two_pow_pos 64))
      refine ⟨pkt :: pre, by rw [hpre]; rfl, ?_, hle, ?_, ?_⟩
      · rw [hused, bytes_cons, Nat.mod_add_mod, Nat.add_assoc]
      · rw [hiss, issueRequest_issued h₂, hk.issued]; simp
      · rw [hls, issueRequest_loadsStores h₂, hk.loadsStores]
    · cases h; exact ⟨[], rfl, by rw [bytes_nil, Nat.add_zero, Nat.mod_eq_of_lt hu], hl, by simp, rfl⟩

/-- The outer loop issues a prefix of the queue, in order, within the
bandwidth, and leaves what `Resumes` describes. -/
theorem processInsns_resumes :
    ∀ {insns : List (List MemPacket)} {used : Nat} {s : MMU} {r : List (List MemPacket) × MMU},
      processInsns heap translate isStore limit insns used s = .ok r → used ≤ limit → used < 2 ^ 64 →
      ∃ issued, Resumes insns issued r.1 ∧ (used + bytes issued) % 2 ^ 64 ≤ limit ∧
        r.2.issued = s.issued ++ issued ∧ r.2.loadsStores = s.loadsStores
  | [], used, s, r, h, hl, hu => by
    cases h; exact ⟨[], .inl ⟨rfl, rfl⟩, by rwa [bytes_nil, Nat.add_zero, Nat.mod_eq_of_lt hu], by simp, rfl⟩
  | insn :: rest, used, s, r, h, hl, hu => by
    obtain ⟨⟨left, used₁, s₁⟩, h₁, h⟩ := bind_eq_ok.1 h
    obtain ⟨pre, hpre, hused, hle, hiss, hls⟩ := processPackets_spec h₁ hl hu
    dsimp only at hpre hused hle hiss hls h
    split at h
    · rename_i hleft
      rw [List.isEmpty_iff.1 hleft, List.append_nil] at hpre
      subst hpre
      obtain ⟨issued, hres, hbw, hiss', hls'⟩ :=
        processInsns_resumes h hle (hused ▸ Nat.mod_lt _ (Nat.two_pow_pos 64))
      refine ⟨insn ++ issued, hres.cons_of_all, ?_, by rw [hiss', hiss, List.append_assoc], hls'.trans hls⟩
      rw [bytes_append, ← Nat.add_assoc]
      rwa [hused, Nat.mod_add_mod] at hbw
    · cases h
      refine ⟨pre, .inr ⟨0, pre, left, by simp [hpre], rfl, by simp⟩, ?_, hiss, hls⟩
      rwa [← hused]

end Issue

section Tick

variable {translate : Nat → Translation}

/-- `processRequests` issues a prefix of its kind's queue within the kind's
bandwidth, and leaves the other queue alone. -/
theorem processRequests_resumes {s s' : MMU} {b : Bool}
    (h : s.processRequests limits heap translate b = .ok s') :
    ∃ issued, Resumes (s.loadsStores b) issued (s'.loadsStores b) ∧
      bytes issued % 2 ^ 64 ≤ (if b then limits.storeBandwidth else limits.loadBandwidth) ∧
      s'.issued = s.issued ++ issued ∧ s'.loadsStores (!b) = s.loadsStores (!b) := by
  obtain ⟨⟨queue, s₁⟩, h₁, h⟩ := bind_eq_ok.1 h
  cases h
  obtain ⟨issued, hres, hbw, hiss, hls⟩ := processInsns_resumes h₁ (Nat.zero_le _) (Nat.two_pow_pos 64)
  refine ⟨issued, by simpa using hres, by simpa using hbw, hiss, ?_⟩
  show Function.update s₁.loadsStores b queue (!b) = _
  rw [Function.update_noteq (by cases b <;> decide)]
  exact congrFun hls _

/-- A tick issues a prefix of the store queue within the store bandwidth,
then a prefix of the load queue within the load bandwidth. -/
theorem tick_issues {s s' : MMU} (h : s.tick limits heap translate = .ok s') :
    ∃ storesIssued loadsIssued, s'.issued = s.issued ++ storesIssued ++ loadsIssued ∧
      Resumes (s.loadsStores STR) storesIssued (s'.loadsStores STR) ∧
      bytes storesIssued % 2 ^ 64 ≤ limits.storeBandwidth ∧
      Resumes (s.loadsStores LD) loadsIssued (s'.loadsStores LD) ∧
      bytes loadsIssued % 2 ^ 64 ≤ limits.loadBandwidth := by
  unfold tick at h
  split at h
  · obtain ⟨issued, hres, hbw, hiss, hother⟩ := processRequests_resumes h
    generalize ((s.loadsStores STR).length != 0) = b at hres hbw hiss hother
    cases b
    · have hs : s'.loadsStores STR = s.loadsStores STR := hother
      exact ⟨[], issued, by simpa using hiss, hs ▸ Resumes.refl _, by simp, hres, by simpa using hbw⟩
    · have hl : s'.loadsStores LD = s.loadsStores LD := hother
      exact ⟨issued, [], by simpa using hiss, hres, by simpa using hbw, hl ▸ Resumes.refl _, by simp⟩
  · obtain ⟨s₁, h₁, h₂⟩ := bind_eq_ok.1 h
    obtain ⟨st, hres₁, hbw₁, hiss₁, hother₁⟩ := processRequests_resumes h₁
    obtain ⟨ld, hres₂, hbw₂, hiss₂, hother₂⟩ := processRequests_resumes h₂
    have hs : s'.loadsStores STR = s₁.loadsStores STR := hother₂
    have hl : s₁.loadsStores LD = s.loadsStores LD := hother₁
    exact ⟨st, ld, by rw [hiss₂, hiss₁], hs ▸ hres₁, by simpa using hbw₁, hl ▸ hres₂, by simpa using hbw₂⟩

end Tick

/-! ## The queue bounds -/

/-- The bounds the admission checks keep on the queues: each kind under its
own limit; both together under `requestLimit_` when requests are not
exclusive; one kind empty when they are. -/
structure WithinLimits (limits : Limits) (s : MMU) : Prop where
  loads_le : (s.loadsStores LD).length ≤ limits.loadRequestLimit
  stores_le : (s.loadsStores STR).length ≤ limits.storeRequestLimit
  total_le : limits.exclusiveRequests = false →
    (s.loadsStores LD).length + (s.loadsStores STR).length ≤ limits.requestLimit
  exclusive : limits.exclusiveRequests = true → s.loadsStores LD = [] ∨ s.loadsStores STR = []

theorem admits_eq_true {s : MMU} {b : Bool} : s.admits limits b = true ↔
    (limits.exclusiveRequests = true → s.loadsStores (!b) = []) ∧
    (limits.exclusiveRequests = false →
      (s.loadsStores LD).length + (s.loadsStores STR).length < limits.requestLimit) ∧
    (s.loadsStores b).length < (if b then limits.storeRequestLimit else limits.loadRequestLimit) := by
  unfold admits
  cases limits.exclusiveRequests <;> simp

namespace WithinLimits

variable {s s' : MMU}

/-- The bounds only read the queues. -/
theorem of_eq (hs : WithinLimits limits s) (he : s'.loadsStores = s.loadsStores) : WithinLimits limits s' := by
  obtain ⟨h₁, h₂, h₃, h₄⟩ := hs
  exact ⟨he ▸ h₁, he ▸ h₂, he ▸ h₃, he ▸ h₄⟩

/-- Queues that only shrink, and stay empty when empty, keep the bounds. -/
theorem shrink (hs : WithinLimits limits s) (hle : ∀ b, (s'.loadsStores b).length ≤ (s.loadsStores b).length)
    (hnil : ∀ b, s.loadsStores b = [] → s'.loadsStores b = []) : WithinLimits limits s' :=
  ⟨(hle LD).trans hs.loads_le, (hle STR).trans hs.stores_le,
    fun he => by have := hs.total_le he; have := hle LD; have := hle STR; omega,
    fun he => (hs.exclusive he).imp (hnil LD) (hnil STR)⟩

/-- An admitted instruction, queued last, keeps the bounds. -/
theorem queue_admitted {b : Bool} {pk : List MemPacket} (hs : WithinLimits limits s) (ha : s.admits limits b = true)
    (hq : s'.loadsStores = Function.update s.loadsStores b (s.loadsStores b ++ [pk])) :
    WithinLimits limits s' := by
  obtain ⟨hx, ht, hb⟩ := admits_eq_true.1 ha
  obtain ⟨h₁, h₂, h₃, -⟩ := hs
  cases b
  · have hL : (s'.loadsStores LD).length = (s.loadsStores LD).length + 1 := by simp [hq]
    have hS : s'.loadsStores STR = s.loadsStores STR := by simp [hq]
    have hb' : (s.loadsStores LD).length < limits.loadRequestLimit := hb
    exact ⟨by omega, hS ▸ h₂, fun he => by have := ht he; rw [hS]; omega, fun he => .inr (hS.trans (hx he))⟩
  · have hS : (s'.loadsStores STR).length = (s.loadsStores STR).length + 1 := by simp [hq]
    have hL : s'.loadsStores LD = s.loadsStores LD := by simp [hq]
    have hb' : (s.loadsStores STR).length < limits.storeRequestLimit := hb
    exact ⟨hL ▸ h₁, by omega, fun he => by have := ht he; rw [hL]; omega, fun he => .inl (hL.trans (hx he))⟩

end WithinLimits

theorem step_withinLimits {s s' : MMU} {c : Call} (hs : WithinLimits limits s)
    (h : s.step limits heap c = .ok s') : WithinLimits limits s' := by
  cases c with
  | requestRead uop =>
    obtain ⟨r, hr, rfl⟩ := map_eq_ok.1 h
    rcases requestRead_loadsStores hr with ⟨ha, pk, hq⟩ | ⟨-, hq⟩
    · exact hs.queue_admitted ha hq
    · rw [hq]; exact hs
  | requestWrite uop data =>
    obtain ⟨r, hr, rfl⟩ := map_eq_ok.1 h
    rcases requestWrite_loadsStores hr with ⟨ha, pk, hq⟩ | ⟨-, hq⟩
    · exact hs.queue_admitted ha hq
    · rw [hq]; exact hs
  | requestWriteTarget translate t d => exact hs.of_eq (requestWriteTarget_loadsStores h)
  | requestInstrRead translate t => exact hs.of_eq (requestInstrRead_loadsStores h)
  | tick translate =>
    obtain ⟨st, ld, -, hst, -, hld, -⟩ := tick_issues h
    refine hs.shrink (fun b => ?_) (fun b hb => ?_) <;> cases b
    · exact hld.length_le
    · exact hst.length_le
    · rw [hb] at hld; exact hld.eq_nil
    · rw [hb] at hst; exact hst.eq_nil
  | supplyDelayedTranslation translate v pa =>
    exact hs.of_eq (@supplyDelayedTranslation_loadsStores s s' heap translate v pa h)
  | respond k payload failed => exact hs.of_eq (respond_loadsStores h)
  | clearCompletedIntrReads => cases h; exact hs.of_eq rfl

/-- Every run from the new MMU keeps the queue bounds. -/
theorem run_withinLimits {calls : List Call} {s : MMU} (h : run limits heap calls {} = .ok s) :
    WithinLimits limits s :=
  run_inv (fun _ _ _ hs hst => step_withinLimits hs hst) ⟨by simp, by simp, by simp, by simp⟩ h

/-- The MMU's caps: every run from the new MMU keeps the queues within the
request limits; a refused request changes nothing; and a tick issues a prefix
of the store queue, then of the load queue, each in order and within its
byte bandwidth, leaving a partly issued instruction at the head of its
queue. The byte sums are `uint64_t`: the queues hold fewer than `2^64`
bytes. -/
theorem requestCaps_enforced (limits : Limits) (heap : Heap) :
    (∀ calls s, run limits heap calls {} = .ok s → WithinLimits limits s) ∧
    (∀ (s : MMU) uop r, s.requestRead limits heap uop = .ok r → r.1 = false → r.2 = s) ∧
    (∀ (s : MMU) uop data r, s.requestWrite limits heap uop data = .ok r → r.1 = false → r.2 = s) ∧
    (∀ (s s' : MMU) translate, s.tick limits heap translate = .ok s' →
      bytes (s.loadsStores STR).flatten < 2 ^ 64 → bytes (s.loadsStores LD).flatten < 2 ^ 64 →
      ∃ storesIssued loadsIssued, s'.issued = s.issued ++ storesIssued ++ loadsIssued ∧
        Resumes (s.loadsStores STR) storesIssued (s'.loadsStores STR) ∧
        bytes storesIssued ≤ limits.storeBandwidth ∧
        Resumes (s.loadsStores LD) loadsIssued (s'.loadsStores LD) ∧
        bytes loadsIssued ≤ limits.loadBandwidth) := by
  refine ⟨fun _ _ h => run_withinLimits h, fun _ _ _ h hr => requestRead_refused h hr,
    fun _ _ _ _ h hr => requestWrite_refused h hr, fun s s' _ h hst hld => ?_⟩
  obtain ⟨st, ld, hiss, hres₁, hbw₁, hres₂, hbw₂⟩ := tick_issues h
  have hle₁ : bytes st < 2 ^ 64 := by have := hres₁.flatten_eq; rw [this, bytes_append] at hst; omega
  have hle₂ : bytes ld < 2 ^ 64 := by have := hres₂.flatten_eq; rw [this, bytes_append] at hld; omega
  rw [Nat.mod_eq_of_lt hle₁] at hbw₁
  rw [Nat.mod_eq_of_lt hle₂] at hbw₂
  exact ⟨st, ld, hiss, hres₁, hbw₁, hres₂, hbw₂⟩

/-- Eight bytes at `0x3C`, across a 64-byte line. -/
def access3C : MemoryAccessTarget := ⟨0x3C, 8, by decide, by decide⟩

/-- One load and one store at a time, two requests in all, four bytes of
loads per cycle. -/
def capsLimits : Limits :=
  { cacheLineWidth := 64, loadBandwidth := 4, storeBandwidth := 8, requestLimit := 2,
    loadRequestLimit := 1, storeRequestLimit := 1, exclusiveRequests := false }

/-- Every instruction is a load of `access3C`. -/
def capsHeap : Heap := fun _ => { isLoad := true, generatedAddresses := [access3C] }

/-- Load 1 is split in two packets of four bytes; load 2 is refused while
it is queued; the tick issues the first packet only. -/
def capsRun : List Call := [.requestRead 1, .requestRead 2, .tick fun _ => .ok 0]

theorem capsRun_caps :
    (∃ s, run capsLimits capsHeap capsRun {} = .ok s ∧ WithinLimits capsLimits s) ∧
    (∃ s r, run capsLimits capsHeap [.requestRead 1] {} = .ok s ∧
      s.requestRead capsLimits capsHeap 2 = .ok r ∧ r.1 = false ∧ r.2 = s) ∧
    (∃ s s', run capsLimits capsHeap [.requestRead 1] {} = .ok s ∧
      s.tick capsLimits capsHeap (fun _ => .ok 0) = .ok s' ∧
      ∃ storesIssued loadsIssued, s'.issued = s.issued ++ storesIssued ++ loadsIssued ∧
        Resumes (s.loadsStores STR) storesIssued (s'.loadsStores STR) ∧
        bytes storesIssued ≤ capsLimits.storeBandwidth ∧
        Resumes (s.loadsStores LD) loadsIssued (s'.loadsStores LD) ∧
        bytes loadsIssued ≤ capsLimits.loadBandwidth) :=
  ⟨⟨_, rfl, (requestCaps_enforced capsLimits capsHeap).1 _ _
      (show run capsLimits capsHeap capsRun {} = _ from rfl)⟩,
    ⟨_, _, rfl, rfl, rfl, (requestCaps_enforced capsLimits capsHeap).2.1 _ 2 _
      (show MMU.requestRead _ capsLimits capsHeap 2 = _ from rfl) rfl⟩,
    ⟨_, _, rfl, rfl, (requestCaps_enforced capsLimits capsHeap).2.2.2 _ _ (fun _ => .ok 0) rfl
      (by decide) (by decide)⟩⟩

end MMU

end SimEng.Memory
