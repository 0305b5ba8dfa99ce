import BaremetalDhcp.LeaseTable

/-!
# The ARRAY backend

`dhcp_array.c`: leases live in a caller-provided array, a lookup is a scan, and
`alloc_lease` makes one pass with an early exit that collects the client's slot,
the address's slot and a free slot.  The capacity `max_leases` never changes
after `dhcp_arraypool_init`, so it is a parameter of the pool's type and the
array is indexed by `Fin`.

The early exit means that the pass may end before it has seen the client's slot;
`AllocScan.Spec` records what its answer still guarantees.  `arrayOps_refines` is
the result: ARRAY implements the abstract lease pool, with clean-ups of unbounded
batch.
-/

namespace BaremetalDhcp

/-- `dhcp_lease_t`; `in_use` is only ever written 0 or 1. -/
structure DhcpLease extends Lease where
  inUse : Bool

/-- `dhcp_arraypool_t` for a given `max_leases`. -/
structure ArrayPool (maxLeases : UInt16) where
  leases : Fin maxLeases.toNat → DhcpLease
  leaseCount : UInt16
  nextIp : UInt32

section Operations

variable {maxLeases : UInt16}

/-- `dhcp_arraypool_init`, on storage with arbitrary contents. -/
def dhcpArraypoolInit (poolStart : UInt32) (leases : Fin maxLeases.toNat → DhcpLease) :
    ArrayPool maxLeases where
  leases := fun i => { leases i with inUse := false }
  leaseCount := 0
  nextIp := poolStart

/-- One iteration of `dhcp_arraypool_cleanup_expire_lease`. -/
def cleanupSlot {n : ℕ} (curTime : UInt32) (s : (Fin n → DhcpLease) × UInt16) (i : Fin n) :
    (Fin n → DhcpLease) × UInt16 :=
  if (s.1 i).inUse ∧ (s.1 i).expireTime ≤ curTime then
    (Function.update s.1 i { s.1 i with inUse := false }, s.2 - 1)
  else s

/-- `dhcp_arraypool_cleanup_expire_lease`. -/
def dhcpArraypoolCleanupExpireLease (pool : ArrayPool maxLeases) (curTime : UInt32) :
    ArrayPool maxLeases :=
  let cleaned := (List.finRange maxLeases.toNat).foldl (cleanupSlot curTime)
    (pool.leases, pool.leaseCount)
  { pool with leases := cleaned.1, leaseCount := cleaned.2 }

/-- The check at the head of `find_available_ip` and `alloc_lease`. -/
def ArrayPool.purge (pool : ArrayPool maxLeases) (curTime : UInt32) : ArrayPool maxLeases :=
  if pool.leaseCount ≥ maxLeases then dhcpArraypoolCleanupExpireLease pool curTime else pool

/-- `dhcp_arraypool_find_lease`: the slot that the returned pointer points to. -/
def dhcpArraypoolFindLease (pool : ArrayPool maxLeases) (mac : Mac) :
    Option (Fin maxLeases.toNat) :=
  (List.finRange maxLeases.toNat).find? fun i =>
    (pool.leases i).inUse ∧ (pool.leases i).macAddress = mac

/-- The inner loop of `dhcp_arraypool_find_available_ip`. -/
def ArrayPool.leased (pool : ArrayPool maxLeases) (ip : UInt32) : Bool :=
  (List.finRange maxLeases.toNat).any fun i =>
    (pool.leases i).inUse ∧ (pool.leases i).ipAddress = ip

/-- `dhcp_arraypool_find_available_ip`. -/
def dhcpArraypoolFindAvailableIp (pool : ArrayPool maxLeases) (poolStart poolEnd : UInt32)
    (mac : Mac) (curTime : UInt32) : ArrayPool maxLeases × UInt32 :=
  let pool := pool.purge curTime
  match dhcpArraypoolFindLease pool mac with
  | some existing => (pool, (pool.leases existing).ipAddress)
  | none =>
      if pool.leaseCount ≥ maxLeases then (pool, 0)
      else
        let found := searchPool pool.leased poolStart poolEnd pool.nextIp
        ({ pool with nextIp := found.2 }, found.1)

/-- The three pointers that the pass of `dhcp_arraypool_alloc_lease` collects. -/
structure AllocScan (n : ℕ) where
  macMatch : Option (Fin n)
  ipMatch : Option (Fin n)
  freeSlot : Option (Fin n)

/-- The first free slot is kept. -/
def AllocScan.noteFree {n : ℕ} (s : AllocScan n) (i : Fin n) : AllocScan n :=
  { s with freeSlot := if s.freeSlot.isNone then some i else s.freeSlot }

/-- A slot in use is compared with both keys. -/
def AllocScan.noteUsed {n : ℕ} (s : AllocScan n) (leases : Fin n → DhcpLease) (ip : UInt32)
    (mac : Mac) (i : Fin n) : AllocScan n :=
  { s with
    macMatch := if (leases i).macAddress = mac then some i else s.macMatch
    ipMatch := if (leases i).ipAddress = ip then some i else s.ipMatch }

/-- The pass of `dhcp_arraypool_alloc_lease`, with its early exit. -/
def allocScan {n : ℕ} (leases : Fin n → DhcpLease) (ip : UInt32) (mac : Mac) :
    List (Fin n) → AllocScan n → AllocScan n
  | [], s => s
  | i :: is, s =>
      if ¬ (leases i).inUse then allocScan leases ip mac is (s.noteFree i)
      else
        let s := s.noteUsed leases ip mac i
        if (s.macMatch.isSome ∨ s.ipMatch.isSome) ∧ s.freeSlot.isSome then s
        else allocScan leases ip mac is s

/-- `dhcp_arraypool_alloc_lease`. -/
def dhcpArraypoolAllocLease (pool : ArrayPool maxLeases) (ip : UInt32) (mac : Mac)
    (leaseTime curTime : UInt32) : ArrayPool maxLeases × Bool :=
  let pool := pool.purge curTime
  let scan := allocScan pool.leases ip mac (List.finRange maxLeases.toNat) ⟨none, none, none⟩
  match scan.macMatch with
  | some i =>
      if (pool.leases i).ipAddress ≠ ip then (pool, false)
      else
        ({ pool with
            leases := Function.update pool.leases i
              { pool.leases i with expireTime := curTime + leaseTime } }, true)
  | none =>
      match scan.ipMatch with
      | some _ => (pool, false)
      | none =>
          match scan.freeSlot with
          | none => (pool, false)
          | some i =>
              ({ pool with
                  leases := Function.update pool.leases i
                    { ipAddress := ip
                      macAddress := mac
                      expireTime := curTime + leaseTime
                      inUse := true }
                  leaseCount := pool.leaseCount + 1 }, true)

/-- `dhcp_arraypool_decline_lease`. -/
def dhcpArraypoolDeclineLease (pool : ArrayPool maxLeases) (mac : Mac) : ArrayPool maxLeases :=
  match dhcpArraypoolFindLease pool mac with
  | some i =>
      { pool with
        leases := Function.update pool.leases i { pool.leases i with inUse := false }
        leaseCount := pool.leaseCount - 1 }
  | none => pool

/-- The functions that `dhcp_process_message_array` calls. -/
def arrayOps (maxLeases : UInt16) : LeaseOps (ArrayPool maxLeases) where
  findAvailableIp := dhcpArraypoolFindAvailableIp
  allocLease := dhcpArraypoolAllocLease
  declineLease := dhcpArraypoolDeclineLease

/-- `dhcp_init_server_array`. -/
def dhcpInitServerArray (config : DhcpConfig) (leases : Fin maxLeases.toNat → DhcpLease) :
    DhcpServer (ArrayPool maxLeases) where
  config := config
  pool := dhcpArraypoolInit config.poolStart leases

/-- `dhcp_process_message_array`. -/
def dhcpProcessMessageArray (server : DhcpServer (ArrayPool maxLeases)) (a : Arrival) :
    DhcpServer (ArrayPool maxLeases) × Option DhcpMessage :=
  processMessage (arrayOps maxLeases).calls server a

end Operations

/-! ## What an array stores -/

section Slots

variable {n : ℕ}

/-- The slots in use. -/
def usedSlots (leases : Fin n → DhcpLease) : Finset (Fin n) :=
  Finset.univ.filter fun i => (leases i).inUse = true

@[simp] theorem mem_usedSlots {leases : Fin n → DhcpLease} {i : Fin n} :
    i ∈ usedSlots leases ↔ (leases i).inUse = true := by
  simp [usedSlots]

theorem card_usedSlots_le (leases : Fin n → DhcpLease) : (usedSlots leases).card ≤ n := by
  simpa using Finset.card_le_univ (usedSlots leases)

/-- Releasing a slot. -/
theorem usedSlots_release (leases : Fin n → DhcpLease) (i : Fin n) :
    usedSlots (Function.update leases i { leases i with inUse := false }) =
      (usedSlots leases).erase i := by
  ext j
  by_cases hj : j = i
  · subst hj
    simp
  · simp [hj]

/-- The array stores exactly the leases of the table, each in one slot. -/
structure SlotsHold (leases : Fin n → DhcpLease) (T : LeaseTable) : Prop where
  mem_iff : ∀ l, l ∈ T.leases ↔ ∃ i, (leases i).inUse = true ∧ (leases i).toLease = l
  inj : ∀ i j, (leases i).inUse = true → (leases j).inUse = true →
    (leases i).toLease = (leases j).toLease → i = j

namespace SlotsHold

variable {leases : Fin n → DhcpLease} {T : LeaseTable}

theorem mem (h : SlotsHold leases T) {i : Fin n} (hi : (leases i).inUse = true) :
    (leases i).toLease ∈ T.leases :=
  (h.mem_iff _).mpr ⟨i, hi, rfl⟩

theorem slot_of_mac (h : SlotsHold leases T) {i j : Fin n} (hi : (leases i).inUse = true)
    (hj : (leases j).inUse = true) (hmac : (leases i).macAddress = (leases j).macAddress) :
    i = j :=
  h.inj i j hi hj (T.mac_inj _ (h.mem hi) _ (h.mem hj) hmac)

theorem slot_of_ip (h : SlotsHold leases T) {i j : Fin n} (hi : (leases i).inUse = true)
    (hj : (leases j).inUse = true) (hip : (leases i).ipAddress = (leases j).ipAddress) :
    i = j :=
  h.inj i j hi hj (T.ip_inj _ (h.mem hi) _ (h.mem hj) hip)

/-- Counting slots is counting leases. -/
theorem card_filter (h : SlotsHold leases T) (c : Lease → Prop) [DecidablePred c] :
    (T.leases.filter c).card =
      ((usedSlots leases).filter fun i => c (leases i).toLease).card := by
  have himage : T.leases.filter c =
      ((usedSlots leases).filter fun i => c (leases i).toLease).image
        fun i => (leases i).toLease := by
    ext l
    rw [Finset.mem_filter, h.mem_iff, Finset.mem_image]
    constructor
    · rintro ⟨⟨i, hi, rfl⟩, hc⟩
      exact ⟨i, Finset.mem_filter.mpr ⟨mem_usedSlots.mpr hi, hc⟩, rfl⟩
    · rintro ⟨i, hi, rfl⟩
      obtain ⟨hi, hc⟩ := Finset.mem_filter.mp hi
      exact ⟨⟨i, mem_usedSlots.mp hi, rfl⟩, hc⟩
  rw [himage, Finset.card_image_of_injOn]
  intro i hi j hj hij
  rw [Finset.mem_coe, Finset.mem_filter, mem_usedSlots] at hi hj
  exact h.inj i j hi.1 hj.1 hij

theorem card_eq (h : SlotsHold leases T) : T.leases.card = (usedSlots leases).card := by
  simpa using h.card_filter fun _ => True

/-- Marking slots unused keeps the leases of the others. -/
theorem release (h : SlotsHold leases T) {leases' : Fin n → DhcpLease} {c : Lease → Prop}
    [DecidablePred c] (hsame : ∀ i, (leases' i).toLease = (leases i).toLease)
    (huse : ∀ i, (leases' i).inUse = true ↔ (leases i).inUse = true ∧ c (leases i).toLease) :
    SlotsHold leases' (T.keep c) := by
  refine ⟨fun l => ?_, fun i j hi hj hij => ?_⟩
  · rw [LeaseTable.mem_keep, h.mem_iff]
    constructor
    · rintro ⟨⟨i, hi, rfl⟩, hc⟩
      exact ⟨i, (huse i).mpr ⟨hi, hc⟩, hsame i⟩
    · rintro ⟨i, hi, rfl⟩
      rw [hsame]
      exact ⟨⟨i, ((huse i).mp hi).1, rfl⟩, ((huse i).mp hi).2⟩
  · rw [hsame, hsame] at hij
    exact h.inj i j ((huse i).mp hi).1 ((huse j).mp hj).1 hij

/-- Writing a lease over a slot that is free or holds the same client and
address. -/
theorem write (h : SlotsHold leases T) {i : Fin n} {l : Lease}
    (hothers : ∀ j, j ≠ i → (leases j).inUse = true →
      (leases j).macAddress ≠ l.macAddress ∧ (leases j).ipAddress ≠ l.ipAddress)
    (hslot : (leases i).inUse = true →
      (leases i).macAddress = l.macAddress ∧ (leases i).ipAddress = l.ipAddress) :
    SlotsHold (Function.update leases i { l with inUse := true }) (T.put l) := by
  refine ⟨fun x => ?_, fun j k hj hk hjk => ?_⟩
  · rw [LeaseTable.mem_put, h.mem_iff]
    constructor
    · rintro (rfl | ⟨⟨j, hj, rfl⟩, hmac, -⟩)
      · exact ⟨i, by simp, by simp⟩
      · have hji : j ≠ i := fun hji => hmac (hji ▸ (hslot (hji ▸ hj)).1)
        exact ⟨j, by simpa [Function.update_of_ne hji] using hj,
          by simp [Function.update_of_ne hji]⟩
    · rintro ⟨j, hj, rfl⟩
      by_cases hji : j = i
      · exact Or.inl (by simp [hji])
      · rw [Function.update_of_ne hji] at hj ⊢
        exact Or.inr ⟨⟨j, hj, rfl⟩, hothers j hji hj⟩
  · by_cases hji : j = i <;> by_cases hki : k = i
    · exact hji.trans hki.symm
    · subst hji
      rw [Function.update_of_ne hki] at hk hjk
      rw [Function.update_self] at hjk
      exact absurd (congrArg Lease.macAddress hjk).symm (hothers k hki hk).1
    · subst hki
      rw [Function.update_of_ne hji] at hj hjk
      rw [Function.update_self] at hjk
      exact absurd (congrArg Lease.macAddress hjk) (hothers j hji hj).1
    · rw [Function.update_of_ne hji] at hj hjk
      rw [Function.update_of_ne hki] at hk hjk
      exact h.inj j k hj hk hjk

end SlotsHold

/-! ## The pass of `alloc_lease` -/

/-- Every pointer collected so far points where its name says; the client's own
slot is never recorded for its address only. -/
structure AllocScan.Sound (leases : Fin n → DhcpLease) (ip : UInt32) (mac : Mac)
    (s : AllocScan n) : Prop where
  mac_of : ∀ i, s.macMatch = some i → (leases i).inUse = true ∧ (leases i).macAddress = mac
  ip_of : ∀ i, s.ipMatch = some i → (leases i).inUse = true ∧ (leases i).ipAddress = ip
  own : ∀ i, s.ipMatch = some i → (leases i).macAddress = mac → s.macMatch.isSome = true
  free_of : ∀ i, s.freeSlot = some i → (leases i).inUse = false

/-- Nothing among the given slots was overlooked. -/
structure AllocScan.Complete (leases : Fin n → DhcpLease) (ip : UInt32) (mac : Mac)
    (seen : List (Fin n)) (s : AllocScan n) : Prop where
  mac_seen : ∀ i ∈ seen, (leases i).inUse = true → (leases i).macAddress = mac →
    s.macMatch.isSome = true
  ip_seen : ∀ i ∈ seen, (leases i).inUse = true → (leases i).ipAddress = ip →
    s.ipMatch.isSome = true
  free_seen : ∀ i ∈ seen, (leases i).inUse = false → s.freeSlot.isSome = true

/-- What the pass returns: sound pointers, and either one of the two matches or
an answer that overlooked nothing. -/
def AllocScan.Spec (leases : Fin n → DhcpLease) (ip : UInt32) (mac : Mac)
    (seen : List (Fin n)) (s : AllocScan n) : Prop :=
  s.Sound leases ip mac ∧
    ((s.macMatch.isSome = true ∨ s.ipMatch.isSome = true) ∨ s.Complete leases ip mac seen)

section Pass

variable {leases : Fin n → DhcpLease} {ip : UInt32} {mac : Mac} {seen : List (Fin n)}
  {s : AllocScan n} {i : Fin n}

theorem AllocScan.Sound.noteFree (hs : s.Sound leases ip mac)
    (hfree : (leases i).inUse = false) : (s.noteFree i).Sound leases ip mac := by
  refine ⟨hs.mac_of, hs.ip_of, hs.own, fun j hj => ?_⟩
  unfold AllocScan.noteFree at hj
  cases hslot : s.freeSlot with
  | none =>
      obtain rfl : i = j := by simpa [hslot] using hj
      exact hfree
  | some k =>
      obtain rfl : k = j := by simpa [hslot] using hj
      exact hs.free_of k hslot

theorem AllocScan.Complete.noteFree (hc : s.Complete leases ip mac seen)
    (hfree : (leases i).inUse = false) :
    (s.noteFree i).Complete leases ip mac (i :: seen) := by
  have hnot : ¬ (leases i).inUse = true := by simp [hfree]
  refine ⟨fun j hj huse hmac => ?_, fun j hj huse hip => ?_, fun _ _ _ => ?_⟩
  · obtain rfl | hj := List.mem_cons.mp hj
    · exact absurd huse hnot
    · exact hc.mac_seen j hj huse hmac
  · obtain rfl | hj := List.mem_cons.mp hj
    · exact absurd huse hnot
    · exact hc.ip_seen j hj huse hip
  · unfold AllocScan.noteFree
    cases hslot : s.freeSlot <;> simp

theorem AllocScan.Sound.noteUsed (hs : s.Sound leases ip mac)
    (huse : (leases i).inUse = true) : (s.noteUsed leases ip mac i).Sound leases ip mac := by
  unfold AllocScan.noteUsed
  refine ⟨fun j hj => ?_, fun j hj => ?_, fun j hj hmac => ?_, hs.free_of⟩
  · dsimp only at hj
    split_ifs at hj with hmac
    · obtain rfl : i = j := Option.some.inj hj
      exact ⟨huse, hmac⟩
    · exact hs.mac_of j hj
  · dsimp only at hj
    split_ifs at hj with hip
    · obtain rfl : i = j := Option.some.inj hj
      exact ⟨huse, hip⟩
    · exact hs.ip_of j hj
  · dsimp only at hj ⊢
    split_ifs with hi
    · rfl
    · -- both keys are compared in the same iteration
      split_ifs at hj with hip
      · obtain rfl : i = j := Option.some.inj hj
        exact absurd hmac hi
      · exact hs.own j hj hmac

theorem AllocScan.Complete.noteUsed (hc : s.Complete leases ip mac seen)
    (huse : (leases i).inUse = true) :
    (s.noteUsed leases ip mac i).Complete leases ip mac (i :: seen) := by
  unfold AllocScan.noteUsed
  refine ⟨fun j hj huse' hmac => ?_, fun j hj huse' hip => ?_, fun j hj hfree => ?_⟩
  · dsimp only
    split_ifs with hi
    · rfl
    · obtain rfl | hj := List.mem_cons.mp hj
      · exact absurd hmac hi
      · exact hc.mac_seen j hj huse' hmac
  · dsimp only
    split_ifs with hi
    · rfl
    · obtain rfl | hj := List.mem_cons.mp hj
      · exact absurd hip hi
      · exact hc.ip_seen j hj huse' hip
  · obtain rfl | hj := List.mem_cons.mp hj
    · rw [huse] at hfree
      simp at hfree
    · exact hc.free_seen j hj hfree

/-- A pass without a match has seen no slot of the client and none of the address. -/
theorem AllocScan.Complete.fresh (hc : s.Complete leases ip mac seen)
    (hmac : s.macMatch = none) (hip : s.ipMatch = none) (hi : i ∈ seen)
    (huse : (leases i).inUse = true) :
    (leases i).macAddress ≠ mac ∧ (leases i).ipAddress ≠ ip := by
  refine ⟨fun hown => ?_, fun hheld => ?_⟩
  · have hsome := hc.mac_seen i hi huse hown
    rw [hmac] at hsome
    simp at hsome
  · have hsome := hc.ip_seen i hi huse hheld
    rw [hip] at hsome
    simp at hsome

/-- A pass without a free slot has seen only slots in use. -/
theorem AllocScan.Complete.inUse (hc : s.Complete leases ip mac seen)
    (hfree : s.freeSlot = none) (hi : i ∈ seen) : (leases i).inUse = true := by
  rw [← Bool.not_eq_false]
  intro hunused
  have hsome := hc.free_seen i hi hunused
  rw [hfree] at hsome
  simp at hsome

end Pass

theorem allocScan_spec (leases : Fin n → DhcpLease) (ip : UInt32) (mac : Mac) :
    ∀ (is seen : List (Fin n)) (s : AllocScan n), s.Sound leases ip mac →
      s.Complete leases ip mac seen →
      (allocScan leases ip mac is s).Spec leases ip mac (is.reverse ++ seen) := by
  intro is
  induction is with
  | nil => intro seen s hs hc; exact ⟨hs, Or.inr hc⟩
  | cons i is ih =>
      intro seen s hs hc
      rw [List.reverse_cons, List.append_assoc, List.singleton_append]
      unfold allocScan
      cases huse : (leases i).inUse with
      | false => exact ih _ _ (hs.noteFree huse) (hc.noteFree huse)
      | true =>
          simp only [not_true_eq_false, if_false]
          split_ifs with hexit
          · exact ⟨hs.noteUsed huse, Or.inl hexit.1⟩
          · exact ih _ _ (hs.noteUsed huse) (hc.noteUsed huse)

/-- The whole pass, over every slot. -/
theorem allocScan_finRange (leases : Fin n → DhcpLease) (ip : UInt32) (mac : Mac) :
    (allocScan leases ip mac (List.finRange n) ⟨none, none, none⟩).Spec leases ip mac
      (List.finRange n).reverse := by
  have hstart := allocScan_spec leases ip mac (List.finRange n) [] ⟨none, none, none⟩
    ⟨by simp, by simp, by simp, by simp⟩ ⟨by simp, by simp, by simp⟩
  rwa [List.append_nil] at hstart

/-! ## The clean-up loop -/

/-- The counter counts the slots in use. -/
def Counted (s : (Fin n → DhcpLease) × UInt16) : Prop :=
  s.2.toNat = (usedSlots s.1).card

/-- Releasing a slot in use lowers the counter without wrap-around. -/
theorem Counted.release {s : (Fin n → DhcpLease) × UInt16} (h : Counted s) {i : Fin n}
    (hi : (s.1 i).inUse = true) :
    Counted (Function.update s.1 i { s.1 i with inUse := false }, s.2 - 1) := by
  have hmem : i ∈ usedSlots s.1 := mem_usedSlots.mpr hi
  have hpos : 0 < (usedSlots s.1).card := Finset.card_pos.mpr ⟨i, hmem⟩
  unfold Counted at h ⊢
  rw [usedSlots_release, Finset.card_erase_of_mem hmem]
  have hone : (1 : UInt16) ≤ s.2 := by
    rw [UInt16.le_iff_toNat_le, h]
    exact hpos
  rw [UInt16.toNat_sub_of_le _ _ hone, h]
  rfl

theorem cleanupSlot_spec (curTime : UInt32) {s : (Fin n → DhcpLease) × UInt16}
    (h : Counted s) (i : Fin n) :
    Counted (cleanupSlot curTime s i) ∧
      ∀ j, ((cleanupSlot curTime s i).1 j).toLease = (s.1 j).toLease ∧
        (((cleanupSlot curTime s i).1 j).inUse = true ↔
          (s.1 j).inUse = true ∧ ¬ (j = i ∧ (s.1 j).expireTime ≤ curTime)) := by
  unfold cleanupSlot
  split_ifs with hdrop
  · refine ⟨h.release hdrop.1, fun j => ?_⟩
    by_cases hj : j = i
    · subst hj
      simp [hdrop.2]
    · simp [hj]
  · refine ⟨h, fun j => ⟨rfl, ?_⟩⟩
    constructor
    · intro huse
      refine ⟨huse, ?_⟩
      rintro ⟨rfl, hexp⟩
      exact hdrop ⟨huse, hexp⟩
    · exact fun huse => huse.1

/-- The loop releases exactly the expired slots it visits. -/
theorem cleanupLoop_spec (curTime : UInt32) :
    ∀ (is : List (Fin n)) (s : (Fin n → DhcpLease) × UInt16), Counted s →
      Counted (is.foldl (cleanupSlot curTime) s) ∧
        ∀ j, ((is.foldl (cleanupSlot curTime) s).1 j).toLease = (s.1 j).toLease ∧
          (((is.foldl (cleanupSlot curTime) s).1 j).inUse = true ↔
            (s.1 j).inUse = true ∧ ¬ (j ∈ is ∧ (s.1 j).expireTime ≤ curTime)) := by
  intro is
  induction is with
  | nil => intro s h; exact ⟨h, fun j => ⟨rfl, by simp⟩⟩
  | cons i is ih =>
      intro s h
      obtain ⟨hcount, hslot⟩ := cleanupSlot_spec curTime h i
      obtain ⟨hcount', hslot'⟩ := ih (cleanupSlot curTime s i) hcount
      refine ⟨hcount', fun j => ⟨(hslot' j).1.trans (hslot j).1, ?_⟩⟩
      rw [List.foldl_cons, (hslot' j).2, (hslot j).2, (hslot j).1, List.mem_cons]
      tauto

end Slots

/-! ## Refinement -/

section Refinement

variable {maxLeases : UInt16} {pool : ArrayPool maxLeases} {q : LeasePool}

/-- The number of leases that have not run out. -/
def ArrayPool.liveCount (pool : ArrayPool maxLeases) (t : UInt32) : ℕ :=
  ((usedSlots pool.leases).filter fun i => t < (pool.leases i).expireTime).card

/-- The number of leases that a clean-up meets and drops. -/
def ArrayPool.expiredCount (pool : ArrayPool maxLeases) (t : UInt32) : ℕ :=
  ((usedSlots pool.leases).filter fun i => (pool.leases i).expireTime ≤ t).card

/-- The array pool implements the abstract pool. -/
structure ArrayPool.Represents (pool : ArrayPool maxLeases) (q : LeasePool) : Prop where
  slots : SlotsHold pool.leases q.table
  counted : Counted (pool.leases, pool.leaseCount)
  max_eq : q.max = maxLeases.toNat
  nextIp_eq : q.nextIp = pool.nextIp

theorem ArrayPool.Represents.card_eq (h : pool.Represents q) :
    q.table.leases.card = pool.leaseCount.toNat :=
  h.slots.card_eq.trans h.counted.symm

theorem ArrayPool.Represents.full_iff (h : pool.Represents q) :
    q.Full ↔ pool.leaseCount ≥ maxLeases := by
  unfold LeasePool.Full
  rw [h.max_eq, h.card_eq, ge_iff_le, UInt16.le_iff_toNat_le]

/-- The table is full exactly if every slot is in use. -/
theorem ArrayPool.Represents.full_iff_inUse (h : pool.Represents q) :
    q.Full ↔ ∀ i, (pool.leases i).inUse = true := by
  have hle := card_usedSlots_le pool.leases
  unfold LeasePool.Full
  rw [h.slots.card_eq, h.max_eq]
  constructor
  · intro hfull i
    have hevery : usedSlots pool.leases = Finset.univ := by
      rw [← Finset.card_eq_iff_eq_univ, Fintype.card_fin]
      exact le_antisymm hle hfull
    exact mem_usedSlots.mp (hevery ▸ Finset.mem_univ i)
  · intro hevery
    have huniv : usedSlots pool.leases = Finset.univ :=
      Finset.eq_univ_iff_forall.mpr fun i => mem_usedSlots.mpr (hevery i)
    rw [huniv, Finset.card_univ, Fintype.card_fin]

theorem dhcpArraypoolInit_represents (poolStart : UInt32)
    (leases : Fin maxLeases.toNat → DhcpLease) :
    (dhcpArraypoolInit poolStart leases).Represents
      ⟨LeaseTable.empty, maxLeases.toNat, poolStart⟩ where
  slots := ⟨by simp [dhcpArraypoolInit, LeaseTable.empty], by simp [dhcpArraypoolInit]⟩
  counted := by simp [Counted, usedSlots, dhcpArraypoolInit]
  max_eq := rfl
  nextIp_eq := rfl

/-- What the clean-up does to each slot: it is marked free if it has run out, and
kept as it is otherwise. -/
theorem dhcpArraypoolCleanupExpireLease_slot
    (hcounted : Counted (pool.leases, pool.leaseCount)) (curTime : UInt32) (i : Fin _) :
    ((dhcpArraypoolCleanupExpireLease pool curTime).leases i).toLease =
        (pool.leases i).toLease ∧
      (((dhcpArraypoolCleanupExpireLease pool curTime).leases i).inUse = true ↔
        (pool.leases i).inUse = true ∧ ¬ (pool.leases i).expireTime ≤ curTime) := by
  obtain ⟨-, hslot⟩ := cleanupLoop_spec curTime (List.finRange maxLeases.toNat)
    (pool.leases, pool.leaseCount) hcounted
  refine ⟨(hslot i).1, (hslot i).2.trans ?_⟩
  simp only [List.mem_finRange, true_and]

/-- A clean-up keeps the leases that have not run out. -/
theorem ArrayPool.Represents.cleanup (h : pool.Represents q) (curTime : UInt32) :
    (dhcpArraypoolCleanupExpireLease pool curTime).Represents
      { q with table := q.table.keep fun l => ¬ l.expireTime ≤ curTime } := by
  have hslot := dhcpArraypoolCleanupExpireLease_slot h.counted curTime
  refine ⟨h.slots.release (fun i => (hslot i).1) fun i => (hslot i).2, ?_, h.max_eq, h.nextIp_eq⟩
  exact (cleanupLoop_spec curTime (List.finRange maxLeases.toNat)
    (pool.leases, pool.leaseCount) h.counted).1

/-- The check at the head of the two functions is a clean-up of unbounded batch. -/
theorem ArrayPool.Represents.purge (h : pool.Represents q) (curTime : UInt32) :
    ∃ q₀, LeasePool.Purges ⊤ curTime q q₀ ∧ (pool.purge curTime).Represents q₀ := by
  unfold ArrayPool.purge
  by_cases hfull : pool.leaseCount ≥ maxLeases
  · rw [if_pos hfull]
    refine ⟨_, LeasePool.Purges.of_keep (h.full_iff.mpr hfull) (fun l _ hnot => not_not.mp hnot)
      ?_ fun _ _ _ hc => hc, h.cleanup curTime⟩
    rintro ⟨l, hl⟩
    obtain ⟨hl, hexp⟩ := Finset.mem_filter.mp hl
    exact ⟨l, hl, not_not_intro hexp⟩
  · rw [if_neg hfull]
    exact ⟨q, LeasePool.Purges.of_not_full fun hq => hfull (h.full_iff.mp hq), h⟩

/-- `find_lease` is the abstract lookup. -/
theorem ArrayPool.Represents.lookup (h : pool.Represents q) (mac : Mac) :
    (dhcpArraypoolFindLease pool mac).map (fun i => (pool.leases i).toLease) =
      q.table.lookup mac := by
  unfold dhcpArraypoolFindLease
  cases hfind : (List.finRange maxLeases.toNat).find? fun i =>
      (pool.leases i).inUse ∧ (pool.leases i).macAddress = mac with
  | none =>
      symm
      rw [Option.map_none, LeaseTable.lookup_eq_none_iff]
      intro l hl hmac
      obtain ⟨i, huse, rfl⟩ := (h.slots.mem_iff l).mp hl
      have hmiss := List.find?_eq_none.mp hfind i (List.mem_finRange i)
      exact hmiss (decide_eq_true ⟨huse, hmac⟩)
  | some i =>
      have hhit : (pool.leases i).inUse = true ∧ (pool.leases i).macAddress = mac := by
        simpa using List.find?_some hfind
      symm
      rw [Option.map_some, LeaseTable.lookup_eq_some_iff]
      exact ⟨h.slots.mem hhit.1, hhit.2⟩

/-- The inner loop of `find_available_ip` looks at every slot. -/
theorem leased_iff_slot {ip : UInt32} :
    pool.leased ip = true ↔ ∃ i, (pool.leases i).inUse = true ∧ (pool.leases i).ipAddress = ip := by
  rw [ArrayPool.leased, List.any_eq_true]
  constructor
  · rintro ⟨i, -, hi⟩
    exact ⟨i, of_decide_eq_true hi⟩
  · rintro ⟨i, hi⟩
    exact ⟨i, List.mem_finRange i, decide_eq_true hi⟩

/-- The inner loop of `find_available_ip` tests whether the address is held. -/
theorem ArrayPool.Represents.leased (h : pool.Represents q) :
    pool.leased = fun ip => decide (q.table.Holds ip) := by
  funext ip
  rw [Bool.eq_iff_iff, leased_iff_slot, decide_eq_true_iff]
  constructor
  · rintro ⟨i, huse, hip⟩
    exact ⟨_, h.slots.mem huse, hip⟩
  · rintro ⟨l, hl, hip⟩
    obtain ⟨i, huse, rfl⟩ := (h.slots.mem_iff l).mp hl
    exact ⟨i, huse, hip⟩

theorem ArrayPool.Represents.find (h : pool.Represents q) (poolStart poolEnd : UInt32)
    (mac : Mac) (curTime : UInt32) :
    ∃ q₀, LeasePool.Purges ⊤ curTime q q₀ ∧
      (dhcpArraypoolFindAvailableIp pool poolStart poolEnd mac curTime).2 =
        (q₀.find poolStart poolEnd mac).2 ∧
      (dhcpArraypoolFindAvailableIp pool poolStart poolEnd mac curTime).1.Represents
        (q₀.find poolStart poolEnd mac).1 := by
  obtain ⟨q₀, hpurge, h₀⟩ := h.purge curTime
  refine ⟨q₀, hpurge, ?_⟩
  have hlookup := h₀.lookup mac
  unfold dhcpArraypoolFindAvailableIp LeasePool.find
  cases hfind : dhcpArraypoolFindLease (pool.purge curTime) mac with
  | some i =>
      rw [hfind, Option.map_some] at hlookup
      rw [← hlookup]
      simp only [hfind]
      exact ⟨trivial, h₀⟩
  | none =>
      rw [hfind, Option.map_none] at hlookup
      rw [← hlookup]
      simp only [hfind]
      by_cases hfull : q₀.Full
      · rw [if_pos hfull, if_pos (h₀.full_iff.mp hfull)]
        exact ⟨rfl, h₀⟩
      · rw [if_neg hfull, if_neg fun hge => hfull (h₀.full_iff.mpr hge)]
        rw [h₀.leased, ← h₀.nextIp_eq]
        exact ⟨rfl, h₀.slots, h₀.counted, h₀.max_eq, rfl⟩

/-- **The pass decides the abstract grant.**  With a slot for the client the
address must match; with none, the address must be free and a slot must be. -/
theorem ArrayPool.Represents.grants_iff (h : pool.Represents q) (ip : UInt32) (mac : Mac) :
    let scan := allocScan pool.leases ip mac (List.finRange maxLeases.toNat) ⟨none, none, none⟩
    (∀ i, scan.macMatch = some i →
        (pool.leases i).inUse = true ∧ (pool.leases i).macAddress = mac ∧
          (q.Grants ip mac ↔ (pool.leases i).ipAddress = ip)) ∧
      (scan.macMatch = none → ∀ i, scan.ipMatch = some i → ¬ q.Grants ip mac) ∧
      (scan.macMatch = none → scan.ipMatch = none →
        (∀ j, (pool.leases j).inUse = true →
          (pool.leases j).macAddress ≠ mac ∧ (pool.leases j).ipAddress ≠ ip) ∧
        (scan.freeSlot = none → ¬ q.Grants ip mac) ∧
        ∀ i, scan.freeSlot = some i → (pool.leases i).inUse = false ∧ q.Grants ip mac) := by
  obtain ⟨hsound, hcomplete⟩ := allocScan_finRange pool.leases ip mac
  generalize allocScan pool.leases ip mac (List.finRange maxLeases.toNat) ⟨none, none, none⟩ =
    scan at hsound hcomplete
  refine ⟨fun i hi => ?_, fun hmac i hi => ?_, fun hmac hip => ?_⟩
  · obtain ⟨huse, rfl⟩ := hsound.mac_of i hi
    exact ⟨huse, rfl, LeasePool.grants_own_iff (h.slots.mem huse)⟩
  · -- the holder of the address is not the client itself
    obtain ⟨huse, rfl⟩ := hsound.ip_of i hi
    refine LeasePool.not_grants_of_held (h.slots.mem huse) fun hown => ?_
    have hsome := hsound.own i hi hown
    rw [hmac] at hsome
    simp at hsome
  · have hall : scan.Complete pool.leases ip mac (List.finRange maxLeases.toNat).reverse := by
      refine hcomplete.resolve_left ?_
      simp [hmac, hip]
    have hseen : ∀ j : Fin maxLeases.toNat, j ∈ (List.finRange maxLeases.toNat).reverse :=
      fun j => List.mem_reverse.mpr (List.mem_finRange j)
    have hfresh : ∀ j, (pool.leases j).inUse = true →
        (pool.leases j).macAddress ≠ mac ∧ (pool.leases j).ipAddress ≠ ip :=
      fun j huse => hall.fresh hmac hip (hseen j) huse
    have hfreshq : ∀ l ∈ q.table.leases, l.macAddress ≠ mac ∧ l.ipAddress ≠ ip := by
      intro l hl
      obtain ⟨j, huse, rfl⟩ := (h.slots.mem_iff l).mp hl
      exact hfresh j huse
    refine ⟨hfresh, fun hfree => ?_, fun i hi => ?_⟩
    · have hfull : q.Full :=
        h.full_iff_inUse.mpr fun j => hall.inUse hfree (hseen j)
      exact fun hgrants => (LeasePool.grants_fresh_iff hfreshq).mp hgrants hfull
    · have hunused := hsound.free_of i hi
      refine ⟨hunused, (LeasePool.grants_fresh_iff hfreshq).mpr fun hfull => ?_⟩
      rw [h.full_iff_inUse.mp hfull i] at hunused
      simp at hunused

/-- Taking a free slot raises the counter without wrap-around. -/
theorem Counted.take {leases : Fin maxLeases.toNat → DhcpLease} {count : UInt16}
    (h : Counted (leases, count)) {i : Fin maxLeases.toNat} (hi : (leases i).inUse = false)
    {l : DhcpLease} (hl : l.inUse = true) :
    Counted (Function.update leases i l, count + 1) := by
  have hnot : i ∉ usedSlots leases := by simp [hi]
  have hused : usedSlots (Function.update leases i l) = insert i (usedSlots leases) := by
    ext j
    by_cases hj : j = i
    · subst hj
      simp [hl]
    · simp [hj]
  have hbound := card_usedSlots_le (Function.update leases i l)
  have hmax := maxLeases.toNat_lt
  unfold Counted at h ⊢
  simp only at h ⊢
  rw [hused, Finset.card_insert_of_notMem hnot] at hbound ⊢
  rw [UInt16.toNat_add, h]
  show _ % 2 ^ 16 = _
  rw [show (1 : UInt16).toNat = 1 from rfl]
  exact Nat.mod_eq_of_lt (by omega)

/-- Renewing the client's slot in place. -/
theorem ArrayPool.Represents.renew (h : pool.Represents q) {i : Fin maxLeases.toNat}
    (huse : (pool.leases i).inUse = true) (expireTime : UInt32) :
    ArrayPool.Represents
      { pool with
        leases := Function.update pool.leases i
          { pool.leases i with expireTime := expireTime } }
      { q with
        table := q.table.put
          ⟨(pool.leases i).macAddress, (pool.leases i).ipAddress, expireTime⟩ } := by
  have hused : usedSlots (Function.update pool.leases i
      { pool.leases i with expireTime := expireTime }) = usedSlots pool.leases := by
    ext j
    by_cases hj : j = i
    · subst hj
      simp
    · simp [Function.update_of_ne hj]
  have hsame : ({ pool.leases i with expireTime := expireTime } : DhcpLease) =
      ⟨⟨(pool.leases i).macAddress, (pool.leases i).ipAddress, expireTime⟩, true⟩ := by
    rw [← huse]
  refine ⟨?_, ?_, h.max_eq, h.nextIp_eq⟩
  · show SlotsHold (Function.update pool.leases i _) _
    rw [hsame]
    refine h.slots.write (fun j hj huse' => ⟨fun hmac => hj ?_, fun hip => hj ?_⟩)
      fun _ => ⟨rfl, rfl⟩
    · exact h.slots.slot_of_mac huse' huse hmac
    · exact h.slots.slot_of_ip huse' huse hip
  · unfold Counted
    rw [hused]
    exact h.counted

/-- Taking a free slot for a fresh lease. -/
theorem ArrayPool.Represents.take (h : pool.Represents q) {i : Fin maxLeases.toNat}
    (hunused : (pool.leases i).inUse = false) {l : Lease}
    (hfresh : ∀ j, (pool.leases j).inUse = true →
      (pool.leases j).macAddress ≠ l.macAddress ∧ (pool.leases j).ipAddress ≠ l.ipAddress) :
    ArrayPool.Represents
      { pool with
        leases := Function.update pool.leases i { l with inUse := true }
        leaseCount := pool.leaseCount + 1 }
      { q with table := q.table.put l } := by
  refine ⟨h.slots.write (fun j _ huse => hfresh j huse) fun huse => ?_,
    h.counted.take hunused rfl, h.max_eq, h.nextIp_eq⟩
  rw [hunused] at huse
  simp at huse

theorem ArrayPool.Represents.alloc (h : pool.Represents q) (ip : UInt32) (mac : Mac)
    (leaseTime curTime : UInt32) :
    ∃ q₀, LeasePool.Purges ⊤ curTime q q₀ ∧
      (dhcpArraypoolAllocLease pool ip mac leaseTime curTime).2 =
        (q₀.alloc ip mac (curTime + leaseTime)).2 ∧
      (dhcpArraypoolAllocLease pool ip mac leaseTime curTime).1.Represents
        (q₀.alloc ip mac (curTime + leaseTime)).1 := by
  obtain ⟨q₀, hpurge, h₀⟩ := h.purge curTime
  refine ⟨q₀, hpurge, ?_⟩
  obtain ⟨hown, htaken, hfresh⟩ := h₀.grants_iff ip mac
  unfold dhcpArraypoolAllocLease LeasePool.alloc
  generalize pool.purge curTime = pool₀ at h₀ hown htaken hfresh ⊢
  dsimp only
  generalize allocScan pool₀.leases ip mac (List.finRange maxLeases.toNat) ⟨none, none, none⟩ =
    scan at hown htaken hfresh
  cases hmac : scan.macMatch with
  | some i =>
      obtain ⟨huse, rfl, hgrants⟩ := hown i hmac
      by_cases hip : (pool₀.leases i).ipAddress = ip
      · rw [if_pos (hgrants.mpr hip)]
        subst hip
        simp only [ne_eq, not_true_eq_false, if_false]
        exact ⟨trivial, h₀.renew huse _⟩
      · rw [if_neg fun hg => hip (hgrants.mp hg)]
        simp only [ne_eq, hip, not_false_eq_true, if_true]
        exact ⟨trivial, h₀⟩
  | none =>
      cases hip : scan.ipMatch with
      | some i =>
          rw [if_neg (htaken hmac i hip)]
          exact ⟨rfl, h₀⟩
      | none =>
          obtain ⟨hothers, hfull, hroom⟩ := hfresh hmac hip
          cases hfree : scan.freeSlot with
          | none =>
              rw [if_neg (hfull hfree)]
              exact ⟨rfl, h₀⟩
          | some i =>
              obtain ⟨hunused, hgrants⟩ := hroom i hfree
              rw [if_pos hgrants]
              exact ⟨rfl, h₀.take hunused hothers⟩

theorem ArrayPool.Represents.decline (h : pool.Represents q) (mac : Mac) :
    (dhcpArraypoolDeclineLease pool mac).Represents (q.decline mac) := by
  have hlookup := h.lookup mac
  unfold dhcpArraypoolDeclineLease LeasePool.decline
  cases hfind : dhcpArraypoolFindLease pool mac with
  | none =>
      rw [hfind, Option.map_none, eq_comm, LeaseTable.lookup_eq_none_iff] at hlookup
      have hall : q.table.keep (fun l => l.macAddress ≠ mac) = q.table :=
        LeaseTable.ext (Finset.filter_true_of_mem hlookup)
      rw [hall]
      exact h
  | some i =>
      rw [hfind, Option.map_some, eq_comm, LeaseTable.lookup_eq_some_iff] at hlookup
      have hmac := hlookup.2
      have huse : (pool.leases i).inUse = true := by
        unfold dhcpArraypoolFindLease at hfind
        have hhit := List.find?_some hfind
        simp only [decide_eq_true_eq] at hhit
        exact hhit.1
      refine ⟨h.slots.release (fun j => ?_) fun j => ?_, h.counted.release huse, h.max_eq,
        h.nextIp_eq⟩
      · by_cases hj : j = i
        · subst hj
          simp
        · simp [Function.update_of_ne hj]
      · by_cases hj : j = i
        · subst hj
          simp [hmac]
        · simp only [Function.update_of_ne hj]
          refine ⟨fun hu => ⟨hu, fun hm => hj ?_⟩, fun hu => hu.1⟩
          exact h.slots.slot_of_mac hu huse (hm.trans hmac.symm)

/-- **ARRAY implements the abstract lease pool.** -/
theorem arrayOps_refines (maxLeases : UInt16) :
    (arrayOps maxLeases).Refines ⊤ ArrayPool.Represents where
  find poolStart poolEnd mac t h := h.find poolStart poolEnd mac t
  alloc ip mac leaseTime t h := h.alloc ip mac leaseTime t
  decline mac h := h.decline mac

end Refinement

end BaremetalDhcp
