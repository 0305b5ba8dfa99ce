import BaremetalDhcp.HashPoolTables

/-!
# The slots of ARRAY

`dhcp_array.c` keeps a flag in every slot and a 16-bit count of the flags beside
them.  Four functions move the two in step, slots are freed and taken in any
order, and that no client and no address sits in two slots rests on the one pass
of `alloc_lease`, which may stop early.

* `ArrayPool.SlotsAgree` — the invariant those updates are meant to keep, about
  the slots themselves.  It follows from the refinement of `LeasePool`, whose
  table has at most one lease for a client and for an address.
* `allocLeaseFullScan` — `alloc_lease` as one would specify it, with a complete
  search for the client, then for the address, then for the lowest free slot.
  `allocLease_eq_fullScan` shows that the early exit never changes the outcome.
  Where the pass stops before it has met the client's slot it has met the slot of
  the address, and both readings refuse.
-/

namespace BaremetalDhcp

open Machine

/-- The calls of an ARRAY pool are those of a HASHMAP pool. -/
abbrev ArrayCall := HashCall

/-- One call, for the pool `pool_start ..= pool_end`. -/
def arraypoolStep {maxLeases : UInt16} (poolStart poolEnd : UInt32)
    (pool : ArrayPool maxLeases) : ArrayCall → ArrayPool maxLeases × HashAnswer
  | .findAvailableIp mac curTime =>
      let found := dhcpArraypoolFindAvailableIp pool poolStart poolEnd mac curTime
      (found.1, .address found.2)
  | .allocLease ip mac leaseTime curTime =>
      let granted := dhcpArraypoolAllocLease pool ip mac leaseTime curTime
      (granted.1, .granted granted.2)
  | .cleanupExpireLease curTime => (dhcpArraypoolCleanupExpireLease pool curTime, .done)
  | .declineLease mac => (dhcpArraypoolDeclineLease pool mac, .done)

/-- The count, the flags and the cursor agree. -/
structure ArrayPool.SlotsAgree {maxLeases : UInt16} (poolStart poolEnd : UInt32)
    (pool : ArrayPool maxLeases) : Prop where
  counted : pool.leaseCount.toNat = (usedSlots pool.leases).card
  count_le : pool.leaseCount ≤ maxLeases
  distinct : ∀ i j, (pool.leases i).inUse = true → (pool.leases j).inUse = true →
    (pool.leases i).macAddress = (pool.leases j).macAddress ∨
      (pool.leases i).ipAddress = (pool.leases j).ipAddress → i = j
  leased : ∀ i, (pool.leases i).inUse = true → InPool poolStart poolEnd (pool.leases i).ipAddress
  cursor : InPool poolStart poolEnd pool.nextIp

section Slots

variable {maxLeases : UInt16} {pool : ArrayPool maxLeases} {q : LeasePool}
  {poolStart poolEnd : UInt32} {max : ℕ}

/-- The slots of a bounded pool agree. -/
theorem ArrayPool.Represents.slotsAgree (h : pool.Represents q)
    (hb : q.Bounded poolStart poolEnd max) : pool.SlotsAgree poolStart poolEnd where
  counted := h.counted
  count_le := by
    rw [UInt16.le_iff_toNat_le, h.counted]
    exact card_usedSlots_le pool.leases
  distinct i j hi hj hsame := by
    rcases hsame with hmac | hip
    · exact h.slots.slot_of_mac hi hj hmac
    · exact h.slots.slot_of_ip hi hj hip
  leased i hi := hb.ips _ (h.slots.mem hi)
  cursor := by
    rw [← h.nextIp_eq]
    exact hb.cursor

/-- **One call** keeps the slots a view of an abstract pool. -/
theorem ArrayPool.Represents.arraypoolStep (h : pool.Represents q) (poolStart poolEnd : UInt32)
    (call : ArrayCall) :
    ∃ q', (arraypoolStep poolStart poolEnd pool call).1.Represents q' ∧
      ∀ max, poolStart ≤ poolEnd → call.Asks poolStart poolEnd →
        q.Bounded poolStart poolEnd max → q'.Bounded poolStart poolEnd max := by
  cases call with
  | findAvailableIp mac curTime =>
      obtain ⟨q₀, hpurge, -, hnext⟩ := h.find poolStart poolEnd mac curTime
      exact ⟨_, hnext, fun _ hle _ hb => (hb.purge hpurge).find hle mac⟩
  | allocLease ip mac leaseTime curTime =>
      obtain ⟨q₀, hpurge, -, hnext⟩ := h.alloc ip mac leaseTime curTime
      exact ⟨_, hnext, fun _ _ hcall hb => (hb.purge hpurge).alloc hcall mac _⟩
  | cleanupExpireLease curTime =>
      simp only [BaremetalDhcp.arraypoolStep]
      exact ⟨_, h.cleanup curTime, fun _ _ _ hb => hb.keep _⟩
  | declineLease mac => exact ⟨_, h.decline mac, fun _ _ _ hb => hb.keep _⟩

/-- The check for expired leases leaves every other slot as it is. -/
theorem ArrayPool.Represents.purge_slot (h : pool.Represents q) {curTime : UInt32} {i : Fin _}
    (hlive : ¬ ((pool.leases i).inUse = true ∧ (pool.leases i).expireTime ≤ curTime)) :
    (pool.purge curTime).leases i = pool.leases i := by
  unfold ArrayPool.purge
  split_ifs with hfull
  · obtain ⟨hlease, huse⟩ := dhcpArraypoolCleanupExpireLease_slot h.counted curTime i
    have hflag : ((dhcpArraypoolCleanupExpireLease pool curTime).leases i).inUse =
        (pool.leases i).inUse := by
      rw [Bool.eq_iff_iff, huse]
      exact ⟨fun hu => hu.1, fun hu => ⟨hu, fun hexp => hlive ⟨hu, hexp⟩⟩⟩
    calc (dhcpArraypoolCleanupExpireLease pool curTime).leases i
        = ⟨((dhcpArraypoolCleanupExpireLease pool curTime).leases i).toLease,
            ((dhcpArraypoolCleanupExpireLease pool curTime).leases i).inUse⟩ := rfl
      _ = ⟨(pool.leases i).toLease, (pool.leases i).inUse⟩ := by rw [hlease, hflag]
      _ = pool.leases i := rfl
  · rfl

/-- A refusal has only cleaned up. -/
theorem dhcpArraypoolAllocLease_refused {ip : UInt32} {mac : Mac} {leaseTime curTime : UInt32}
    (hfail : (dhcpArraypoolAllocLease pool ip mac leaseTime curTime).2 = false) :
    (dhcpArraypoolAllocLease pool ip mac leaseTime curTime).1 = pool.purge curTime := by
  revert hfail
  unfold dhcpArraypoolAllocLease
  dsimp only
  split
  · split_ifs
    · intro _
      rfl
    · intro hfail
      exact absurd hfail (by simp)
  · split
    · intro _
      rfl
    · split
      · intro _
        rfl
      · intro hfail
        exact absurd hfail (by simp)

end Slots

/-! ## Every run -/

/-- **The slots never disagree.**  After any calls from `init`, for addresses of the pool and
any clients and times, in any order: the count is the number of slots in use and at most the
capacity, no client and no address is in two slots, and all addresses and the cursor are in the
pool.  An `alloc_lease` that refuses leaves every slot that has not run out as it was. -/
theorem arraypool_slots_agree {maxLeases : UInt16} (poolStart poolEnd : UInt32)
    (hle : poolStart ≤ poolEnd) (storage : Fin maxLeases.toNat → DhcpLease)
    (calls : List ArrayCall) (hcalls : ∀ call ∈ calls, call.Asks poolStart poolEnd) :
    let pool := exec (arraypoolStep poolStart poolEnd) (dhcpArraypoolInit poolStart storage) calls
    pool.SlotsAgree poolStart poolEnd ∧
    ∀ ip mac leaseTime curTime,
      (dhcpArraypoolAllocLease pool ip mac leaseTime curTime).2 = false →
      ∀ i, ¬ ((pool.leases i).inUse = true ∧ (pool.leases i).expireTime ≤ curTime) →
        (dhcpArraypoolAllocLease pool ip mac leaseTime curTime).1.leases i = pool.leases i := by
  intro pool
  have hinit := dhcpArraypoolInit_represents poolStart storage
  obtain ⟨q, h, hb⟩ : ∃ q, pool.Represents q ∧ q.Bounded poolStart poolEnd maxLeases.toNat := by
    refine exec_inv (fun p : ArrayPool maxLeases => ∃ q, p.Represents q ∧
        q.Bounded poolStart poolEnd maxLeases.toNat)
      (fun call => call.Asks poolStart poolEnd) ?_ calls _
      ⟨_, hinit, LeasePool.bounded_empty hle _⟩ hcalls
    rintro p call ⟨q, h, hb⟩ hcall
    obtain ⟨q', h', hbound⟩ := h.arraypoolStep poolStart poolEnd call
    exact ⟨q', h', hbound _ hle hcall hb⟩
  refine ⟨h.slotsAgree hb, ?_⟩
  intro ip mac leaseTime curTime hfail i hlive
  rw [dhcpArraypoolAllocLease_refused hfail]
  exact h.purge_slot hlive

/-- Two clients ask for one address of a pool of eleven, and the first declines it. -/
theorem arraypool_slots_agree_two_clients :
    (10 : UInt32) ≤ 20 ∧ InPool 10 20 12 ∧
      (exec (arraypoolStep 10 20)
        (dhcpArraypoolInit 10 fun _ => ⟨⟨fun _ => 9, 0, 0⟩, true⟩ : ArrayPool 1)
        [.allocLease 12 (fun _ => 1) 60 0, .allocLease 12 (fun _ => 2) 60 30,
          .declineLease (fun _ => 1), .allocLease 12 (fun _ => 2) 60 31]).SlotsAgree 10 20 := by
  have hpool : InPool 10 20 12 := ⟨by decide, by decide⟩
  refine ⟨by decide, hpool, (arraypool_slots_agree 10 20 (by decide) _ _ ?_).1⟩
  intro call hcall
  simp only [List.mem_cons, List.not_mem_nil, or_false] at hcall
  rcases hcall with rfl | rfl | rfl | rfl
  · exact hpool
  · exact hpool
  · trivial
  · exact hpool

/-! ## The early exit -/

section FullScan

variable {maxLeases : UInt16} {pool : ArrayPool maxLeases} {q : LeasePool}

/-- The lowest free slot. -/
def ArrayPool.lowestFree (pool : ArrayPool maxLeases) : Option (Fin maxLeases.toNat) :=
  (List.finRange maxLeases.toNat).find? fun i => !(pool.leases i).inUse

/-- `alloc_lease` with complete searches: after the same clean-up the lease of the client
decides; without one, an address that any slot holds is refused, and so is a request that finds
no free slot; otherwise the lowest free slot is filled. -/
def allocLeaseFullScan (pool : ArrayPool maxLeases) (ip : UInt32) (mac : Mac)
    (leaseTime curTime : UInt32) : ArrayPool maxLeases × Bool :=
  let pool := pool.purge curTime
  match dhcpArraypoolFindLease pool mac with
  | some i =>
      if (pool.leases i).ipAddress = ip then
        ({ pool with
            leases := Function.update pool.leases i
              { pool.leases i with expireTime := curTime + leaseTime } }, true)
      else (pool, false)
  | none =>
      if pool.leased ip then (pool, false)
      else
        match pool.lowestFree with
        | none => (pool, false)
        | some i =>
            ({ pool with
                leases := Function.update pool.leases i
                  { ipAddress := ip
                    macAddress := mac
                    expireTime := curTime + leaseTime
                    inUse := true }
                leaseCount := pool.leaseCount + 1 }, true)

/-- A pass that ends without a match has not stopped early, so its free slot is the first one of
the slots it was given, unless it had one already. -/
theorem allocScan_freeSlot {n : ℕ} (leases : Fin n → DhcpLease) (ip : UInt32) (mac : Mac) :
    ∀ (is : List (Fin n)) (s : AllocScan n),
      (allocScan leases ip mac is s).macMatch = none →
      (allocScan leases ip mac is s).ipMatch = none →
      (allocScan leases ip mac is s).freeSlot =
        s.freeSlot.or (is.find? fun i => !(leases i).inUse) := by
  intro is
  induction is with
  | nil =>
      intro s _ _
      rw [List.find?_nil, Option.or_none]
      rfl
  | cons i is ih =>
      intro s hmac hip
      rw [allocScan] at hmac hip ⊢
      cases huse : (leases i).inUse with
      | false =>
          simp only [huse, Bool.false_eq_true, not_false_eq_true, if_true] at hmac hip ⊢
          rw [ih _ hmac hip, List.find?_cons_of_pos (by simp [huse]), AllocScan.noteFree]
          cases s.freeSlot <;> rfl
      | true =>
          simp only [huse, not_true_eq_false, if_false] at hmac hip ⊢
          rw [List.find?_cons_of_neg (by simp [huse])]
          split_ifs at hmac hip ⊢ with hexit
          · rw [hmac, hip] at hexit
            simp at hexit
          · exact ih _ hmac hip

/-- The slot of a client is found wherever it is. -/
theorem ArrayPool.Represents.findLease_eq_some (h : pool.Represents q) {i : Fin _}
    (huse : (pool.leases i).inUse = true) :
    dhcpArraypoolFindLease pool (pool.leases i).macAddress = some i := by
  cases hfind : dhcpArraypoolFindLease pool (pool.leases i).macAddress with
  | none =>
      have hmiss := List.find?_eq_none.mp hfind i (List.mem_finRange i)
      exact absurd (decide_eq_true ⟨huse, rfl⟩) hmiss
  | some j =>
      have hhit := List.find?_some hfind
      simp only [decide_eq_true_eq] at hhit
      rw [h.slots.slot_of_mac hhit.1 huse hhit.2]

/-- A client without a slot is not found. -/
theorem findLease_eq_none {mac : Mac}
    (h : ∀ i, (pool.leases i).inUse = true → (pool.leases i).macAddress ≠ mac) :
    dhcpArraypoolFindLease pool mac = none := by
  refine List.find?_eq_none.mpr fun i _ hi => ?_
  obtain ⟨huse, hmac⟩ := of_decide_eq_true hi
  exact h i huse hmac

/-- The outcome of the pass on the slots of an abstract pool is that of the complete searches. -/
theorem ArrayPool.Represents.fullScan (h : pool.Represents q) (ip : UInt32) (mac : Mac)
    (leaseTime curTime : UInt32) :
    dhcpArraypoolAllocLease pool ip mac leaseTime curTime =
      allocLeaseFullScan pool ip mac leaseTime curTime := by
  obtain ⟨q₀, -, h₀⟩ := h.purge curTime
  unfold dhcpArraypoolAllocLease allocLeaseFullScan
  generalize pool.purge curTime = pool₀ at h₀ ⊢
  obtain ⟨hsound, hcomplete⟩ := allocScan_finRange pool₀.leases ip mac
  have hlowest := allocScan_freeSlot pool₀.leases ip mac (List.finRange maxLeases.toNat)
    ⟨none, none, none⟩
  dsimp only
  generalize allocScan pool₀.leases ip mac (List.finRange maxLeases.toNat) ⟨none, none, none⟩ =
    scan at hsound hcomplete hlowest
  cases hmac : scan.macMatch with
  | some i =>
      obtain ⟨huse, rfl⟩ := hsound.mac_of i hmac
      simp only [h₀.findLease_eq_some huse, ne_eq, ite_not]
  | none =>
      cases hip : scan.ipMatch with
      | some i =>
          -- the pass may have stopped before the client's slot, but the address is taken
          obtain ⟨huse, rfl⟩ := hsound.ip_of i hip
          have htaken : pool₀.leased (pool₀.leases i).ipAddress = true :=
            leased_iff_slot.mpr ⟨i, huse, rfl⟩
          have hother : (pool₀.leases i).macAddress ≠ mac := by
            intro hown
            have hsome := hsound.own i hip hown
            rw [hmac] at hsome
            simp at hsome
          cases hfind : dhcpArraypoolFindLease pool₀ mac with
          | none => simp only [htaken, if_true]
          | some j =>
              have hhit := List.find?_some hfind
              simp only [decide_eq_true_eq] at hhit
              have hdiffer : (pool₀.leases j).ipAddress ≠ (pool₀.leases i).ipAddress := by
                intro hsame
                rw [h₀.slots.slot_of_ip hhit.1 huse hsame] at hhit
                exact hother hhit.2
              simp only [hdiffer, if_false]
      | none =>
          have hall := hcomplete.resolve_left (by simp [hmac, hip])
          have hfresh : ∀ j, (pool₀.leases j).inUse = true →
              (pool₀.leases j).macAddress ≠ mac ∧ (pool₀.leases j).ipAddress ≠ ip := by
            intro j huse
            exact hall.fresh hmac hip (List.mem_reverse.mpr (List.mem_finRange j)) huse
          have hnone := findLease_eq_none fun j huse => (hfresh j huse).1
          have hfree : ¬ pool₀.leased ip = true := by
            rw [leased_iff_slot]
            rintro ⟨j, huse, hheld⟩
            exact (hfresh j huse).2 hheld
          have hslot : scan.freeSlot = pool₀.lowestFree := by
            rw [hlowest hmac hip, Option.none_or]
            rfl
          simp only [hnone, hfree, hslot]
          rfl

/-- **The early exit changes nothing.**  In every pool reached from `init` by any calls, the
pass of `alloc_lease` gives the outcome of the complete searches, result and pool. -/
theorem allocLease_eq_fullScan (poolStart poolEnd : UInt32)
    (storage : Fin maxLeases.toNat → DhcpLease) (calls : List ArrayCall) (ip : UInt32) (mac : Mac)
    (leaseTime curTime : UInt32) :
    let pool := exec (arraypoolStep poolStart poolEnd) (dhcpArraypoolInit poolStart storage) calls
    dhcpArraypoolAllocLease pool ip mac leaseTime curTime =
      allocLeaseFullScan pool ip mac leaseTime curTime := by
  intro pool
  have hinit := dhcpArraypoolInit_represents poolStart storage
  obtain ⟨q, h⟩ : ∃ q, pool.Represents q := by
    refine exec_inv (fun p : ArrayPool maxLeases => ∃ q, p.Represents q) (fun _ => True) ?_
      calls _ ⟨_, hinit⟩ fun _ _ => trivial
    rintro p call ⟨q, h⟩ -
    obtain ⟨q', h', -⟩ := h.arraypoolStep poolStart poolEnd call
    exact ⟨q', h'⟩
  exact h.fullScan ip mac leaseTime curTime

end FullScan

end BaremetalDhcp
