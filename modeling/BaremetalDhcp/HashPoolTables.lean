import BaremetalDhcp.LeaseOwnership

/-!
# The two tables of HASHMAP

`dhcp_hashmap.c` keeps every lease twice: the `leases` table under the client's MAC, and the
`ip_set` table under the address.  No call updates both at once.  `alloc_lease` inserts into
one after the other and takes the first insertion back if the second fails; `decline_lease`
reads the address through a bucket and deletes twice; the clean-up copies up to 32 pairs out
and then deletes each of them from both.

`HashPool.TablesAgree` is the invariant these updates are meant to keep, stated about the
buckets.  It is a consequence of the refinement of `LeasePool`, in which there is only one
table: `HashPool.Represents` says that both tables are views of it, and
`LeasePool.Bounded` that its size, its addresses and its cursor stay within bounds.
-/

namespace BaremetalDhcp

open Machine

/-- A call of one of the four functions that change a pool. -/
inductive HashCall where
  | findAvailableIp (mac : Mac) (curTime : UInt32)
  | allocLease (ip : UInt32) (mac : Mac) (leaseTime curTime : UInt32)
  | cleanupExpireLease (curTime : UInt32)
  | declineLease (mac : Mac)

/-- What a call returns. -/
inductive HashAnswer where
  | address (ip : UInt32)
  | granted (ok : Bool)
  | done

/-- One call, for the pool `pool_start ..= pool_end`. -/
def hashpoolStep (poolStart poolEnd : UInt32) (pool : HashPool) :
    HashCall → HashPool × HashAnswer
  | .findAvailableIp mac curTime =>
      let found := dhcpHashpoolFindAvailableIp pool poolStart poolEnd mac curTime
      (found.1, .address found.2)
  | .allocLease ip mac leaseTime curTime =>
      let granted := dhcpHashpoolAllocLease pool ip mac leaseTime curTime
      (granted.1, .granted granted.2)
  | .cleanupExpireLease curTime => (dhcpHashpoolCleanupExpireLease pool curTime, .done)
  | .declineLease mac => (dhcpHashpoolDeclineLease pool mac, .done)

/-- The server only asks for addresses of the pool. -/
def HashCall.Asks (poolStart poolEnd : UInt32) : HashCall → Prop
  | .allocLease ip _ _ _ => InPool poolStart poolEnd ip
  | _ => True

/-! ## The invariant -/

/-- The two tables are views of one set of leases. -/
structure HashPool.TablesAgree (poolStart poolEnd : UInt32) (pool : HashPool) : Prop where
  ipSet_eq : ∀ ip, pool.ipSet.Stored ip ↔ ∃ l, pool.leases.Stored l ∧ l.ipAddress = ip
  distinct : ∀ i j, pool.leases.occupied i = true → pool.leases.occupied j = true →
    (pool.leases.buckets i).macAddress = (pool.leases.buckets j).macAddress ∨
      (pool.leases.buckets i).ipAddress = (pool.leases.buckets j).ipAddress → i = j
  size_eq : hashSize pool.leases = hashSize pool.ipSet
  size_le : hashSize pool.leases ≤ pool.maxLeases.toNat
  leased : ∀ l, pool.leases.Stored l → InPool poolStart poolEnd l.ipAddress
  cursor : InPool poolStart poolEnd pool.nextIp

/-- `alloc_lease` gets to the branch that takes the first insertion back. -/
def HashPool.RollsBack (pool : HashPool) (ip : UInt32) (mac : Mac)
    (leaseTime curTime : UInt32) : Prop :=
  let pool := pool.purge curTime
  dhcpHashpoolFindLease pool mac = none ∧
    (hashFind ipKeys pool.ipSet ip).isSome = false ∧
    hashSize pool.leases < pool.maxLeases.toNat ∧
    (hashInsert macKeys pool.leases ⟨mac, ip, curTime + leaseTime⟩).2 = true ∧
    (hashInsert ipKeys pool.ipSet ip).2 = false

section Tables

variable {pool : HashPool} {q : LeasePool} {poolStart poolEnd : UInt32} {max : ℕ}

/-- Two views of a bounded pool agree. -/
theorem HashPool.Represents.tablesAgree (h : pool.Represents q)
    (hb : q.Bounded poolStart poolEnd max) : pool.TablesAgree poolStart poolEnd where
  ipSet_eq ip := by
    rw [h.ip_iff]
    exact exists_congr fun l => and_congr_left fun _ => h.mem_iff l
  distinct i j hi hj hsame := by
    have hmem : ∀ k, pool.leases.occupied k = true →
        pool.leases.buckets k ∈ q.table.leases := fun k hk => (h.mem_iff _).mpr ⟨k, hk, rfl⟩
    have hlease : pool.leases.buckets i = pool.leases.buckets j := by
      rcases hsame with hmac | hip
      · exact q.table.mac_inj _ (hmem i hi) _ (hmem j hj) hmac
      · exact q.table.ip_inj _ (hmem i hi) _ (hmem j hj) hip
    exact h.wf.distinct i j hi hj (macKeys_comp_eq_zero_iff.mpr (by rw [hlease]))
  size_eq := h.card_eq.trans h.ipCard_eq.symm
  size_le := by
    rw [h.card_eq, ← h.max_eq, hb.max_eq]
    exact hb.card_le
  leased l hl := hb.ips l ((h.mem_iff l).mpr hl)
  cursor := by
    rw [← h.nextIp_eq]
    exact hb.cursor

/-- A selection of the leases stays within bounds. -/
theorem LeasePool.Bounded.keep (hb : q.Bounded poolStart poolEnd max) (c : Lease → Prop)
    [DecidablePred c] :
    LeasePool.Bounded poolStart poolEnd max { q with table := q.table.keep c } := by
  have hsub : (q.table.keep c).leases ⊆ q.table.leases := Finset.filter_subset _ _
  exact ⟨hb.max_eq, (Finset.card_le_card hsub).trans hb.card_le, fun l hl => hb.ips l (hsub hl),
    hb.cursor⟩

/-- **One call** keeps the tables views of a bounded pool. -/
theorem HashPool.Represents.hashpoolStep (h : pool.Represents q)
    (hb : q.Bounded poolStart poolEnd max) (hle : poolStart ≤ poolEnd) {call : HashCall}
    (hcall : call.Asks poolStart poolEnd) :
    ∃ q', (hashpoolStep poolStart poolEnd pool call).1.Represents q' ∧
      q'.Bounded poolStart poolEnd max := by
  cases call with
  | findAvailableIp mac curTime =>
      obtain ⟨q₀, hpurge, -, hnext⟩ := h.find poolStart poolEnd mac curTime
      exact ⟨_, hnext, (hb.purge hpurge).find hle mac⟩
  | allocLease ip mac leaseTime curTime =>
      obtain ⟨q₀, hpurge, -, hnext⟩ := h.alloc ip mac leaseTime curTime
      exact ⟨_, hnext, (hb.purge hpurge).alloc hcall mac _⟩
  | cleanupExpireLease curTime =>
      simp only [BaremetalDhcp.hashpoolStep]
      exact ⟨_, h.cleanup curTime, hb.keep _⟩
  | declineLease mac => exact ⟨_, h.decline mac, hb.keep _⟩

/-- Below capacity the second insertion succeeds, so nothing is taken back. -/
theorem HashPool.Represents.not_rollsBack (h : pool.Represents q) (ip : UInt32) (mac : Mac)
    (leaseTime curTime : UInt32) : ¬ pool.RollsBack ip mac leaseTime curTime := by
  rintro ⟨hmac, hip, hroom, -, hfail⟩
  obtain ⟨q₀, -, h₀⟩ := h.purge curTime
  have hlookup := h₀.lookup mac
  rw [hmac, Option.map_none, eq_comm, LeaseTable.lookup_eq_none_iff] at hlookup
  have hheld : ¬ q₀.table.Holds ip := by
    have hfree := congrFun h₀.leased ip
    rw [hip] at hfree
    exact of_decide_eq_false hfree.symm
  have hfull : ¬ q₀.Full := fun hfull => absurd (h₀.full_iff.mp hfull) (not_le.mpr hroom)
  have hfresh : ∀ x ∈ q₀.table.leases, x.macAddress ≠ mac ∧ x.ipAddress ≠ ip :=
    fun x hx => ⟨hlookup x hx, fun hxip => hheld ⟨x, hx, hxip⟩⟩
  obtain ⟨-, hok, -⟩ := h₀.insertBoth (l := ⟨mac, ip, curTime + leaseTime⟩) hfull hfresh
  exact Bool.false_ne_true (hfail.symm.trans hok)

/-- A refusal only cleans up: what has not run out stays, and nothing comes in. -/
theorem HashPool.Represents.alloc_refused (h : pool.Represents q) {ip : UInt32} {mac : Mac}
    {leaseTime curTime : UInt32}
    (hfail : (dhcpHashpoolAllocLease pool ip mac leaseTime curTime).2 = false) {l : Lease}
    (hlive : curTime < l.expireTime) :
    (dhcpHashpoolAllocLease pool ip mac leaseTime curTime).1.leases.Stored l ↔
      pool.leases.Stored l := by
  obtain ⟨q₀, hpurge, hsame, hnext⟩ := h.alloc ip mac leaseTime curTime
  have hgrants : ¬ q₀.Grants ip mac := by
    intro hgrants
    rw [hfail, LeasePool.alloc, if_pos hgrants] at hsame
    exact Bool.false_ne_true hsame
  rw [LeasePool.alloc, if_neg hgrants] at hnext
  rw [← hnext.mem_iff, ← h.mem_iff]
  exact ⟨fun hl => hpurge.subset hl, fun hl => hpurge.mem_of_live hl hlive⟩

end Tables

/-! ## Every run -/

/-- **The tables never diverge.**  After any calls from `init`, for addresses of the pool and
any clients and times: `ip_set` holds exactly the leased addresses, no client and no address
is leased twice, both tables have the same size, at most the capacity, and all addresses and
the cursor are in the pool.  So `alloc_lease` never takes an insertion back, and when it
refuses, the leases that have not run out are what they were. -/
theorem hashpool_tables_agree (poolStart poolEnd : UInt32) (hle : poolStart ≤ poolEnd)
    (prior : HashPool) (maxLeases : UInt16) (calls : List HashCall)
    (hcalls : ∀ call ∈ calls, call.Asks poolStart poolEnd) :
    let pool := exec (hashpoolStep poolStart poolEnd)
      (dhcpHashpoolInit prior poolStart maxLeases) calls
    pool.TablesAgree poolStart poolEnd ∧
    pool.maxLeases.toNat = min hashN maxLeases.toNat ∧
    (∀ ip mac leaseTime curTime, ¬ pool.RollsBack ip mac leaseTime curTime) ∧
    ∀ ip mac leaseTime curTime,
      (dhcpHashpoolAllocLease pool ip mac leaseTime curTime).2 = false →
      ∀ l : Lease, curTime < l.expireTime →
        ((dhcpHashpoolAllocLease pool ip mac leaseTime curTime).1.leases.Stored l ↔
          pool.leases.Stored l) := by
  intro pool
  have hinit := dhcpHashpoolInit_represents prior poolStart maxLeases
  obtain ⟨q, h, hb⟩ : ∃ q, pool.Represents q ∧
      q.Bounded poolStart poolEnd (min hashN maxLeases.toNat) := by
    refine exec_inv (fun p : HashPool => ∃ q, p.Represents q ∧
        q.Bounded poolStart poolEnd (min hashN maxLeases.toNat))
      (fun call => call.Asks poolStart poolEnd) ?_ calls _
      ⟨_, hinit, LeasePool.bounded_empty hle _⟩ hcalls
    rintro p call ⟨q, h, hb⟩ hcall
    exact h.hashpoolStep hb hle hcall
  refine ⟨h.tablesAgree hb, h.max_eq.symm.trans hb.max_eq, ?_, ?_⟩
  · intro ip mac leaseTime curTime
    exact h.not_rollsBack ip mac leaseTime curTime
  · intro ip mac leaseTime curTime hfail l hlive
    exact h.alloc_refused hfail hlive

/-- Two clients ask for one address of a pool of eleven, and the first declines it. -/
theorem hashpool_tables_agree_two_clients :
    (10 : UInt32) ≤ 20 ∧ InPool 10 20 12 ∧
      (exec (hashpoolStep 10 20) (dhcpHashpoolInit HashPool.zeroed 10 1)
        [.allocLease 12 (fun _ => 1) 60 0, .allocLease 12 (fun _ => 2) 60 30,
          .declineLease (fun _ => 1), .allocLease 12 (fun _ => 2) 60 31]).TablesAgree 10 20 := by
  have hpool : InPool 10 20 12 := ⟨by decide, by decide⟩
  refine ⟨by decide, hpool, (hashpool_tables_agree 10 20 (by decide) HashPool.zeroed 1 _ ?_).1⟩
  intro call hcall
  simp only [List.mem_cons, List.not_mem_nil, or_false] at hcall
  rcases hcall with rfl | rfl | rfl | rfl
  · exact hpool
  · exact hpool
  · trivial
  · exact hpool

end BaremetalDhcp
